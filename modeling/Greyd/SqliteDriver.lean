import Greyd.DbHandle
import Greyd.PermittedDomains
import Greyd.ScanAgreement

/-!
# The SQLite driver behind the handle (sqlite.c)

The driver keeps three tables, and its functions are single statements on them. Over whole runs
of the programs its database is that of the Berkeley DB driver, as long as the two do not treat
an entry differently when they scan.
-/
namespace Greyd

open SerialRuns LikePatterns

/-- A table with one text column, its primary key. -/
abbrev TextTable := AList fun _ : CStr => Unit

structure SqliteDb where
  entries : SqlTable
  spamtraps : TextTable
  domains : TextTable

def SqliteDb.empty : SqliteDb := ⟨∅, ∅, ∅⟩

/-- `INSERT OR IGNORE` -/
def TextTable.insertOrIgnore (t : TextTable) (s : CStr) : TextTable :=
  if s ∈ t then t else t.insert s ()

/-- The row of `entries` under a key. -/
def entryRow : DbKey → GreyTuple
  | .tuple gt => gt
  | .ip s => ipRow s
  | .mail s => ipRow s
  | .dom s => ipRow s

/-- `SELECT 0, 0, 0, 0, pcount FROM …` -/
def TextTable.select (t : TextTable) (s : CStr) (pcount : Int) : Option GreyData :=
  if s ∈ t then some ⟨0, 0, 0, 0, pcount⟩ else none

namespace Sqlite

def modDbPut (key : DbKey) (val : GreyData) (s : SqliteDb) : SqliteDb :=
  match key with
  | .mail a => { s with spamtraps := TextTable.insertOrIgnore s.spamtraps a }
  | .dom d => { s with domains := TextTable.insertOrIgnore s.domains d }
  | _ => { s with entries := s.entries.insert (entryRow key) val }

def modDbGet (key : DbKey) (s : SqliteDb) : Option GreyData :=
  match key with
  | .mail a => TextTable.select s.spamtraps a (-2)
  | .dom d => TextTable.select s.domains d (-3)
  | _ => s.entries.lookup (entryRow key)

/-- A statement that deletes no row is none that fails. -/
def modDbDel (key : DbKey) (s : SqliteDb) : Option SqliteDb :=
  match key with
  | .mail a => some { s with spamtraps := s.spamtraps.erase a }
  | .dom d => some { s with domains := s.domains.erase d }
  | _ => some { s with entries := s.entries.erase (entryRow key) }

/-- The first step of the lookup for a DB_KEY_DOM_PART key yields a row. -/
def selectsDomain (part : CStr) (s : SqliteDb) : Bool :=
  (selectDomains likeRules s.domains.keys part).any (· ≠ [])

end Sqlite

/-- An order in which the rows of a table are listed. -/
structure RowOrder where
  listed : SqlTable → SqlTable
  perm : ∀ t, (listed t).entries.Perm t.entries

def sqliteDriver (order : RowOrder) : DbDriver SqliteDb where
  put := Sqlite.modDbPut
  get := Sqlite.modDbGet
  getDomPart := Sqlite.selectsDomain
  del := Sqlite.modDbDel
  scan now whiteExp s :=
    let txn := (Sqlite.modScanDb tableSql (fun _ => .done) now whiteExp
      ⟨order.listed s.entries, false, ⟨[], [], []⟩⟩).2
    (txn.lists, { s with entries := txn.db })

/-! ## The same database -/

/-- The databases hold the same: the entries of addresses and of tuples with a sender and a
recipient, the spamtraps, and the domains, which have no special characters. -/
structure SameDb (b : Bdb) (s : SqliteDb) : Prop where
  entries : SameEntries b s.entries
  spamtraps : ∀ a, (b.spamtraps.lookup (.mail a)).isSome ↔ a ∈ s.spamtraps
  domains : ∀ d, d ∈ storedDomains b ↔ d ∈ s.domains
  plain : ∀ d ∈ s.domains, Plain d

/-- A tuple with a sender and a recipient, and a domain without special characters. -/
def PlainKey : DbKey → Prop
  | .tuple gt => gt.from_ ≠ [] ∧ gt.to_ ≠ []
  | .dom d => Plain d
  | _ => True

section

variable {b : Bdb} {s : SqliteDb} {key : DbKey} {t : TextTable} {a c : CStr}

theorem mem_insertOrIgnore : c ∈ TextTable.insertOrIgnore t a ↔ c = a ∨ c ∈ t := by
  unfold TextTable.insertOrIgnore
  split
  · next h => exact ⟨.inr, fun hc => hc.elim (fun heq => heq ▸ h) id⟩
  · exact AList.mem_insert t

theorem select_isSome {pcount : Int} : (TextTable.select t a pcount).isSome ↔ a ∈ t := by
  unfold TextTable.select
  split
  · next h => simp [h]
  · next h => simp [h]

theorem mem_storedDomains_iff : a ∈ storedDomains b ↔ (b.domains.lookup (.dom a)).isSome := by
  rw [mem_storedDomains, AList.lookup_isSome, AList.mem_keys]

theorem sameDb_empty : SameDb .empty .empty where
  entries := sameEntries_empty
  spamtraps a := by simp [Bdb.empty, SqliteDb.empty]
  domains d := by simp [mem_storedDomains_iff, Bdb.empty, SqliteDb.empty]
  plain d hd := absurd hd (AList.notMem_empty d)

/-- Neither driver reads a stored domain otherwise than as it is written. -/
theorem SameDb.selectsDomain (h : SameDb b s) (part : CStr) :
    checkPartialDom b part = Sqlite.selectsDomain part s := by
  have hliteral : ∀ domain ∈ s.domains.keys, like Sqlite.likeRules ('%' :: domain) part =
      some (decide (EndsIn Char.toLower part domain)) := fun domain hdomain =>
    literalAt_of_plain (h.plain domain (AList.mem_keys.mpr hdomain)) part _ (by simp)
  rw [Bool.eq_iff_iff, checkPartialDom_iff, Sqlite.selectsDomain, selectDomains_literal hliteral]
  simp only [Option.any_some, decide_eq_true_eq, ne_eq, List.filter_eq_nil_iff, not_forall,
    exists_prop, not_not, h.domains, ← AList.mem_keys]
  exact Iff.rfl

theorem SameDb.get (h : SameDb b s) (hkey : PlainKey key) :
    SameReply key ((b.file key).lookup key) (Sqlite.modDbGet key s) := by
  cases key with
  | ip ip => exact h.entries.own ip
  | tuple gt => exact h.entries.tuple gt hkey.1 hkey.2
  | mail a =>
    show (b.spamtraps.lookup (.mail a)).isSome = (TextTable.select s.spamtraps a (-2)).isSome
    rw [Bool.eq_iff_iff, h.spamtraps, select_isSome]
  | dom d =>
    show (b.domains.lookup (.dom d)).isSome = (TextTable.select s.domains d (-3)).isSome
    rw [Bool.eq_iff_iff, ← mem_storedDomains_iff, h.domains, select_isSome]

/-- Storing a spamtrap or a domain in either database. -/
theorem SameDb.put {val val' : GreyData} (h : SameDb b s) (hkey : PlainKey key)
    (hval : SameReply key (some val) (some val')) :
    SameDb (b.setFile key ((b.file key).insert key val)) (Sqlite.modDbPut key val' s) := by
  cases key with
  | ip ip =>
    cases hval
    exact ⟨h.entries.putIp ip val, h.spamtraps, h.domains, h.plain⟩
  | tuple gt =>
    cases hval
    exact ⟨h.entries.putTuple hkey.1 hkey.2 val, h.spamtraps, h.domains, h.plain⟩
  | mail a =>
    refine ⟨⟨h.entries.own, h.entries.tuple, h.entries.keys, h.entries.rows⟩, fun c => ?_,
      h.domains, h.plain⟩
    show ((b.spamtraps.insert (.mail a) val).lookup (.mail c)).isSome ↔ _
    rw [AList.lookup_isSome, AList.mem_insert, ← AList.lookup_isSome, h.spamtraps,
      DbKey.mail.injEq]
    exact mem_insertOrIgnore.symm
  | dom d =>
    refine ⟨⟨h.entries.own, h.entries.tuple, h.entries.keys, h.entries.rows⟩, h.spamtraps,
      fun c => ?_, fun c hc => ?_⟩
    · rw [mem_storedDomains_iff]
      show ((b.domains.insert (.dom d) val).lookup (.dom c)).isSome ↔ _
      rw [AList.lookup_isSome, AList.mem_insert, ← AList.lookup_isSome, ← mem_storedDomains_iff,
        h.domains, DbKey.dom.injEq]
      exact mem_insertOrIgnore.symm
    · rcases mem_insertOrIgnore.mp hc with rfl | hold
      · exact hkey
      · exact h.plain c hold

/-- Deleting the entry of an address from either database. -/
theorem SameEntries.delIp {t : SqlTable} (h : SameEntries b t) (ip : CStr) :
    SameEntries (b.dropEntry (.ip ip)) (t.erase (ipRow ip)) where
  own ip' := by
    rw [entry_dropEntry]
    by_cases hip : ip' = ip
    · subst hip
      rw [if_pos rfl, AList.lookup_erase]
    · have hrow : ipRow ip' ≠ ipRow ip := fun heq => hip (congrArg GreyTuple.ip heq)
      rw [if_neg (by simpa using hip), AList.lookup_erase_ne hrow, h.own]
  tuple gt hfrom hto := by
    have hrow : gt ≠ ipRow ip := fun heq => hfrom (congrArg GreyTuple.from_ heq)
    rw [entry_dropEntry, if_neg (by simp), AList.lookup_erase_ne hrow, h.tuple gt hfrom hto]
  keys key gd he := by
    rw [entry_dropEntry] at he
    split at he
    · cases he
    · exact h.keys key gd he
  rows gt gd he := by
    by_cases hrow : gt = ipRow ip
    · rw [hrow, AList.lookup_erase] at he
      cases he
    · rw [AList.lookup_erase_ne hrow] at he
      exact h.rows gt gd he

/-- Deleting that of a tuple. -/
theorem SameEntries.delTuple {t : SqlTable} (h : SameEntries b t) {gt : GreyTuple}
    (hfrom : gt.from_ ≠ []) : SameEntries (b.dropEntry (.tuple gt)) (t.erase gt) where
  own ip := by
    have hrow : ipRow ip ≠ gt := fun heq => hfrom (congrArg GreyTuple.from_ heq).symm
    rw [entry_dropEntry, if_neg (by simp), AList.lookup_erase_ne hrow, h.own]
  tuple gt' hfrom' hto' := by
    rw [entry_dropEntry]
    by_cases hgt : gt' = gt
    · subst hgt
      rw [if_pos rfl, AList.lookup_erase]
    · rw [if_neg (by simpa using hgt), AList.lookup_erase_ne hgt, h.tuple gt' hfrom' hto']
  keys key gd he := by
    rw [entry_dropEntry] at he
    split at he
    · cases he
    · exact h.keys key gd he
  rows gt' gd he := by
    by_cases hgt : gt' = gt
    · rw [hgt, AList.lookup_erase] at he
      cases he
    · rw [AList.lookup_erase_ne hgt] at he
      exact h.rows gt' gd he

/-- What a deletion leaves in either database; the Berkeley DB has no record to delete. -/
theorem SameDb.del (h : SameDb b s) (hkey : PlainKey key) :
    SameDb (b.setFile key ((b.file key).erase key)) ((Sqlite.modDbDel key s).getD s) := by
  cases key with
  | ip ip => exact ⟨h.entries.delIp ip, h.spamtraps, h.domains, h.plain⟩
  | tuple gt => exact ⟨h.entries.delTuple hkey.1, h.spamtraps, h.domains, h.plain⟩
  | mail a =>
    refine ⟨⟨h.entries.own, h.entries.tuple, h.entries.keys, h.entries.rows⟩, fun c => ?_,
      h.domains, h.plain⟩
    show ((b.spamtraps.erase (.mail a)).lookup (.mail c)).isSome ↔ c ∈ s.spamtraps.erase a
    rw [AList.lookup_isSome, AList.mem_erase, AList.mem_erase, ← AList.lookup_isSome, h.spamtraps,
      ne_eq, DbKey.mail.injEq]
  | dom d =>
    refine ⟨⟨h.entries.own, h.entries.tuple, h.entries.keys, h.entries.rows⟩, h.spamtraps,
      fun c => ?_, fun c hc => h.plain c ((AList.mem_erase ..).mp hc).2⟩
    rw [mem_storedDomains_iff]
    show ((b.domains.erase (.dom d)).lookup (.dom c)).isSome ↔ c ∈ s.domains.erase d
    rw [AList.lookup_isSome, AList.mem_erase, AList.mem_erase, ← AList.lookup_isSome,
      ← mem_storedDomains_iff, h.domains, ne_eq, DbKey.dom.injEq]

theorem erase_of_lookup_none (file : DbFile) (h : file.lookup key = none) : file.erase key = file :=
  AList.ext (List.kerase_of_notMem_keys (AList.lookup_eq_none.mp h))

theorem setFile_file (b : Bdb) (key : DbKey) : b.setFile key (b.file key) = b := by
  cases key <;> rfl

/-- The functions of the two drivers do the same to the same database. -/
theorem drivers_related (checkAddr : CStr → Option SaFamily) (order : List DbKey) (rows : RowOrder) :
    DbDriver.Related PlainKey SameDb (bdbDriver checkAddr order) (sqliteDriver rows) where
  get hst hkey := hst.get hkey
  getDomPart hst := hst.selectsDomain _
  put hst hkey hval := hst.put hkey hval
  del := by
    intro b s key hst hkey
    have hdel := hst.del hkey
    dsimp only [bdbDriver]
    split
    · next hnone =>
      rw [erase_of_lookup_none _ hnone, setFile_file] at hdel
      exact hdel
    · exact hdel

end

/-! ## Runs in both databases -/

/-- A transaction, and the order in which SQLite lists the rows if it is a scan. -/
structure BothTick where
  now : Int
  event : DbEvent
  rows : RowOrder

structure BothDbs where
  bdb : Bdb
  sqlite : SqliteDb

variable {numericHost : SaFamily → CStr → Bool} {g : Greylister} {t : BothTick} {p : BothDbs}

/-- The transaction with either driver. -/
def bothStep (g : Greylister) (t : BothTick) (p : BothDbs) : BothDbs :=
  ⟨(bdbDriver g.checkAddr t.event.cursor).step g t.now t.event p.bdb,
    (sqliteDriver t.rows).step g t.now t.event p.sqlite⟩

/-- What the drivers would do alike: with tuples that have a sender and a recipient, with domains
that have no special characters, and in a scan where the entries of every address are alike
and no tuple of a spamtrap or a domain has expired. -/
structure BothTick.Alike (numericHost : SaFamily → CStr → Bool) (g : Greylister) (t : BothTick)
    (p : BothDbs) : Prop where
  plain : t.event.Safe g PlainKey
  fits : ∀ order, t.event = .grey (.scan order) → order.Nodup ∧ ∀ key ∈ p.bdb.db, key ∈ order
  low : ∀ order, t.event = .grey (.scan order) →
    ∀ gt gd, p.bdb.entry (.tuple gt) = some gd → gd.expire ≤ t.now → -2 < gd.pcount
  alike : ∀ order, t.event = .grey (.scan order) →
    ∀ ip, p.bdb.AlikeAt numericHost t.now g.whiteExp ip

abbrev BothRun (numericHost : SaFamily → CStr → Bool) (g : Greylister) (first : BothDbs) :
    List BothTick → BothDbs → Prop :=
  Run (BothTick.Alike numericHost g) (bothStep g) first

def BothTick.dbTick (t : BothTick) : DbTick := ⟨t.now, .none, t.event⟩

/-- The addresses of the lists are the same. -/
structure SameAddresses (lists lists' : ScanLists) : Prop where
  white : ∀ ip, ip ∈ lists.whitelist ↔ ip ∈ lists'.whitelist
  whiteIpv6 : ∀ ip, ip ∈ lists.whitelistIpv6 ↔ ip ∈ lists'.whitelistIpv6
  trap : ∀ ip, ip ∈ lists.traplist ↔ ip ∈ lists'.traplist

/-- A scan where the entries are alike. -/
theorem SameDb.scan (hcheck : g.checkAddr = ipCheckAddr numericHost) (h : SameDb p.bdb p.sqlite)
    (halike : t.Alike numericHost g p) {order : List DbKey} (hevent : t.event = .grey (.scan order)) :
    SameAddresses ((bdbDriver g.checkAddr order).scan t.now g.whiteExp p.bdb).1
        ((sqliteDriver t.rows).scan t.now g.whiteExp p.sqlite).1 ∧
      SameDb ((bdbDriver g.checkAddr order).scan t.now g.whiteExp p.bdb).2
        ((sqliteDriver t.rows).scan t.now g.whiteExp p.sqlite).2 := by
  obtain ⟨hnodup, hcovers⟩ := halike.fits order hevent
  obtain ⟨st, hst⟩ := @scanKeys_total (ipCheckAddr numericHost) t.now g.whiteExp
    ⟨p.bdb, [], [], []⟩ order
  have hscan : modScanDb (ipCheckAddr numericHost) .none t.now g.whiteExp p.bdb order = some st := hst
  obtain ⟨hwhite, hwhite6, htrap, hentries⟩ := alike_sameScan (h.entries.perm (t.rows.perm _))
    ⟨order, hnodup, hcovers⟩ hscan (halike.low order hevent) (halike.alike order hevent)
  have hfiles : st.db.spamtraps = p.bdb.spamtraps ∧ st.db.domains = p.bdb.domains :=
    scanKeys_induct (P := fun st => p.bdb.SameLists st.db)
      (fun _ _ _ _ hstep hfiles =>
        ⟨hstep.sameLists.1.trans hfiles.1, hstep.sameLists.2.trans hfiles.2⟩) hst ⟨rfl, rfl⟩
  have hstored : storedDomains st.db = storedDomains p.bdb := by
    unfold storedDomains
    rw [hfiles.2]
  rw [hcheck]
  dsimp only [bdbDriver]
  rw [hscan]
  refine ⟨⟨hwhite, hwhite6, htrap⟩, hentries, fun a => ?_, fun d => ?_, h.plain⟩
  · rw [hfiles.1]
    exact h.spamtraps a
  · rw [hstored]
    exact h.domains d

theorem bothStep_sameDb (hcheck : g.checkAddr = ipCheckAddr numericHost)
    (halike : t.Alike numericHost g p) (h : SameDb p.bdb p.sqlite) :
    SameDb (bothStep g t p).bdb (bothStep g t p).sqlite := by
  refine (drivers_related g.checkAddr t.event.cursor t.rows).step (fun _ => trivial) (fun _ => trivial)
    halike.plain h fun order hevent => ?_
  rw [hevent]
  exact (h.scan hcheck halike hevent).2

theorem BothRun.dbRun {first : BothDbs} {ts : List BothTick} (h : BothRun numericHost g first ts p) :
    DbRun g first.bdb (ts.map BothTick.dbTick) p.bdb := by
  induction h with
  | start => exact .start
  | @tick ts p t _ halike ih =>
    rw [List.map_append]
    have hstep : (bothStep g t p).bdb = dbStep g t.dbTick p.bdb := bdb_step
    rw [hstep]
    refine ih.tick ?_
    obtain ⟨now, event, rows⟩ := t
    cases event with
    | grey event =>
      cases event with
      | grey _ _ _ | nonGrey _ _ _ _ => trivial
      | scan order => exact halike.fits order rfl
    | update _ _ _ | logged _ => trivial

/-- In every run of the programs that share the database, as long as the drivers would do the
same with it, SQLite keeps the database that the Berkeley DB keeps, and every scan finds the
same addresses in both. -/
theorem drivers_keep_same_db (hcheck : g.checkAddr = ipCheckAddr numericHost) {ts : List BothTick}
    (hrun : BothRun numericHost g ⟨.empty, .empty⟩ ts p) :
    DbRun g .empty (ts.map BothTick.dbTick) p.bdb ∧ SameDb p.bdb p.sqlite ∧
      ∀ (t : BothTick) order, t.Alike numericHost g p → t.event = .grey (.scan order) →
        SameAddresses ((bdbDriver g.checkAddr order).scan t.now g.whiteExp p.bdb).1
          ((sqliteDriver t.rows).scan t.now g.whiteExp p.sqlite).1 := by
  have hsame : SameDb p.bdb p.sqlite :=
    hrun.invariant (I := fun p => SameDb p.bdb p.sqlite) sameDb_empty
      fun _ _ halike hsame => bothStep_sameDb hcheck halike hsame
  exact ⟨hrun.dbRun, hsame, fun t order halike hevent => (hsame.scan hcheck halike hevent).1⟩

/-- An engine that takes every text for an address. -/
def readingGreylister : Greylister := { defaultGreylister with checkAddr := ipCheckAddr fun _ _ => true }

def asListed : RowOrder := ⟨id, fun _ => .rfl⟩

def whiteByHand : BothTick := ⟨1000, .update .add .white "10.0.0.1".toList, asListed⟩

def scanByHand : BothTick := ⟨2000, .grey (.scan [.ip "10.0.0.1".toList]), asListed⟩

def handDbs : BothDbs := bothStep readingGreylister whiteByHand ⟨.empty, .empty⟩

theorem handDbs_entry {key : DbKey} {gd : GreyData} (h : handDbs.bdb.entry key = some gd) :
    key = .ip "10.0.0.1".toList ∧ gd = ⟨1000, 1000, 3111400, 1, 0⟩ := by
  have hput : handDbs.bdb = Bdb.empty.putEntry (.ip "10.0.0.1".toList) ⟨1000, 1000, 3111400, 1, 0⟩ := rfl
  rw [hput, entry_putEntry] at h
  split at h
  · next hkey => exact ⟨hkey, (Option.some.inj h).symm⟩
  · cases h

theorem scanByHand_alike : scanByHand.Alike (fun _ _ => true) readingGreylister handDbs where
  plain := trivial
  fits order hevent := by
    cases hevent
    exact ⟨List.nodup_singleton _, by decide⟩
  low _ _ gt gd he := by
    obtain ⟨hkey, -⟩ := handDbs_entry he
    cases hkey
  alike _ _ ip := by
    have hquiet : ¬ handDbs.bdb.PassingTuple ip 2000 := by
      rintro ⟨gt, gd, -, he, -⟩
      obtain ⟨hkey, -⟩ := handDbs_entry he
      cases hkey
    by_cases hip : ip = "10.0.0.1".toList
    · subst hip
      have hentry : handDbs.bdb.entry (.ip "10.0.0.1".toList) = some ⟨1000, 1000, 3111400, 1, 0⟩ := rfl
      refine .white hentry ?_ hquiet fun _ => rfl
      rw [GreyData.Passing]
      decide
    · have hnone : ∀ gd, handDbs.bdb.entry (.ip ip) ≠ some gd := fun gd he =>
        hip (DbKey.ip.inj (handDbs_entry he).1)
      exact .quiet (fun gd he => absurd he (hnone gd)) hquiet fun gd he => absurd he (hnone gd)

/-- An address is whitelisted by hand, and a scan follows. -/
theorem drivers_keep_same_db_white :
    DbRun readingGreylister .empty [whiteByHand.dbTick, scanByHand.dbTick]
        (bothStep readingGreylister scanByHand handDbs).bdb ∧
      SameDb (bothStep readingGreylister scanByHand handDbs).bdb
        (bothStep readingGreylister scanByHand handDbs).sqlite ∧
      ∀ (t : BothTick) order, t.Alike (fun _ _ => true) readingGreylister
          (bothStep readingGreylister scanByHand handDbs) →
        t.event = .grey (.scan order) →
        SameAddresses ((bdbDriver readingGreylister.checkAddr order).scan t.now readingGreylister.whiteExp
            (bothStep readingGreylister scanByHand handDbs).bdb).1
          ((sqliteDriver t.rows).scan t.now readingGreylister.whiteExp
            (bothStep readingGreylister scanByHand handDbs).sqlite).1 := by
  have hfirst : BothRun (fun _ _ => true) readingGreylister ⟨.empty, .empty⟩ [whiteByHand] handDbs :=
    Run.start.tick ⟨fun key hkey => by cases hkey; trivial, nofun, nofun, nofun⟩
  exact drivers_keep_same_db rfl (hfirst.tick scanByHand_alike)

end Greyd
