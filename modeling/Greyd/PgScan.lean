import Greyd.ScanDrivers
import Greyd.Support.KeyedUpdates

/-!
# The promotion of `Mod_scan_db` (postgresql.c)

The rows are kept under their primary key, the four strings. `UPDATE` changes every row that
its join selects at once and is refused as a whole where two rows would have one key; the
refusal aborts the transaction.
-/
namespace Greyd

/-- The columns of a row that are not in the key. -/
structure PgRow extends GreyData where
  greydHost : CStr
  deriving DecidableEq

abbrev PgEntry := Sigma fun _ : GreyTuple => PgRow

abbrev PgTable := AList fun _ : GreyTuple => PgRow

namespace PgTable

section Statements

-- The host of the scan, and `EXTRACT(EPOCH FROM now())` in whole seconds.
variable (host : CStr) (dbNow : Int)

/-- `DELETE FROM entries WHERE "expire" <= EXTRACT(EPOCH FROM now()) AND "greyd_host"='%s'` -/
def deleteExpired (t : PgTable) : PgTable where
  entries := t.entries.filter fun e =>
    !(decide (e.2.expire ≤ dbNow) && decide (e.2.greydHost = host))
  nodupKeys := t.nodupKeys.sublist List.filter_sublist

/-- The rows `g` that the left join puts beside the rows of an address. -/
def IpEntry (ip : CStr) (g : PgEntry) : Prop := g.1.ip = ip ∧ g.1.to_ = [] ∧ g.1.from_ = []

instance {ip : CStr} {g : PgEntry} : Decidable (IpEntry ip g) := inferInstanceAs (Decidable (_ ∧ _))

/-- The rows that `UPDATE` changes. -/
def Promoted (t : PgTable) (e : PgEntry) : Prop :=
  (e.1.from_ ≠ [] ∧ e.1.to_ ≠ [] ∧ 0 ≤ e.2.pcount ∧ e.2.pass ≤ dbNow ∧ e.2.greydHost = host) ∧
    ∀ g ∈ t.entries, ¬ IpEntry e.1.ip g

instance {t : PgTable} {e : PgEntry} : Decidable (Promoted host dbNow t e) :=
  inferInstanceAs (Decidable (_ ∧ _))

def promoteRow (expire : Int) (t : PgTable) (e : PgEntry) : PgEntry :=
  if Promoted host dbNow t e then ⟨ipRow e.1.ip, { e.2 with expire := expire }⟩ else e

/-- `UPDATE entries SET "helo" = '', "from" = '', "to" = '', "expire" = %lld FROM entries e
LEFT JOIN entries g …`; `none` where it breaks the key. -/
def promote (expire : Int) (t : PgTable) : Option PgTable :=
  KeyedUpdates.updateAll (promoteRow host dbNow expire t) t

end Statements

/-- The columns that the other drivers have too. -/
def data (t : PgTable) : SqlTable where
  entries := t.entries.map fun e => ⟨e.1, e.2.toGreyData⟩
  nodupKeys := t.nodupKeys.map₂ fun _ row => row.toGreyData

end PgTable

section Scan

variable (host : CStr) (dbNow : Int)

def pgSql : ScanSql PgTable where
  delete _ := PgTable.deleteExpired host dbNow
  update expire _ t := (t.promote host dbNow expire).getD t
  rows t := t.data.scanRows

/-- Nothing fails but an `UPDATE` that breaks the key. -/
def pgOutcome (expire : Int) (t : PgTable) : ScanStatement → SqlOutcome
  | .update => if ((t.deleteExpired host dbNow).promote host dbNow expire).isSome then .done else .refused
  | _ => .done

/-- A scan by the postgresql driver, with the table that is stored afterwards. -/
def pgScanDb (now whiteExp : Int) (names : ScanNames) (t : PgTable) : ScanOutput PgTable :=
  sqlGreyScanDb (pgSql host dbNow) (pgOutcome host dbNow (now + whiteExp) t) now whiteExp names
    .postgresql t

end Scan

namespace PgTable

variable {host : CStr} {dbNow now whiteExp expire : Int} {t t' : PgTable} {e e' : PgEntry}
  {ip : CStr}

/-- A tuple of this host that may pass and has not expired. -/
def Ready (host : CStr) (dbNow : Int) (t : PgTable) (e : PgEntry) : Prop :=
  e ∈ t.entries ∧ e.1.from_ ≠ [] ∧ e.1.to_ ≠ [] ∧ 0 ≤ e.2.pcount ∧ e.2.pass ≤ dbNow ∧
    dbNow < e.2.expire ∧ e.2.greydHost = host

/-- The address has no entry but such as the scan deletes. -/
def NoIpEntry (host : CStr) (dbNow : Int) (t : PgTable) (ip : CStr) : Prop :=
  ∀ g ∈ t.entries, IpEntry ip g → g.2.expire ≤ dbNow ∧ g.2.greydHost = host

/-- The address has one entry, and it is white. -/
def OneWhite (t : PgTable) (ip : CStr) : Prop :=
  ∃ e ∈ t.entries, IpEntry ip e ∧ 0 ≤ e.2.pcount ∧ ∀ g ∈ t.entries, IpEntry ip g → g = e

/-- No two ready tuples are of one address that has no entry. -/
def OneReady (host : CStr) (dbNow : Int) (t : PgTable) : Prop :=
  ∀ e e', Ready host dbNow t e → Ready host dbNow t e' → e.1.ip = e'.1.ip →
    NoIpEntry host dbNow t e.1.ip → e = e'

/-- The promotion breaks no key, and each address with a ready tuple and no entry ends with
one white entry. -/
def Promotes (host : CStr) (dbNow now whiteExp : Int) (names : ScanNames) (t : PgTable) : Prop :=
  ((t.deleteExpired host dbNow).promote host dbNow (now + whiteExp)).isSome ∧
    ∀ e, Ready host dbNow t e → NoIpEntry host dbNow t e.1.ip →
      (pgScanDb host dbNow now whiteExp names t).entries.OneWhite e.1.ip

theorem mem_deleteExpired : e ∈ (t.deleteExpired host dbNow).entries ↔
    e ∈ t.entries ∧ ¬ (e.2.expire ≤ dbNow ∧ e.2.greydHost = host) := by
  show e ∈ t.entries.filter _ ↔ _
  rw [List.mem_filter, Bool.not_eq_true', Bool.and_eq_false_iff, decide_eq_false_iff_not,
    decide_eq_false_iff_not, not_and_or]

/-- What the join selects once the expired rows are gone. -/
theorem promoted_iff : e ∈ (t.deleteExpired host dbNow).entries ∧
      Promoted host dbNow (t.deleteExpired host dbNow) e ↔
    Ready host dbNow t e ∧ NoIpEntry host dbNow t e.1.ip := by
  have hno : (∀ g ∈ (t.deleteExpired host dbNow).entries, ¬ IpEntry e.1.ip g) ↔
      NoIpEntry host dbNow t e.1.ip := by
    constructor
    · intro h g hg hip
      by_contra hstays
      exact h g (mem_deleteExpired.mpr ⟨hg, hstays⟩) hip
    · intro h g hg hip
      obtain ⟨hg, hstays⟩ := mem_deleteExpired.mp hg
      exact hstays (h g hg hip)
  unfold Promoted Ready
  rw [hno, mem_deleteExpired]
  constructor
  · rintro ⟨⟨hmem, hstays⟩, ⟨hfrom, hto, hp, hpass, hhost⟩, hno⟩
    have hlive : dbNow < e.2.expire := by
      by_contra hexp
      exact hstays ⟨not_lt.mp hexp, hhost⟩
    exact ⟨⟨hmem, hfrom, hto, hp, hpass, hlive, hhost⟩, hno⟩
  · rintro ⟨⟨hmem, hfrom, hto, hp, hpass, hlive, hhost⟩, hno⟩
    exact ⟨⟨hmem, fun h => absurd h.1 (not_le.mpr hlive)⟩, ⟨hfrom, hto, hp, hpass, hhost⟩, hno⟩

theorem promoteRow_of_promoted (h : Promoted host dbNow t e) :
    promoteRow host dbNow expire t e = ⟨ipRow e.1.ip, { e.2 with expire := expire }⟩ := if_pos h

theorem promoteRow_of_not (h : ¬ Promoted host dbNow t e) :
    promoteRow host dbNow expire t e = e := if_neg h

/-- No row that stays has the key of one that is promoted: the join has left such rows out. -/
theorem promoted_key_ne (h : Promoted host dbNow t e) (he' : e' ∈ t.entries) :
    (ipRow e.1.ip) ≠ e'.1 := by
  intro heq
  refine h.2 e' he' ⟨?_, ?_, ?_⟩
  · exact (congrArg GreyTuple.ip heq).symm
  · exact (congrArg GreyTuple.to_ heq).symm
  · exact (congrArg GreyTuple.from_ heq).symm

/-- Two rows get one key just where both are promoted and of one address. -/
theorem promote_isSome_iff : (t.promote host dbNow expire).isSome ↔
    ∀ e ∈ t.entries, ∀ e' ∈ t.entries, Promoted host dbNow t e → Promoted host dbNow t e' →
      e.1.ip = e'.1.ip → e = e' := by
  unfold promote
  rw [KeyedUpdates.updateAll_isSome_iff]
  constructor
  · intro h e he e' he' hp hp' hip
    apply h e he e' he'
    rw [promoteRow_of_promoted hp, promoteRow_of_promoted hp', hip]
  · intro h e he e' he' hkey
    by_cases hp : Promoted host dbNow t e <;> by_cases hp' : Promoted host dbNow t e'
    · rw [promoteRow_of_promoted hp, promoteRow_of_promoted hp'] at hkey
      have hip := congrArg GreyTuple.ip (show ipRow e.1.ip = ipRow e'.1.ip from hkey)
      exact h e he e' he' hp hp' hip
    · rw [promoteRow_of_promoted hp, promoteRow_of_not hp'] at hkey
      exact absurd hkey (promoted_key_ne hp he')
    · rw [promoteRow_of_not hp, promoteRow_of_promoted hp'] at hkey
      exact absurd hkey.symm (promoted_key_ne hp' he)
    · rw [promoteRow_of_not hp, promoteRow_of_not hp'] at hkey
      exact t.nodupKeys.eq_of_fst_eq he he' hkey

theorem promote_isSome_iff_oneReady :
    ((t.deleteExpired host dbNow).promote host dbNow expire).isSome ↔ OneReady host dbNow t := by
  rw [promote_isSome_iff]
  constructor
  · intro h e e' hr hr' hip hno
    obtain ⟨hmem, hp⟩ := promoted_iff.mpr ⟨hr, hno⟩
    obtain ⟨hmem', hp'⟩ := promoted_iff.mpr ⟨hr', hip ▸ hno⟩
    exact h e hmem e' hmem' hp hp' hip
  · intro h e he e' he' hp hp' hip
    obtain ⟨hr, hno⟩ := promoted_iff.mp ⟨he, hp⟩
    exact h e e' hr (promoted_iff.mp ⟨he', hp'⟩).1 hip hno

/-- The address of a row that was promoted has one entry, with the counters of that row. -/
theorem promote_oneWhite (h : t.promote host dbNow expire = some t') (he : e ∈ t.entries)
    (hp : Promoted host dbNow t e) : t'.OneWhite e.1.ip := by
  have hmem : promoteRow host dbNow expire t e ∈ t'.entries :=
    (KeyedUpdates.mem_updateAll h).mpr ⟨e, he, rfl⟩
  have hrow : promoteRow host dbNow expire t e = ⟨ipRow e.1.ip, { e.2 with expire := expire }⟩ :=
    promoteRow_of_promoted hp
  refine ⟨_, hmem, ?_, ?_, ?_⟩
  · rw [hrow]
    exact ⟨rfl, rfl, rfl⟩
  · rw [hrow]
    exact hp.1.2.2.1
  · intro g hg hip
    apply KeyedUpdates.updateAll_unique h he hg
    -- an entry of the address that was not promoted would have kept the row from being promoted
    obtain ⟨e', he', rfl⟩ := (KeyedUpdates.mem_updateAll h).mp hg
    by_cases hp' : Promoted host dbNow t e'
    · rw [promoteRow_of_promoted hp'] at hip ⊢
      rw [hrow, ← hip.1]
      rfl
    · rw [promoteRow_of_not hp'] at hip
      exact absurd hip (hp.2 e' he')

/-! ## The transaction -/

theorem scanIgnoringErrors_update {Db : Type} {sql : ScanSql Db}
    {outcome : ScanStatement → SqlOutcome} {fail : SqlTxn Db → SqlTxn Db} {txn : SqlTxn Db}
    (hdelete : outcome .delete = .done) (hupdate : outcome .update ≠ .done) :
    scanIgnoringErrors sql outcome now whiteExp fail txn = (.ok, fail (txn.delete sql now)) := by
  unfold scanIgnoringErrors
  rw [if_neg (not_not.mpr hdelete)]
  exact if_pos hupdate

theorem scanIgnoringErrors_done {Db : Type} {sql : ScanSql Db}
    {outcome : ScanStatement → SqlOutcome} {fail : SqlTxn Db → SqlTxn Db} {txn : SqlTxn Db}
    (hdone : ∀ s, outcome s = .done) : scanIgnoringErrors sql outcome now whiteExp fail txn =
      (.ok, ((txn.delete sql now).update sql now whiteExp).fill
        (sql.rows ((txn.delete sql now).update sql now whiteExp).db)) := by
  unfold scanIgnoringErrors
  rw [if_neg (not_not.mpr (hdone .delete))]
  dsimp only
  rw [if_neg (not_not.mpr (hdone .update)), if_neg (not_not.mpr (hdone .select))]

/-- What is stored: the promoted table, or with the promotion the whole scan is undone, the
deletion of expired rows too. -/
theorem pgScanDb_entries (names : ScanNames) :
    (pgScanDb host dbNow now whiteExp names t).entries =
      ((t.deleteExpired host dbNow).promote host dbNow (now + whiteExp)).getD t := by
  have hentries : (pgScanDb host dbNow now whiteExp names t).entries =
      ((Postgresql.modScanDb (pgSql host dbNow) (pgOutcome host dbNow (now + whiteExp) t) now
        whiteExp ⟨t, false, ⟨[], [], []⟩⟩).2).commit t := by
    have hok := scanIgnoringErrors_ok (pgSql host dbNow) (pgOutcome host dbNow (now + whiteExp) t)
      now whiteExp (fun txn => { txn with aborted := true }) ⟨t, false, ⟨[], [], []⟩⟩
    unfold pgScanDb sqlGreyScanDb
    split
    · next hscan =>
      have herr := (congrArg Prod.fst hscan).symm.trans hok
      cases herr
    · next hscan => exact congrArg (fun r => SqlTxn.commit t r.2) hscan.symm
  rw [hentries]
  cases h : (t.deleteExpired host dbNow).promote host dbNow (now + whiteExp) with
  | none =>
    have hupdate : pgOutcome host dbNow (now + whiteExp) t .update ≠ .done := by
      simp [pgOutcome, h]
    unfold Postgresql.modScanDb
    rw [scanIgnoringErrors_update rfl hupdate]
    rfl
  | some t' =>
    have hdone : ∀ s, pgOutcome host dbNow (now + whiteExp) t s = .done := by
      intro s
      cases s with
      | delete => rfl
      | update => simp [pgOutcome, h]
      | select => rfl
    unfold Postgresql.modScanDb
    rw [scanIgnoringErrors_done hdone]
    show ((t.deleteExpired host dbNow).promote host dbNow (now + whiteExp)).getD _ = t'
    rw [h, Option.getD_some]

/-- The scan promotes every address that is due exactly if no address is due twice. -/
theorem pg_promotes_iff (host : CStr) (dbNow now whiteExp : Int) (names : ScanNames) (t : PgTable) :
    Promotes host dbNow now whiteExp names t ↔ OneReady host dbNow t := by
  constructor
  · intro h
    exact promote_isSome_iff_oneReady.mp h.1
  · intro h
    have hsome : ((t.deleteExpired host dbNow).promote host dbNow (now + whiteExp)).isSome :=
      promote_isSome_iff_oneReady.mpr h
    refine ⟨hsome, ?_⟩
    intro e hr hno
    obtain ⟨t', ht'⟩ := Option.isSome_iff_exists.mp hsome
    obtain ⟨hmem, hp⟩ := promoted_iff.mpr ⟨hr, hno⟩
    rw [pgScanDb_entries, ht', Option.getD_some]
    exact promote_oneWhite ht' hmem hp

/-! ## One message with two recipients -/

/-- A client of this host retried a message to two recipients; another address is due too. -/
def twoRecipients : PgTable :=
  ((((∅ : PgTable).insert ⟨"10.0.0.1".toList, "h".toList, "f@a".toList, "t@b".toList⟩
        ⟨⟨10, 20, 900, 2, 0⟩, "mx".toList⟩).insert
      ⟨"10.0.0.1".toList, "h".toList, "f@a".toList, "u@b".toList⟩
        ⟨⟨10, 20, 900, 2, 0⟩, "mx".toList⟩).insert
    ⟨"10.0.0.2".toList, "h".toList, "f@a".toList, "t@b".toList⟩
      ⟨⟨10, 20, 900, 2, 0⟩, "mx".toList⟩)

theorem two_recipients_not_promoted :
    ¬ Promotes "mx".toList 100 100 500 plainNames twoRecipients ∧
      (pgScanDb "mx".toList 100 100 500 plainNames twoRecipients).entries = twoRecipients := by
  have hnone : (twoRecipients.deleteExpired "mx".toList 100).promote "mx".toList 100 600 = none := by
    decide +kernel
  constructor
  · intro h
    have hsome : ((twoRecipients.deleteExpired "mx".toList 100).promote "mx".toList 100 600).isSome :=
      h.1
    rw [hnone] at hsome
    cases hsome
  · rw [pgScanDb_entries, show (100 : Int) + 500 = 600 from rfl, hnone]
    rfl

end PgTable

end Greyd
