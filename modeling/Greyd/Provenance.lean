import Greyd.DbWriters

/-!
# Why an address is listed

Whatever the programs that share the database do, and whatever fails on the way: an address
is on a traplist because a transaction trapped it, and on a whitelist because a transaction
whitelisted it or because one of its tuples was tried again after the pass time.
-/
namespace Greyd

open SerialRuns

/-! ## Causes -/

/-- Another try of the tuple. -/
def DbTick.Tries (t : DbTick) (gt : GreyTuple) : Prop :=
  ∃ sync dstIp, t.event = .grey (.grey gt sync dstIp)

/-- The transactions that trap the address. -/
inductive Traps (g : Greylister) (b : Bdb) (ip : CStr) : DbTick → Prop
  | message {now f expires e} : parseExpires expires = some e →
      Traps g b ip ⟨now, f, .grey (.nonGrey true ip expires false)⟩
  | greydb {now f} : Traps g b ip ⟨now, f, .update .add .traphit ip⟩
  | spamtrap {now f gt sync dstIp} : gt.ip = ip → trapCheck g f b gt.to_ = .spamtrap →
      Traps g b ip ⟨now, f, .grey (.grey gt sync dstIp)⟩
  | policy {now f gt sync dstIp} : gt.ip = ip → trapCheck g f b gt.to_ = .noTrap →
      spfVerdict g gt sync false = 2 → Traps g b ip ⟨now, f, .grey (.grey gt sync dstIp)⟩
  | lowPrio {now f gt sync dstIp} : gt.ip = ip → trapCheck g f b gt.to_ = .noTrap →
      b.entry (.tuple gt) = none → triedLowPrio g now sync dstIp = true →
      Traps g b ip ⟨now, f, .grey (.grey gt sync dstIp)⟩

/-- The transactions that whitelist the address. -/
inductive Whitens (g : Greylister) (b : Bdb) (ip : CStr) : DbTick → Prop
  | message {now f expires e} : parseExpires expires = some e →
      Whitens g b ip ⟨now, f, .grey (.nonGrey false ip expires false)⟩
  | greydb {now f} : Whitens g b ip ⟨now, f, .update .add .white ip⟩
  | logged {now f} : Whitens g b ip ⟨now, f, .logged ip⟩
  | policy {now f gt sync dstIp} : gt.ip = ip → trapCheck g f b gt.to_ = .noTrap →
      spfVerdict g gt sync false = 0 → g.whitelistOnPass = true →
      Whitens g b ip ⟨now, f, .grey (.grey gt sync dstIp)⟩

/-- The tuple was tried, and tried again after the pass time and before its entry expired. -/
def Retried (g : Greylister) (ts : List DbTick) (gt : GreyTuple) : Prop :=
  ∃ u₁ u₂, [u₁, u₂].Sublist ts ∧ u₁.Tries gt ∧ u₂.Tries gt ∧ u₁.now + g.passTime < u₂.now ∧
    u₂.now < u₁.now + g.greyExp

/-! ## What a transaction can do -/

/-- The transaction is about the address. -/
def DbTick.Concerns (t : DbTick) (ip : CStr) : Prop :=
  match t.event with
  | .grey event => GreyTick.Concerns ⟨t.now, t.faults, event⟩ ip
  | .update _ _ ip' => ip' = ip
  | .logged ip' => ip' = ip

/-- A transaction leaves the entries alone, writes or deletes the entry of an address, writes
that of a tuple as another try, or is a scan. -/
inductive DbCases (g : Greylister) (t : DbTick) (b : Bdb) : Bdb → Prop
  | same {b'} : (∀ key, b'.entry key = b.entry key) → DbCases g t b b'
  | drop {ip} : t.Concerns ip → DbCases g t b (b.dropEntry (.ip ip))
  | white {ip gd} : Whitens g b ip t → 0 ≤ gd.pcount ∨ (∃ old, b.entry (.ip ip) = some old ∧
      gd.pcount = old.pcount + 1) → DbCases g t b (b.putEntry (.ip ip) gd)
  | trap {ip gd} : Traps g b ip t → gd.pcount = -1 → DbCases g t b (b.putEntry (.ip ip) gd)
  | touch {gt} : t.Tries gt →
      DbCases g t b (b.putEntry (.tuple gt) (touchGrey g t.now false (b.entry (.tuple gt))))
  | scanned {order st} : t.event = .grey (.scan order) →
      modScanDb g.checkAddr t.faults t.now g.whiteExp b order = some st → DbCases g t b st.db

section Cases

variable {g : Greylister} {f : DbFaults} {now : Int} {b : Bdb}

theorem DbCases.refl (t : DbTick) : DbCases g t b b := .same fun _ => rfl

/-- A put that may fail is covered where the put is. -/
theorem DbCases.put {t : DbTick} {key : DbKey} {gd : GreyData} (hfile : b.file key = b.db)
    (hset : ∀ file, b.setFile key file = { b with db := file })
    (h : DbCases g t b (b.putEntry key gd)) : DbCases g t b ((modDbPut f b key gd).getD b) := by
  unfold modDbPut
  split
  · exact .refl t
  · rw [hset, hfile]
    exact h

theorem DbCases.putIp {t : DbTick} {ip : CStr} {gd : GreyData}
    (h : DbCases g t b (b.putEntry (.ip ip) gd)) :
    DbCases g t b ((modDbPut f b (.ip ip) gd).getD b) := .put rfl (fun _ => rfl) h

theorem DbCases.putTuple {t : DbTick} {gt : GreyTuple} {gd : GreyData}
    (h : DbCases g t b (b.putEntry (.tuple gt) gd)) :
    DbCases g t b ((modDbPut f b (.tuple gt) gd).getD b) := .put rfl (fun _ => rfl) h

section Grey

variable {gt : GreyTuple} {sync : Bool} {dstIp : CStr}

/-- The transaction of a grey message, where the address is trapped already. -/
theorem recordGrey_trap_cases {t : DbTick} (h : Traps g b gt.ip t) :
    DbCases g t b (recordGrey g f now gt sync dstIp true b) := by
  unfold recordGrey
  cases modDbGet f b (greyKey true gt) with
  | notFound => exact .putIp (.trap h rfl)
  | found gd => exact .putIp (.trap h rfl)
  | err => exact .refl t

theorem recordGrey_try_cases (hc : trapCheck g f b gt.to_ = .noTrap) :
    DbCases g ⟨now, f, .grey (.grey gt sync dstIp)⟩ b
      (recordGrey g f now gt sync dstIp false b) := by
  have htries : DbTick.Tries ⟨now, f, .grey (.grey gt sync dstIp)⟩ gt := ⟨sync, dstIp, rfl⟩
  have htouch := @DbCases.touch g ⟨now, f, .grey (.grey gt sync dstIp)⟩ b gt htries
  unfold recordGrey
  rw [Bool.false_or, show greyKey false gt = .tuple gt from rfl]
  rcases modDbGet_cases f b (rfl : b.file (.tuple gt) = b.db) with he | ⟨gd, he, hent⟩ | ⟨he, hent⟩
  · rw [he]
    exact .refl _
  · rw [he]
    rw [hent] at htouch
    exact .putTuple htouch
  · rw [he]
    cases hlow : triedLowPrio g now sync dstIp with
    | true => exact .putIp (.trap (.lowPrio rfl hc hent hlow) rfl)
    | false =>
      rw [hent] at htouch
      exact .putTuple htouch

theorem processGrey_dbCases (g : Greylister) (f : DbFaults) (now : Int) (gt : GreyTuple)
    (sync : Bool) (dstIp : CStr) (b : Bdb) :
    DbCases g ⟨now, f, .grey (.grey gt sync dstIp)⟩ b (processGrey g f now gt sync dstIp b) := by
  unfold processGrey
  cases hc : trapCheck g f b gt.to_ with
  | err => exact .refl _
  | spamtrap =>
    have hverdict : spfVerdict g gt sync true = 1 := by
      unfold spfVerdict
      cases g.spfLookup <;> simp
    simp only [decide_true, hverdict]
    rw [if_neg (by simp)]
    exact recordGrey_trap_cases (.spamtrap rfl hc)
  | noTrap =>
    simp only [reduceCtorEq, decide_false, Bool.false_or]
    split
    · next hpass => exact .putIp (.white (.policy rfl hc hpass.1 hpass.2) (.inl (le_refl 0)))
    · by_cases hfail : spfVerdict g gt sync false = 2
      · rw [decide_eq_true hfail]
        exact recordGrey_trap_cases (.policy rfl hc hfail)
      · rw [decide_eq_false hfail]
        exact recordGrey_try_cases hc

end Grey

theorem modDbDel_cases {t : DbTick} {ip : CStr} (h : t.Concerns ip) :
    DbCases g t b ((modDbDel f b (.ip ip)).getD b) := by
  unfold modDbDel
  split
  · exact .refl t
  · exact .drop h

theorem processNonGrey_dbCases (g : Greylister) (f : DbFaults) (now : Int) (spamtrap : Bool)
    (ip expires : CStr) (delete : Bool) (b : Bdb) :
    DbCases g ⟨now, f, .grey (.nonGrey spamtrap ip expires delete)⟩ b
      (processNonGrey f now spamtrap ip expires delete b) := by
  unfold processNonGrey
  cases delete with
  | true =>
    rcases modDbGet_cases f b (rfl : b.file (.ip ip) = b.db) with he | ⟨gd, he, -⟩ | ⟨he, -⟩ <;>
      rw [he]
    · split <;> exact .refl _
    · split
      · exact .refl _
      · exact modDbDel_cases rfl
    · split <;> exact .refl _
  | false =>
    cases hexp : parseExpires expires with
    | none => exact .refl _
    | some e =>
      rcases modDbGet_cases f b (rfl : b.file (.ip ip) = b.db) with he | ⟨gd, he, hent⟩ | ⟨he, -⟩ <;>
        rw [he]
      · exact .refl _
      · cases spamtrap with
        | true => exact .putIp (.trap (.message hexp) rfl)
        | false => exact .putIp (.white (.message hexp) (.inr ⟨gd, hent, rfl⟩))
      · cases spamtrap with
        | true => exact .putIp (.trap (.message hexp) rfl)
        | false => exact .putIp (.white (.message hexp) (.inl (le_refl 0)))

theorem updateKey_cases {type : EntryType} {ip : CStr} {key : DbKey}
    (h : updateKey g.checkAddr type ip = some key) :
    (type = .white ∨ type = .traphit) ∧ key = .ip ip ∨ ∀ (b : Bdb) file, (b.setFile key file).db = b.db := by
  cases type with
  | white | traphit =>
    simp only [updateKey] at h
    split at h
    · cases h
    · cases h
      exact .inl ⟨by simp, rfl⟩
  | spamtrap =>
    simp only [updateKey] at h
    split at h
    · cases h
      exact .inr fun _ _ => rfl
    · cases h
  | domain =>
    cases h
    exact .inr fun _ _ => rfl

/-- What an update leaves, where it is committed. -/
theorem dbUpdate_cases {action : DbAction} {type : EntryType} {ip : CStr} {b' : Bdb}
    {sent : List SyncSend} (h : dbUpdate g f now action type ip b = some (b', sent)) :
    ∃ key, updateKey g.checkAddr type ip = some key ∧
      (action = .del ∧ modDbDel f b key = some b' ∨
        action = .add ∧ ((∃ gd, modDbGet f b key = .found gd ∧
            modDbPut f b key (updatedEntry g now type gd) = some b') ∨
          modDbGet f b key = .notFound ∧ modDbPut f b key (createdEntry g now type) = some b')) := by
  unfold dbUpdate at h
  obtain ⟨key, hkey, h⟩ := Option.bind_eq_some_iff.mp h
  refine ⟨key, hkey, ?_⟩
  cases action with
  | del =>
    left
    simp only at h
    split at h
    · cases h
    · obtain ⟨left, hleft, hpair⟩ := Option.bind_eq_some_iff.mp h
      cases hpair
      exact ⟨rfl, hleft⟩
  | add =>
    refine .inr ⟨rfl, ?_⟩
    simp only at h
    cases hget : modDbGet f b key with
    | found gd =>
      rw [hget] at h
      obtain ⟨written, hwritten, hpair⟩ := Option.bind_eq_some_iff.mp h
      cases hpair
      exact .inl ⟨gd, rfl, hwritten⟩
    | notFound =>
      rw [hget] at h
      obtain ⟨written, hwritten, hpair⟩ := Option.bind_eq_some_iff.mp h
      cases hpair
      exact .inr ⟨rfl, hwritten⟩
    | err =>
      rw [hget] at h
      cases h

/-- A put to another file leaves the entries as they are. -/
theorem modDbPut_same {key : DbKey} {gd : GreyData} {b' : Bdb}
    (hother : ∀ (b : Bdb) file, (b.setFile key file).db = b.db) (h : modDbPut f b key gd = some b') :
    b'.db = b.db := by
  unfold modDbPut at h
  split at h
  · cases h
  · cases h
    exact hother b _

theorem modDbDel_same {key : DbKey} {b' : Bdb}
    (hother : ∀ (b : Bdb) file, (b.setFile key file).db = b.db) (h : modDbDel f b key = some b') :
    b'.db = b.db := by
  unfold modDbDel at h
  split at h
  · cases h
  · cases h
    exact hother b _

theorem dbUpdate_dbCases (action : DbAction) (type : EntryType) (ip : CStr) (b : Bdb) :
    DbCases g ⟨now, f, .update action type ip⟩ b
      ((dbUpdate g f now action type ip b).getD (b, [])).1 := by
  cases hup : dbUpdate g f now action type ip b with
  | none => exact .refl _
  | some out =>
    obtain ⟨b', sent⟩ := out
    show DbCases g _ b b'
    obtain ⟨key, hkey, hcases⟩ := dbUpdate_cases hup
    rcases updateKey_cases hkey with ⟨htype, rfl⟩ | hother
    · rcases hcases with ⟨-, hdel⟩ | ⟨rfl, ⟨gd, hget, hput⟩ | ⟨hget, hput⟩⟩
      · have hcases := @modDbDel_cases g f b ⟨now, f, .update action type ip⟩ ip rfl
        rwa [hdel] at hcases
      · have hent : b.entry (.ip ip) = some gd := by
          rcases modDbGet_cases f b (rfl : b.file (.ip ip) = b.db) with he | ⟨gd', he, hent⟩ | ⟨he, -⟩
          · rw [he] at hget; cases hget
          · rw [he] at hget; cases hget
            exact hent
          · rw [he] at hget; cases hget
        rw [show b' = (modDbPut f b (.ip ip) (updatedEntry g now type gd)).getD b by rw [hput]; rfl]
        rcases htype with rfl | rfl
        · exact .putIp (.white .greydb (.inr ⟨gd, hent, rfl⟩))
        · exact .putIp (.trap .greydb rfl)
      · rw [show b' = (modDbPut f b (.ip ip) (createdEntry g now type)).getD b by rw [hput]; rfl]
        rcases htype with rfl | rfl
        · exact .putIp (.white .greydb (.inl (le_refl 0)))
        · exact .putIp (.trap .greydb rfl)
    · have hsame : b'.db = b.db := by
        rcases hcases with ⟨-, hdel⟩ | ⟨-, ⟨gd, -, hput⟩ | ⟨-, hput⟩⟩
        · exact modDbDel_same hother hdel
        · exact modDbPut_same hother hput
        · exact modDbPut_same hother hput
      exact .same fun key => by rw [Bdb.entry, hsame, Bdb.entry]

/-- What an address of the log leaves, unless it stops greylogd. -/
theorem logEntry_cases {ip : CStr} {b' : Bdb} {sent : List SyncSend}
    (h : logEntry g f now ip b = some (b', sent)) :
    modDbPut f b (.ip ip) (loggedEntry g now (b.entry (.ip ip))) = some b' := by
  unfold logEntry at h
  rcases modDbGet_cases f b (rfl : b.file (.ip ip) = b.db) with he | ⟨gd, he, hent⟩ | ⟨he, hent⟩
  · rw [he] at h
    cases h
  · rw [he] at h
    obtain ⟨written, hwritten, hpair⟩ := Option.bind_eq_some_iff.mp h
    cases hpair
    rw [hent, hwritten]
  · rw [he] at h
    obtain ⟨written, hwritten, hpair⟩ := Option.bind_eq_some_iff.mp h
    cases hpair
    rw [hent, hwritten]

theorem logEntry_dbCases (ip : CStr) (b : Bdb) :
    DbCases g ⟨now, f, .logged ip⟩ b ((logEntry g f now ip b).getD (b, [])).1 := by
  cases hlog : logEntry g f now ip b with
  | none => exact .refl _
  | some out =>
    obtain ⟨b', sent⟩ := out
    have hput := logEntry_cases hlog
    show DbCases g _ b b'
    rw [show b' = (modDbPut f b (.ip ip) (loggedEntry g now (b.entry (.ip ip)))).getD b by
      rw [hput]; rfl]
    refine .putIp (.white .logged ?_)
    cases hent : b.entry (.ip ip) with
    | none => exact .inl (by decide : (0 : Int) ≤ 1)
    | some gd => exact .inr ⟨gd, rfl, rfl⟩

theorem dbCases (g : Greylister) (t : DbTick) (b : Bdb) : DbCases g t b (dbStep g t b) := by
  obtain ⟨now, f, event⟩ := t
  cases event with
  | grey event =>
    cases event with
    | grey gt sync dstIp => exact processGrey_dbCases g f now gt sync dstIp b
    | nonGrey spamtrap ip expires delete =>
      exact processNonGrey_dbCases g f now spamtrap ip expires delete b
    | scan order =>
      show DbCases g _ b (greyScanDb g f now order b)
      unfold greyScanDb
      cases hscan : modScanDb g.checkAddr f now g.whiteExp b order with
      | none => exact .refl _
      | some st => exact .scanned rfl hscan
  | update action type ip => exact dbUpdate_dbCases action type ip b
  | logged ip => exact logEntry_dbCases ip b

end Cases

/-! ## What holds after any run -/

section Runs

variable {g : Greylister} {b b₀ : Bdb} {ts : List DbTick} {t : DbTick} {ip : CStr}

/-- An entry of an address is a trap or counts how often it was whitelisted. -/
def Bdb.Counted (b : Bdb) : Prop := ∀ ip gd, b.entry (.ip ip) = some gd → -1 ≤ gd.pcount

/-- The address has an entry that is no trap. -/
def Bdb.White (b : Bdb) (ip : CStr) : Prop := ∃ gd, b.entry (.ip ip) = some gd ∧ 0 ≤ gd.pcount

/-- What a scan makes of an address's entry: as it was, deleted, or made for a passing tuple. -/
theorem scanned_entry {f : DbFaults} {now : Int} {order : List DbKey} {st : DbScan} {gd : GreyData}
    (hscan : modScanDb g.checkAddr f now g.whiteExp b order = some st)
    (he : st.db.entry (.ip ip) = some gd) :
    b.entry (.ip ip) = some gd ∨ b.PassingTuple ip now ∧ 0 ≤ gd.pcount := by
  have hinv : b.FewerTuples st.db ip ∧ ∀ gd, st.db.entry (.ip ip) = some gd →
      b.entry (.ip ip) = some gd ∨ b.PassingTuple ip now ∧ 0 ≤ gd.pcount := by
    apply @scanKeys_induct _ _ _ _ _ _ (fun mid => b.FewerTuples mid.db ip ∧
      ∀ gd, mid.db.entry (.ip ip) = some gd →
        b.entry (.ip ip) = some gd ∨ b.PassingTuple ip now ∧ 0 ≤ gd.pcount) order _ hscan
      ⟨.refl b ip, fun _ => .inl⟩
    intro st₁ st₂ key _ hstep ⟨hfew, hent⟩
    refine ⟨hfew.trans (hstep.fewerTuples ip), ?_⟩
    cases hstep.address ip with
    | keep he => rwa [he]
    | expired _ _ hnone =>
      rw [hnone]
      simp
    | trap h0 _ _ he => rwa [he, ← h0]
    | white h0 _ he => rwa [he, ← h0]
    | @promote gt gd' _ hgt h0 hp _ he =>
      intro gd'' he'
      rw [he] at he'; cases he'
      exact .inr ⟨hfew.passing ⟨gt, gd', hgt, h0, hp⟩, hp.1⟩
  exact hinv.2 gd he

theorem dbStep_counted (hb : b.Counted) : (dbStep g t b).Counted := by
  have hcases := dbCases g t b
  intro ip gd he
  generalize dbStep g t b = b' at hcases he
  cases hcases with
  | same hsame => exact hb ip gd (hsame _ ▸ he)
  | @drop ip' =>
    rw [entry_dropEntry] at he
    split at he
    · cases he
    · exact hb ip gd he
  | @white ip' gd' _ hp =>
    rw [entry_putEntry] at he
    split at he
    · cases he
      rcases hp with hpos | ⟨old, hold, hnext⟩
      · omega
      · have hge := hb ip' old hold
        omega
    · exact hb ip gd he
  | @trap ip' gd' _ hp =>
    rw [entry_putEntry] at he
    split at he
    · cases he
      omega
    · exact hb ip gd he
  | touch =>
    rw [entry_putEntry, if_neg (by simp)] at he
    exact hb ip gd he
  | scanned _ hscan =>
    rcases scanned_entry hscan he with hold | ⟨-, hpos⟩
    · exact hb ip gd hold
    · omega

theorem Bdb.entry_of_no_entries {b₀ : Bdb} (h : b₀.db = ∅) (key : DbKey) : b₀.entry key = none := by
  rw [Bdb.entry, h]
  rfl

theorem dbRun_counted (hrun : DbRun g b₀ ts b) (hempty : b₀.db = ∅) : b.Counted :=
  hrun.invariant (fun ip gd he => by rw [b₀.entry_of_no_entries hempty] at he; cases he)
    fun _ _ _ => dbStep_counted

/-- Only a transaction that whitelists the address, or a scan that finds one of its tuples
passing, gives it a white entry. -/
theorem white_cases (hnw : ¬ b.White ip) (hw : (dbStep g t b).White ip) :
    Whitens g b ip t ∨ b.PassingTuple ip t.now := by
  have hcases := dbCases g t b
  obtain ⟨gd, he, hp⟩ := hw
  generalize dbStep g t b = b' at hcases he
  cases hcases with
  | same hsame => exact absurd ⟨gd, hsame _ ▸ he, hp⟩ hnw
  | @drop ip' =>
    rw [entry_dropEntry] at he
    split at he
    · cases he
    · exact absurd ⟨gd, he, hp⟩ hnw
  | @white ip' gd' hwhitens _ =>
    rw [entry_putEntry] at he
    split at he
    · next hip =>
      cases hip
      exact .inl hwhitens
    · exact absurd ⟨gd, he, hp⟩ hnw
  | @trap ip' gd' _ htrap =>
    rw [entry_putEntry] at he
    split at he
    · cases he
      omega
    · exact absurd ⟨gd, he, hp⟩ hnw
  | touch =>
    rw [entry_putEntry, if_neg (by simp)] at he
    exact absurd ⟨gd, he, hp⟩ hnw
  | scanned _ hscan =>
    rcases scanned_entry hscan he with hold | ⟨htup, -⟩
    · exact absurd ⟨gd, hold, hp⟩ hnw
    · exact .inr htup

/-! ### The history of a tuple -/

/-- The try that made the entry of a tuple, and the later one that made it pass, if any. -/
def TupleHistory (g : Greylister) (ts : List DbTick) (gt : GreyTuple) (gd : GreyData) : Prop :=
  ∃ u₁ ∈ ts, u₁.Tries gt ∧ gd.first = u₁.now ∧ gd.expire = u₁.now + g.greyExp ∧
    (gd.expire ≤ gd.pass ∨ ∃ u₂, [u₁, u₂].Sublist ts ∧ u₂.Tries gt ∧
      u₁.now + g.passTime < u₂.now ∧ gd.pass = u₂.now)

theorem TupleHistory.later {gt : GreyTuple} {gd : GreyData} (h : TupleHistory g ts gt gd)
    (t : DbTick) : TupleHistory g (ts ++ [t]) gt gd := by
  obtain ⟨u₁, hu₁, htry, hfirst, hexp, hpass⟩ := h
  refine ⟨u₁, List.mem_append_left _ hu₁, htry, hfirst, hexp, hpass.imp_right ?_⟩
  rintro ⟨u₂, hsub, hrest⟩
  exact ⟨u₂, hsub.trans (List.sublist_append_left ts [t]), hrest⟩

theorem TupleHistory.touched {gt : GreyTuple} {old : Option GreyData} (ht : t.Tries gt)
    (h : ∀ gd, old = some gd → TupleHistory g ts gt gd) :
    TupleHistory g (ts ++ [t]) gt (touchGrey g t.now false old) := by
  cases old with
  | none => exact ⟨t, by simp, ht, rfl, rfl, .inl le_rfl⟩
  | some gd =>
    by_cases hlate : gd.first + g.passTime < t.now
    · -- The entry passes from this try on.
      obtain ⟨u₁, hu₁, htry, hfirst, hexp, -⟩ := h gd rfl
      refine ⟨u₁, List.mem_append_left _ hu₁, htry, hfirst, hexp, .inr ⟨t, ?_, ht, by omega,
        if_pos hlate⟩⟩
      exact (List.singleton_sublist.mpr hu₁).append (List.Sublist.refl [t])
    · obtain ⟨u₁, hu₁, htry, hfirst, hexp, hpass⟩ := (h gd rfl).later t
      have hkept : (touchGrey g t.now false (some gd)).pass = gd.pass := if_neg hlate
      refine ⟨u₁, hu₁, htry, hfirst, hexp, ?_⟩
      rwa [hkept]

theorem dbRun_tuples (hrun : DbRun g b₀ ts b) (hempty : b₀.db = ∅) (gt : GreyTuple) (gd : GreyData)
    (he : b.entry (.tuple gt) = some gd) : TupleHistory g ts gt gd := by
  refine hrun.history (I := fun ts b => ∀ gt gd, b.entry (.tuple gt) = some gd →
    TupleHistory g ts gt gd) ?_ ?_ gt gd he
  · intro gt gd he
    rw [b₀.entry_of_no_entries hempty] at he; cases he
  · intro ts b t hrun hfits ih gt gd he
    have hcases := dbCases g t b
    generalize dbStep g t b = b' at hcases he
    cases hcases with
    | same hsame => exact (ih gt gd (hsame _ ▸ he)).later t
    | drop =>
      rw [entry_dropEntry, if_neg (by simp)] at he
      exact (ih gt gd he).later t
    | white =>
      rw [entry_putEntry, if_neg (by simp)] at he
      exact (ih gt gd he).later t
    | trap =>
      rw [entry_putEntry, if_neg (by simp)] at he
      exact (ih gt gd he).later t
    | @touch gt' htries =>
      rw [entry_putEntry] at he
      split at he
      · next hgt =>
        cases hgt
        cases he
        exact .touched htries fun gd => ih gt gd
      · exact (ih gt gd he).later t
    | @scanned order st _ hscan =>
      have hfew : b.FewerTuples st.db gt.ip :=
        @scanKeys_induct _ _ _ _ _ _ (fun st => b.FewerTuples st.db gt.ip) _
          (fun _ _ _ _ hstep hst => hst.trans (hstep.fewerTuples gt.ip)) hscan (.refl b gt.ip)
      rcases hfew gt rfl with heq | hnone
      · exact (ih gt gd (heq ▸ he)).later t
      · rw [hnone] at he; cases he

/-- A tuple that passes was tried again in time. -/
theorem retried_of_passing {n : Int} (hrun : DbRun g b₀ ts b) (hempty : b₀.db = ∅)
    (h : b.PassingTuple ip n) : ∃ gt, gt.ip = ip ∧ Retried g ts gt := by
  obtain ⟨gt, gd, hip, he, -, hpass, hexp⟩ := h
  obtain ⟨u₁, -, htry, -, hexp', hnever | ⟨u₂, hsub, htry', hlate, hnow⟩⟩ :=
    dbRun_tuples hrun hempty gt gd he
  · omega
  · exact ⟨gt, hip, u₁, u₂, hsub, htry, htry', hlate, by omega⟩

/-! ## The causes of a listing -/

/-- An address on a whitelist was whitelisted by one of the transactions, or one of its
tuples was tried and then tried again after the pass time. -/
theorem whitelist_caused (g : Greylister) (b₀ b : Bdb) (hempty : b₀.db = ∅) (ts : List DbTick)
    (hrun : DbRun g b₀ ts b) (f : DbFaults) (now : Int) (order : List DbKey) (st : DbScan)
    (hscan : modScanDb g.checkAddr f now g.whiteExp b order = some st) (ip : CStr)
    (hip : st.Lists g.checkAddr ip) :
    (∃ before b₁ t, Happened DbTick.Fits (dbStep g) b₀ ts before b₁ t ∧ Whitens g b₁ ip t) ∨
      ∃ gt, gt.ip = ip ∧ Retried g ts gt := by
  have hfirst : ¬ b₀.White ip := by
    rintro ⟨gd, he, -⟩
    rw [b₀.entry_of_no_entries hempty] at he; cases he
  rcases (scanKeys_justified hscan (by simp [DbScan.Lists, DbScan.whitelistOf])
    (by simp)).1 hip with ⟨gd, he, hp⟩ | htup
  · obtain ⟨before, b₁, t, hhap, hnw, hw, -⟩ := hrun.brought_about (P := fun b => b.White ip) hfirst ⟨gd, he, hp.1⟩
    rcases white_cases hnw hw with hcause | htup
    · exact .inl ⟨before, b₁, t, hhap, hcause⟩
    · obtain ⟨gt, hgt, u₁, u₂, hsub, hrest⟩ := retried_of_passing hhap.run hempty htup
      have hpart : before.Sublist ts :=
        ((List.prefix_append before [t]).trans hhap.part).sublist
      exact .inr ⟨gt, hgt, u₁, u₂, hsub.trans hpart, hrest⟩
  · exact .inr (retried_of_passing hrun hempty htup)

end Runs

/-! ## An address trapped by hand, and one that is tried twice -/

def tryAt (now : Int) : DbTick := ⟨now, .none, .grey (.grey triedTuple true [])⟩

def triedTwice : List DbTick := [tryAt 1000, tryAt 3000]

theorem whitelist_caused_retry :
    (∃ before b₁ t, Happened DbTick.Fits (dbStep defaultGreylister) .empty triedTwice before b₁ t ∧
        Whitens defaultGreylister b₁ triedTuple.ip t) ∨
      ∃ gt, gt.ip = triedTuple.ip ∧ Retried defaultGreylister triedTwice gt := by
  have hfirst : DbRun defaultGreylister .empty [tryAt 1000]
      (greyStep defaultGreylister firstTry .empty) := @Run.tick _ _ _ _ _ [] _ _ .start trivial
  have hrun : DbRun defaultGreylister .empty triedTwice triedBdb :=
    hfirst.tick (e := tryAt 3000) trivial
  have he : triedBdb.entry (.tuple triedTuple) = some ⟨1000, 3000, 15400, 2, 0⟩ := by decide
  have hp : GreyData.Passing ⟨1000, 3000, 15400, 2, 0⟩ 3060 := by
    rw [GreyData.Passing]
    decide
  have hnt : ¬ triedBdb.Trapped triedTuple.ip := by
    rintro ⟨gd, hgd, -⟩
    have hnone : triedBdb.entry (.ip triedTuple.ip) = none := by decide
    rw [hnone] at hgd; cases hgd
  obtain ⟨st, hst⟩ := @scanKeys_total defaultGreylister.checkAddr 3060 defaultGreylister.whiteExp
    ⟨triedBdb, [], [], []⟩ [.tuple triedTuple]
  exact whitelist_caused defaultGreylister .empty _ rfl _ hrun .none 3060 _ st hst _
    (scanKeys_passing_tuple hst (List.mem_singleton_self _) he hp hnt).1

end Greyd
