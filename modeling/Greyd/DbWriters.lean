import Greyd.ConReply
import Greyd.Lifetimes
import Greyd.Support.SerialRuns

/-!
# The programs that share the database (grey.c, main_greydb.c, main_greylogd.c)

The reader and the scanner of the greylister, the tool greydb and the log daemon greylogd
are processes of their own, and every change one of them makes is a transaction. What they
send to the other hosts of a cluster is modelled by the arguments of the call.
-/
namespace Greyd

open SerialRuns

/-- A call of `Sync_update`, `Sync_white` or `Sync_trapped`. -/
inductive SyncSend
  | update (gt : GreyTuple) (now : Int)
  | white (ip : CStr) (now expire : Int) (delete : Bool)
  | trapped (ip : CStr) (now expire : Int) (delete : Bool)
  deriving DecidableEq

/-! ## greydb -/

inductive DbAction
  | add
  | del
  deriving DecidableEq

/-- TYPE_WHITE, TYPE_TRAPHIT, TYPE_SPAMTRAP and TYPE_DOMAIN. -/
inductive EntryType
  | white
  | traphit
  | spamtrap
  | domain
  deriving DecidableEq

/-- What `normalize_email_addr` leaves in a cleared buffer of GREY_MAX_MAIL characters. -/
def normalAddr (addr : CStr) : CStr :=
  cstr (normalizeEmailAddr addr (List.replicate greyMaxMail nul) greyMaxMail)

/-- The key `db_update` makes of its argument, unless it refuses it. -/
def updateKey (checkAddr : CStr → Option SaFamily) (type : EntryType) (ip : CStr) : Option DbKey :=
  match type with
  | .white | .traphit => if checkAddr ip = none then none else some (.ip ip)
  | .spamtrap => if '@' ∈ normalAddr ip then some (.mail (normalAddr ip)) else none
  | .domain => some (.dom (normalAddr ip))

/-- The entry `db_update` writes over one it has found. -/
def updatedEntry (g : Greylister) (now : Int) (type : EntryType) (gd : GreyData) : GreyData :=
  match type with
  | .white => { gd with pass := now, expire := now + g.whiteExp, pcount := gd.pcount + 1 }
  | .traphit => { gd with expire := now + g.trapExp, pcount := -1 }
  | .spamtrap => { gd with expire := 0, pcount := -2 }
  | .domain => { gd with expire := 0, pcount := -3 }

def createdEntry (g : Greylister) (now : Int) (type : EntryType) : GreyData :=
  match type with
  | .white => ⟨now, now, now + g.whiteExp, 1, 0⟩
  | .traphit => ⟨now, 0, now + g.trapExp, 1, -1⟩
  | .spamtrap | .domain => ⟨now, 0, 0, 1, -2⟩

/-- The message for the other hosts, once the update has been committed. -/
def updateSends (type : EntryType) (ip : CStr) (now expire : Int) (delete : Bool) : List SyncSend :=
  match type with
  | .white => [.white ip now expire delete]
  | .traphit => [.trapped ip now expire delete]
  | .spamtrap | .domain => []

/-- `db_update`; `none` is the result 1, where a transaction that was begun is rolled back. -/
def dbUpdate (g : Greylister) (f : DbFaults) (now : Int) (action : DbAction) (type : EntryType)
    (ip : CStr) (b : Bdb) : Option (Bdb × List SyncSend) := do
  let key ← updateKey g.checkAddr type ip
  match action with
  | .del =>
    -- GREYDB_NOT_FOUND and GREYDB_ERR both end here.
    if (b.file key).lookup key = none then none
    else do
      let left ← modDbDel f b key
      pure (left, updateSends type ip now 0 true)
  | .add =>
    match modDbGet f b key with
    | .found gd => do
      let written ← modDbPut f b key (updatedEntry g now type gd)
      pure (written, updateSends type ip now (updatedEntry g now type gd).expire false)
    | .notFound => do
      let written ← modDbPut f b key (createdEntry g now type)
      pure (written, updateSends type ip now (createdEntry g now type).expire false)
    | .err => none

/-! ## greylogd -/

/-- The entry of an address of the log. -/
def loggedEntry (g : Greylister) (now : Int) : Option GreyData → GreyData
  | none => ⟨now, now, now + g.whiteExp, 0, 1⟩
  | some gd => { gd with expire := now + g.whiteExp, pcount := gd.pcount + 1 }

/-- The loop's body for one address of the log; `none` is the way to the shutdown. -/
def logEntry (g : Greylister) (f : DbFaults) (now : Int) (ip : CStr) (b : Bdb) :
    Option (Bdb × List SyncSend) :=
  let put (old : Option GreyData) : Option (Bdb × List SyncSend) := do
    let written ← modDbPut f b (.ip ip) (loggedEntry g now old)
    pure (written, [.white ip now (now + g.whiteExp) false])
  match modDbGet f b (.ip ip) with
  | .notFound => put none
  | .found gd => put (some gd)
  | .err => none

/-! ## The greylister -/

/-- What `process_grey` sends behind its put. -/
def recordSends (g : Greylister) (now : Int) (gt : GreyTuple) (sync spamtrap : Bool) :
    List SyncSend :=
  if sync then
    if spamtrap then [.trapped gt.ip now (now + greyExpire g spamtrap) false]
    else [.update gt now]
  else []

/-- The messages of the transaction of `process_grey`; none go out where it is rolled back. -/
def recordGreySends (g : Greylister) (f : DbFaults) (now : Int) (gt : GreyTuple) (sync : Bool)
    (dstIp : CStr) (spamtrap : Bool) (b : Bdb) : List SyncSend :=
  match modDbGet f b (greyKey spamtrap gt) with
  | .notFound =>
    let spamtrap := spamtrap || triedLowPrio g now sync dstIp
    if (modDbPut f b (greyKey spamtrap gt) (newGrey g now spamtrap)).isSome then
      recordSends g now gt sync spamtrap
    else []
  | .found gd =>
    if (modDbPut f b (greyKey spamtrap gt) (seenGrey g now spamtrap gd)).isSome then
      recordSends g now gt sync spamtrap
    else []
  | .err => []

/-- The messages of `process_grey`: an address whose sender policy is met is not announced. -/
def processGreySends (g : Greylister) (f : DbFaults) (now : Int) (gt : GreyTuple) (sync : Bool)
    (dstIp : CStr) (b : Bdb) : List SyncSend :=
  match trapCheck g f b gt.to_ with
  | .err => []
  | check =>
    let spamtrap := decide (check = .spamtrap)
    let verdict := spfVerdict g gt sync spamtrap
    if verdict = 0 ∧ g.whitelistOnPass then []
    else recordGreySends g f now gt sync dstIp (spamtrap || decide (verdict = 2)) b

/-! ## All of them -/

inductive DbEvent
  | grey (event : GreyEvent)
  | update (action : DbAction) (type : EntryType) (ip : CStr)
  | logged (ip : CStr)

/-- A transaction, the time its program has read off the clock and the operations that fail. -/
structure DbTick where
  now : Int
  faults : DbFaults
  event : DbEvent

/-- The database behind a transaction, and what its program then sends. -/
def dbTick (g : Greylister) (t : DbTick) (b : Bdb) : Bdb × List SyncSend :=
  match t.event with
  | .grey event =>
    (greyStep g ⟨t.now, t.faults, event⟩ b, match event with
      | .grey gt sync dstIp => processGreySends g t.faults t.now gt sync dstIp b
      | _ => [])
  | .update action type ip => (dbUpdate g t.faults t.now action type ip b).getD (b, [])
  | .logged ip => (logEntry g t.faults t.now ip b).getD (b, [])

def dbStep (g : Greylister) (t : DbTick) (b : Bdb) : Bdb := (dbTick g t b).1

def DbTick.Fits (t : DbTick) (b : Bdb) : Prop :=
  match t.event with
  | .grey event => GreyTick.Fits ⟨t.now, t.faults, event⟩ b
  | _ => True

abbrev DbRun (g : Greylister) (b₀ : Bdb) : List DbTick → Bdb → Prop :=
  Run DbTick.Fits (dbStep g) b₀

/-! ### The loops of the programs -/

/-- The loop of greydb over its arguments, each with the time it is handled at and what fails:
the database, what is sent, and the exit status. -/
def greydbUpdates (g : Greylister) (action : DbAction) (type : EntryType) :
    List (Int × DbFaults × CStr) → Bdb → Bdb × List SyncSend × Nat
  | [], b => (b, [], 0)
  | (now, f, ip) :: args, b =>
    if ip = [] then greydbUpdates g action type args b
    else
      let (b', sent, failed) : Bdb × List SyncSend × Nat :=
        match dbUpdate g f now action type ip b with
        | some (b', sent) => (b', sent, 0)
        | none => (b, [], 1)
      let rest := greydbUpdates g action type args b'
      (rest.1, sent ++ rest.2.1, failed + rest.2.2)

/-- The loop of greylogd over the addresses the firewall has captured; the last part of the
result tells whether it goes on. -/
def captureEntries (g : Greylister) (now : Int) :
    List (DbFaults × CStr) → Bdb → Bdb × List SyncSend × Bool
  | [], b => (b, [], true)
  | (f, ip) :: ips, b =>
    match logEntry g f now ip b with
    | some (b', sent) =>
      let rest := captureEntries g now ips b'
      (rest.1, sent ++ rest.2.1, rest.2.2)
    | none => (b, [], false)

theorem dbRun_single (g : Greylister) (t : DbTick) (b : Bdb) (hfits : t.Fits b) :
    DbRun g b [t] (dbStep g t b) := @Run.tick _ _ _ _ _ [] b t .start hfits

/-- Each argument that is not empty is a transaction. -/
theorem greydbUpdates_run (g : Greylister) (action : DbAction) (type : EntryType)
    (args : List (Int × DbFaults × CStr)) (b : Bdb) :
    DbRun g b ((args.filter fun a => decide (a.2.2 ≠ [])).map fun a =>
        ⟨a.1, a.2.1, .update action type a.2.2⟩) (greydbUpdates g action type args b).1 := by
  induction args generalizing b with
  | nil => exact .start
  | cons arg args ih =>
    obtain ⟨now, f, ip⟩ := arg
    by_cases hip : ip = []
    · rw [List.filter_cons_of_neg (by simp [hip]), greydbUpdates, if_pos hip]
      exact ih b
    · rw [List.filter_cons_of_pos (by simp [hip]), greydbUpdates, if_neg hip, List.map_cons]
      have hfirst := dbRun_single g ⟨now, f, .update action type ip⟩ b trivial
      have hstep : dbStep g ⟨now, f, .update action type ip⟩ b =
          ((dbUpdate g f now action type ip b).getD (b, [])).1 := rfl
      rw [hstep] at hfirst
      cases hup : dbUpdate g f now action type ip b with
      | none =>
        rw [hup] at hfirst
        exact hfirst.append (ih b)
      | some out =>
        rw [hup] at hfirst
        exact hfirst.append (ih out.1)

/-- greylogd handles the addresses in their order, up to the first one that fails. -/
theorem captureEntries_run (g : Greylister) (now : Int) (entries : List (DbFaults × CStr)) (b : Bdb) :
    ∃ n, DbRun g b ((entries.take n).map fun a => ⟨now, a.1, .logged a.2⟩)
        (captureEntries g now entries b).1 ∧
      ((captureEntries g now entries b).2.2 = true → n = entries.length) := by
  induction entries generalizing b with
  | nil => exact ⟨0, .start, fun _ => rfl⟩
  | cons entry entries ih =>
    obtain ⟨f, ip⟩ := entry
    unfold captureEntries
    have hfirst := dbRun_single g ⟨now, f, .logged ip⟩ b trivial
    have hstep : dbStep g ⟨now, f, .logged ip⟩ b = ((logEntry g f now ip b).getD (b, [])).1 := rfl
    rw [hstep] at hfirst
    cases hlog : logEntry g f now ip b with
    | none => exact ⟨0, .start, by simp⟩
    | some out =>
      rw [hlog] at hfirst
      obtain ⟨n, hrun, hall⟩ := ih out.1
      refine ⟨n + 1, hfirst.append hrun, fun hgoes => ?_⟩
      rw [List.length_cons, hall hgoes]

end Greyd
