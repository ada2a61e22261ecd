import Greyd.Grey

/-!
# Failing lookups of a grey message (grey.c, sqlite.c, mysql.c, postgresql.c, bdb.c)

A grey message makes up to three lookups: for a permitted domain, for a spamtrap and for the
entry. What the drivers make of a statement that fails differs, and so does what is made of
an error.
-/
namespace Greyd

/-! ## Mod_db_get -/

/-- GREYDB_FOUND, GREYDB_NOT_FOUND, another number such as GREYDB_ERR, or no return at all. -/
inductive DbCode
  | found
  | notFound
  | other
  | exits
  deriving DecidableEq

/-- What DB_get returns, and what is in `*val` then. -/
structure DbReply where
  code : DbCode
  val : GreyData
  deriving DecidableEq

inductive SqliteStep
  | row (gd : GreyData)
  | done
  | error

/-- The calls that a lookup makes, and what is in `res` and `*val` before them. -/
structure SqliteLookup where
  prepareOk : Bool
  bindOk : Bool
  step : SqliteStep
  res : DbCode
  val : GreyData

/-- `res` is not set where a statement cannot be prepared or bound. -/
def SqliteLookup.reply (l : SqliteLookup) : DbReply :=
  if !l.prepareOk || !l.bindOk then ⟨l.res, l.val⟩
  else match l.step with
    | .done => ⟨.notFound, l.val⟩
    | .row gd => ⟨.found, gd⟩
    | .error => ⟨.other, l.val⟩

def SqliteLookup.fails (l : SqliteLookup) : Bool :=
  !l.prepareOk || !l.bindOk || match l.step with
    | .error => true
    | _ => false

/-- The calls of the client libraries of MySQL and PostgreSQL, and the result's size. -/
structure ClientLookup where
  built : Bool
  queryOk : Bool
  stored : Bool
  fields : Nat
  rows : Nat
  row : GreyData
  val : GreyData

/-- Anything but one row of five fields is GREYDB_NOT_FOUND. -/
def rowReply (l : ClientLookup) : DbReply :=
  if l.fields = 5 ∧ l.rows = 1 then ⟨.found, l.row⟩ else ⟨.notFound, l.val⟩

def Postgresql.reply (l : ClientLookup) : DbReply :=
  if !l.built then ⟨.notFound, l.val⟩
  else if !l.queryOk then ⟨.notFound, l.val⟩
  else rowReply l

def Mysql.reply (l : ClientLookup) : DbReply :=
  if !l.built then ⟨.notFound, l.val⟩
  else if !l.queryOk then ⟨.notFound, l.val⟩
  else if l.stored then rowReply l
  else ⟨.notFound, l.val⟩

/-- `i_error` ends the process. -/
def Bdb.reply (val : GreyData) : DbGet → DbReply
  | .found gd => ⟨.found, gd⟩
  | .notFound => ⟨.notFound, val⟩
  | .err => ⟨.exits, val⟩

/-- A lookup in one of the databases. -/
inductive DriverLookup
  | sqlite (l : SqliteLookup)
  | mysql (l : ClientLookup)
  | postgresql (l : ClientLookup)
  | bdb (val : GreyData) (result : DbGet)

def DriverLookup.reply : DriverLookup → DbReply
  | sqlite l => l.reply
  | mysql l => Mysql.reply l
  | postgresql l => Postgresql.reply l
  | bdb val result => Bdb.reply val result

/-- The database reports an error to the driver. -/
def DriverLookup.fails : DriverLookup → Bool
  | sqlite l => l.fails
  | mysql l => !l.built || !l.queryOk || !l.stored
  | postgresql l => !l.built || !l.queryOk
  | bdb _ result => match result with
    | .err => true
    | _ => false

/-- What the drivers make of an error. -/
theorem DriverLookup.code_of_fails (d : DriverLookup) (h : d.fails = true) :
    d.reply.code = match d with
      | .sqlite l => if !l.prepareOk || !l.bindOk then l.res else .other
      | .mysql _ => .notFound
      | .postgresql _ => .notFound
      | .bdb _ _ => .exits := by
  cases d with
  | sqlite l =>
    obtain ⟨prepareOk, bindOk, step, res, val⟩ := l
    cases prepareOk <;> cases bindOk <;> cases step <;> first | rfl | exact nomatch h
  | mysql l =>
    obtain ⟨built, queryOk, stored, fields, rows, row, val⟩ := l
    cases built <;> cases queryOk <;> cases stored <;> first | rfl | exact nomatch h
  | postgresql l =>
    obtain ⟨built, queryOk, stored, fields, rows, row, val⟩ := l
    cases built <;> cases queryOk <;> first | rfl | exact nomatch h
  | bdb val result => cases result <;> first | rfl | exact nomatch h

/-! ## process_grey over the replies -/

inductive GreyLookup
  | domPart (s : CStr)
  | mail (s : CStr)
  | entry (key : DbKey)
  deriving DecidableEq

section process
variable (g : Greylister) (reply : GreyLookup → DbReply)

/-- The domain is looked up where no line of the permitted_domains file has it. -/
def asksDomain (to_ : CStr) : Bool := !permittedDomain g to_ && g.dbPermittedDomains

/-- `trap_check` with the lookups it makes; `none` where the process ends. An error in the
lookup for a domain is no match. -/
def trapCheckDb (to_ : CStr) : List GreyLookup × Option TrapCheck :=
  let asked := if asksDomain g to_ then [GreyLookup.domPart to_] else []
  let code := if asksDomain g to_ then (reply (.domPart to_)).code else .notFound
  if code = .exits then (asked, none)
  else
    let matched := permittedDomain g to_ || decide (code = .found)
    let checkDomains := decide (g.domains ≠ []) || asksDomain g to_
    if checkDomains && !matched then (asked, some .spamtrap)
    else (asked ++ [.mail to_], match (reply (.mail to_)).code with
      | .found => some .spamtrap
      | .notFound => some .noTrap
      | .other => some .err
      | .exits => none)

/-- DB_put, which succeeds or not. -/
def putGrey (putOk : Bool) (key : DbKey) (gd : GreyData) : Option (DbKey × GreyData) :=
  if putOk then some (key, gd) else none

/-- The transaction of `process_grey`: the entry it writes, none where it is rolled back. -/
def recordGreyDb (putOk : Bool) (now : Int) (gt : GreyTuple) (sync : Bool) (dstIp : CStr)
    (spamtrap : Bool) : Option (DbKey × GreyData) :=
  let key := greyKey spamtrap gt
  match (reply (.entry key)).code with
  | .notFound =>
    let spamtrap := spamtrap || triedLowPrio g now sync dstIp
    putGrey putOk (greyKey spamtrap gt) (newGrey g now spamtrap)
  | .found => putGrey putOk key (seenGrey g now spamtrap (reply (.entry key)).val)
  | .other => none
  | .exits => none

/-- `process_grey`: the lookups it makes and the entry it writes. -/
def processGreyDb (putOk : Bool) (now : Int) (gt : GreyTuple) (sync : Bool) (dstIp : CStr) :
    List GreyLookup × Option (DbKey × GreyData) :=
  match trapCheckDb g reply gt.to_ with
  | (made, none) => (made, none)
  | (made, some .err) => (made, none)
  | (made, some check) =>
    let spamtrap := decide (check = .spamtrap)
    let verdict := spfVerdict g gt sync spamtrap
    if verdict = 0 ∧ g.whitelistOnPass then (made, putGrey putOk (.ip gt.ip) (spfPassed g now))
    else
      let spamtrap := spamtrap || decide (verdict = 2)
      (made ++ [.entry (greyKey spamtrap gt)], recordGreyDb g reply putOk now gt sync dstIp spamtrap)

end process

/-! ## The Berkeley DB -/

/-- The lookups of a message in a Berkeley DB. -/
def bdbLookups (f : DbFaults) (b : Bdb) : GreyLookup → DriverLookup
  | .domPart s => .bdb ⟨0, 0, 0, 0, 0⟩ (if checkPartialDom b s then .found ⟨0, 0, 0, 0, 0⟩ else .notFound)
  | .mail s => .bdb ⟨0, 0, 0, 0, 0⟩ (modDbGet f b (.mail s))
  | .entry key => .bdb ⟨0, 0, 0, 0, 0⟩ (modDbGet f b key)

section bdb
variable (g : Greylister) (f : DbFaults) (b : Bdb)

theorem code_domPart (s : CStr) : (bdbLookups f b (.domPart s)).reply.code =
    if checkPartialDom b s then .found else .notFound := by
  simp only [bdbLookups, DriverLookup.reply]
  split <;> rfl

theorem code_mail (s : CStr) : (bdbLookups f b (.mail s)).reply.code =
    match modDbGet f b (.mail s) with
    | .found _ => .found
    | .notFound => .notFound
    | .err => .exits := by
  simp only [bdbLookups, DriverLookup.reply]
  cases modDbGet f b (.mail s) <;> rfl

theorem trapCheckDb_bdb (to_ : CStr) :
    (trapCheckDb g (fun l => (bdbLookups f b l).reply) to_).2 =
      match trapCheck g f b to_ with
      | .err => none
      | check => some check := by
  have hcode := code_domPart f b to_
  unfold trapCheckDb trapCheck
  dsimp only
  rw [hcode]
  unfold asksDomain
  rw [code_mail]
  cases modDbGet f b (.mail to_) <;> cases hline : permittedDomain g to_ <;>
    cases hdb : g.dbPermittedDomains <;> cases hpart : checkPartialDom b to_ <;>
      cases hlist : decide (g.domains ≠ []) <;> rfl

theorem recordGrey_eq (now : Int) (gt : GreyTuple) (sync : Bool) (dstIp : CStr) (spamtrap : Bool) :
    recordGrey g f now gt sync dstIp spamtrap b =
      match recordGreyDb g (fun l => (bdbLookups f b l).reply) true now gt sync dstIp spamtrap with
      | none => b
      | some (key, gd) => (modDbPut f b key gd).getD b := by
  unfold recordGrey recordGreyDb putGrey
  simp only [bdbLookups, DriverLookup.reply]
  cases modDbGet f b (greyKey spamtrap gt) <;> rfl

/-- Over a Berkeley DB this is `processGrey`. -/
theorem processGrey_eq (now : Int) (gt : GreyTuple) (sync : Bool) (dstIp : CStr) :
    processGrey g f now gt sync dstIp b =
      match (processGreyDb g (fun l => (bdbLookups f b l).reply) true now gt sync dstIp).2 with
      | none => b
      | some (key, gd) => (modDbPut f b key gd).getD b := by
  have htrap := trapCheckDb_bdb g f b gt.to_
  unfold processGrey processGreyDb
  dsimp only
  rcases hcheck : trapCheckDb g (fun l => (bdbLookups f b l).reply) gt.to_ with ⟨made, check⟩
  rw [hcheck] at htrap
  dsimp only at htrap
  rw [htrap]
  cases trapCheck g f b gt.to_ with
  | err => rfl
  | spamtrap =>
    dsimp only
    split
    · rfl
    · exact recordGrey_eq g f b now gt sync dstIp _
  | noTrap =>
    dsimp only
    split
    · rfl
    · exact recordGrey_eq g f b now gt sync dstIp _

end bdb

/-! ## What stops a message -/

section stops
variable {g : Greylister} {reply : GreyLookup → DbReply} {putOk : Bool} {now : Int} {gt : GreyTuple}
  {sync : Bool} {dstIp : CStr}

/-- The lookup returns what `process_grey` does not go on from. -/
def GreyLookup.Stops (reply : GreyLookup → DbReply) (l : GreyLookup) : Prop :=
  match l with
  | .domPart _ => (reply l).code = .exits
  | _ => (reply l).code = .other ∨ (reply l).code = .exits

/-- `trap_check` comes to a decision unless a lookup stops it. -/
theorem trapCheckDb_stops (to_ : CStr) :
    (∃ l ∈ (trapCheckDb g reply to_).1, l.Stops reply) ↔
      (trapCheckDb g reply to_).2 = none ∨ (trapCheckDb g reply to_).2 = some .err := by
  have hdom : ∀ s, GreyLookup.Stops reply (.domPart s) ↔ (reply (.domPart s)).code = .exits :=
    fun _ => Iff.rfl
  have hmail : ∀ s, GreyLookup.Stops reply (.mail s) ↔
      (reply (.mail s)).code = .other ∨ (reply (.mail s)).code = .exits := fun _ => Iff.rfl
  unfold trapCheckDb
  cases hasks : asksDomain g to_ with
  | false =>
    simp only [Bool.false_eq_true, ↓reduceIte, reduceCtorEq]
    split
    · simp
    · simp only [List.nil_append, List.mem_singleton, exists_eq_left, hmail]
      cases (reply (.mail to_)).code <;> simp
  | true =>
    simp only [↓reduceIte]
    by_cases hexits : (reply (.domPart to_)).code = .exits
    · simp [hexits, hdom]
    · rw [if_neg hexits]
      split
      · simp [hdom, hexits]
      · simp only [List.cons_append, List.nil_append, List.mem_cons, List.not_mem_nil, or_false,
          exists_eq_or_imp, exists_eq_left, hdom, hmail, hexits, false_or]
        cases (reply (.mail to_)).code <;> simp

theorem putGrey_eq_none {key : DbKey} {gd : GreyData} : putGrey putOk key gd = none ↔ putOk = false := by
  cases putOk <;> simp [putGrey]

theorem recordGreyDb_written (spamtrap : Bool) :
    recordGreyDb g reply putOk now gt sync dstIp spamtrap = none ↔
      putOk = false ∨ GreyLookup.Stops reply (.entry (greyKey spamtrap gt)) := by
  have hentry : ∀ key, GreyLookup.Stops reply (.entry key) ↔
      (reply (.entry key)).code = .other ∨ (reply (.entry key)).code = .exits := fun _ => Iff.rfl
  rw [hentry, recordGreyDb]
  dsimp only
  cases (reply (.entry (greyKey spamtrap gt))).code <;> simp [putGrey_eq_none]

/-- An entry is written unless DB_put fails or a lookup stops the message. -/
theorem processGreyDb_written :
    (processGreyDb g reply putOk now gt sync dstIp).2 = none ↔
      putOk = false ∨ ∃ l ∈ (processGreyDb g reply putOk now gt sync dstIp).1, l.Stops reply := by
  have htrap := @trapCheckDb_stops g reply gt.to_
  -- a decision has been made: an entry is looked up and written, or the address is whitelisted
  have hdecided : ∀ made spamtrap, (¬ ∃ l ∈ made, GreyLookup.Stops reply l) →
      let verdict := spfVerdict g gt sync spamtrap
      let run := if verdict = 0 ∧ g.whitelistOnPass then
          (made, putGrey putOk (.ip gt.ip) (spfPassed g now))
        else (made ++ [GreyLookup.entry (greyKey (spamtrap || decide (verdict = 2)) gt)],
          recordGreyDb g reply putOk now gt sync dstIp (spamtrap || decide (verdict = 2)))
      run.2 = none ↔ putOk = false ∨ ∃ l ∈ run.1, GreyLookup.Stops reply l := by
    intro made spamtrap hmade verdict run
    by_cases hpass : verdict = 0 ∧ g.whitelistOnPass
    · have hrun : run = (made, putGrey putOk (.ip gt.ip) (spfPassed g now)) := if_pos hpass
      rw [hrun, putGrey_eq_none]
      exact (or_iff_left hmade).symm
    · have hrun : run = (made ++ [GreyLookup.entry (greyKey (spamtrap || decide (verdict = 2)) gt)],
          recordGreyDb g reply putOk now gt sync dstIp (spamtrap || decide (verdict = 2))) :=
        if_neg hpass
      have hmore : (∃ l ∈ made ++ [GreyLookup.entry (greyKey (spamtrap || decide (verdict = 2)) gt)],
          GreyLookup.Stops reply l) ↔
            GreyLookup.Stops reply (.entry (greyKey (spamtrap || decide (verdict = 2)) gt)) := by
        simp only [List.mem_append, List.mem_singleton, or_and_right, exists_or, exists_eq_left]
        exact or_iff_right hmade
      rw [hrun, hmore]
      exact recordGreyDb_written _
  unfold processGreyDb
  rcases hcheck : trapCheckDb g reply gt.to_ with ⟨made, check⟩
  rw [hcheck] at htrap
  rcases check with _ | check
  · simp only [true_or, iff_true] at htrap
    simp [htrap]
  · cases check with
    | err =>
      simp only [or_true, iff_true] at htrap
      simp [htrap]
    | spamtrap => exact hdecided made true fun h => by simpa using htrap.mp h
    | noTrap => exact hdecided made false fun h => by simpa using htrap.mp h

end stops

/-! ## The lookups of a message -/

section asked
variable (g : Greylister) (reply : GreyLookup → DbReply) (gt : GreyTuple) (sync : Bool)

/-- A spamtrap is looked up for a recipient that no list of domains has kept out. -/
def asksMail : Bool :=
  if asksDomain g gt.to_ then decide ((reply (.domPart gt.to_)).code = .found)
  else permittedDomain g gt.to_ || decide (g.domains = [])

/-- The recipient is kept out or is a spamtrap. -/
def isTrap : Bool := !asksMail g reply gt || decide ((reply (.mail gt.to_)).code = .found)

/-- What is looked up for a message. An entry is not where SPF whitelists the address. -/
def GreyLookup.Asked : GreyLookup → Prop
  | .domPart s => asksDomain g gt.to_ = true ∧ s = gt.to_
  | .mail s => asksMail g reply gt = true ∧ s = gt.to_
  | .entry key =>
    let spamtrap := isTrap g reply gt
    let verdict := spfVerdict g gt sync spamtrap
    ¬ (verdict = 0 ∧ g.whitelistOnPass) ∧ key = greyKey (spamtrap || decide (verdict = 2)) gt

theorem trapCheckDb_made : (trapCheckDb g reply gt.to_).1 =
    (if asksDomain g gt.to_ then [GreyLookup.domPart gt.to_] else []) ++
      if asksMail g reply gt then [GreyLookup.mail gt.to_] else [] := by
  have hline : asksDomain g gt.to_ = true → permittedDomain g gt.to_ = false := by
    simp only [asksDomain, Bool.and_eq_true, Bool.not_eq_true']
    exact And.left
  unfold trapCheckDb asksMail
  cases hasks : asksDomain g gt.to_ with
  | false =>
    cases permittedDomain g gt.to_ <;> by_cases hnone : g.domains = [] <;> simp [hnone]
  | true =>
    rw [hline hasks]
    cases (reply (.domPart gt.to_)).code <;> simp

/-- Where no lookup stops it, `trap_check` finds the traps. -/
theorem trapCheckDb_decides (hgo : ¬ ∃ l ∈ (trapCheckDb g reply gt.to_).1, l.Stops reply) :
    (trapCheckDb g reply gt.to_).2 = some (if isTrap g reply gt then .spamtrap else .noTrap) := by
  have hline : asksDomain g gt.to_ = true → permittedDomain g gt.to_ = false := by
    simp only [asksDomain, Bool.and_eq_true, Bool.not_eq_true']
    exact And.left
  rw [trapCheckDb_stops] at hgo
  revert hgo
  unfold trapCheckDb isTrap asksMail
  cases hasks : asksDomain g gt.to_ with
  | false =>
    cases permittedDomain g gt.to_ <;> by_cases hnone : g.domains = [] <;>
      cases (reply (.mail gt.to_)).code <;> simp [hnone]
  | true =>
    rw [hline hasks]
    cases (reply (.domPart gt.to_)).code <;> cases (reply (.mail gt.to_)).code <;> simp

variable (putOk : Bool) (now : Int) (dstIp : CStr)

theorem processGreyDb_made_of_go
    (hgo : ¬ ∃ l ∈ (trapCheckDb g reply gt.to_).1, l.Stops reply) :
    (processGreyDb g reply putOk now gt sync dstIp).1 =
      let spamtrap := isTrap g reply gt
      let verdict := spfVerdict g gt sync spamtrap
      (trapCheckDb g reply gt.to_).1 ++ if verdict = 0 ∧ g.whitelistOnPass then []
        else [.entry (greyKey (spamtrap || decide (verdict = 2)) gt)] := by
  have hcheck := trapCheckDb_decides g reply gt hgo
  unfold processGreyDb
  rcases htrap : trapCheckDb g reply gt.to_ with ⟨made, check⟩
  rw [htrap] at hcheck
  dsimp only at hcheck ⊢
  subst hcheck
  cases isTrap g reply gt <;> simp only [Bool.false_eq_true, ↓reduceIte] <;> split <;> simp_all

theorem processGreyDb_made_of_stop
    (hstop : ∃ l ∈ (trapCheckDb g reply gt.to_).1, l.Stops reply) :
    (processGreyDb g reply putOk now gt sync dstIp).1 = (trapCheckDb g reply gt.to_).1 := by
  rw [trapCheckDb_stops] at hstop
  unfold processGreyDb
  rcases htrap : trapCheckDb g reply gt.to_ with ⟨made, check⟩
  rw [htrap] at hstop
  rcases hstop with rfl | rfl <;> rfl

end asked

/-- What is asked is looked up, or a lookup has stopped the message. -/
theorem asked_iff_made (g : Greylister) (reply : GreyLookup → DbReply) (putOk : Bool) (now : Int)
    (gt : GreyTuple) (sync : Bool) (dstIp : CStr) :
    let made := (processGreyDb g reply putOk now gt sync dstIp).1
    (∀ l ∈ made, l.Asked g reply gt sync) ∧
      ∀ l, l.Asked g reply gt sync → l ∈ made ∨ ∃ l' ∈ made, l'.Stops reply := by
  intro made
  have htrap : ∀ l, l ∈ (trapCheckDb g reply gt.to_).1 ↔
      (asksDomain g gt.to_ = true ∧ l = .domPart gt.to_) ∨
        (asksMail g reply gt = true ∧ l = .mail gt.to_) := by
    intro l
    rw [trapCheckDb_made]
    cases asksDomain g gt.to_ <;> cases asksMail g reply gt <;> simp
  have hasked : ∀ l ∈ (trapCheckDb g reply gt.to_).1, l.Asked g reply gt sync := by
    intro l hl
    rcases (htrap l).mp hl with ⟨hasks, rfl⟩ | ⟨hasks, rfl⟩
    · exact ⟨hasks, rfl⟩
    · exact ⟨hasks, rfl⟩
  by_cases hstop : ∃ l ∈ (trapCheckDb g reply gt.to_).1, l.Stops reply
  · have hmade : made = (trapCheckDb g reply gt.to_).1 :=
      processGreyDb_made_of_stop g reply gt sync putOk now dstIp hstop
    rw [hmade]
    exact ⟨hasked, fun _ _ => .inr hstop⟩
  · have hmade := processGreyDb_made_of_go g reply gt sync putOk now dstIp hstop
    change made = _ at hmade
    rw [hmade]
    dsimp only
    refine ⟨fun l hl => ?_, fun l hl => .inl ?_⟩
    · rcases List.mem_append.mp hl with hl | hl
      · exact hasked l hl
      · split at hl
        · cases hl
        · next hpass => exact List.mem_singleton.mp hl ▸ ⟨hpass, rfl⟩
    · cases l with
      | domPart s => exact List.mem_append_left _ ((htrap _).mpr (.inl ⟨hl.1, by rw [hl.2]⟩))
      | mail s => exact List.mem_append_left _ ((htrap _).mpr (.inr ⟨hl.1, by rw [hl.2]⟩))
      | entry key =>
        refine List.mem_append_right _ ?_
        rw [if_neg hl.1]
        exact List.mem_singleton.mpr (by rw [hl.2])

/-- No entry is written for a message of which a lookup fails exactly when DB_put fails, none
of what is looked up fails, or one of the lookups returns what the message stops at. -/
theorem no_decision_iff (g : Greylister) (lookups : GreyLookup → DriverLookup) (putOk : Bool)
    (now : Int) (gt : GreyTuple) (sync : Bool) (dstIp : CStr) :
    let reply := fun l => (lookups l).reply
    let run := processGreyDb g reply putOk now gt sync dstIp
    ((∃ l ∈ run.1, (lookups l).fails = true) → run.2 = none) ↔
      putOk = false ∨ (∀ l, l.Asked g reply gt sync → (lookups l).fails = false) ∨
        ∃ l : GreyLookup, l.Asked g reply gt sync ∧ l.Stops reply := by
  intro reply run
  obtain ⟨hasked, hmade⟩ := asked_iff_made g reply putOk now gt sync dstIp
  have hstops : (∃ l ∈ run.1, l.Stops reply) ↔ ∃ l : GreyLookup, l.Asked g reply gt sync ∧ l.Stops reply := by
    constructor
    · intro hgiven
      obtain ⟨l, hl, hstop⟩ := hgiven
      exact ⟨l, hasked l hl, hstop⟩
    · intro hgiven
      obtain ⟨l, hl, hstop⟩ := hgiven
      exact (hmade l hl).elim (fun h => ⟨l, h, hstop⟩) id
  have hwritten : run.2 = none ↔ putOk = false ∨ ∃ l ∈ run.1, l.Stops reply := processGreyDb_written
  rw [hwritten]
  constructor
  · intro h
    by_cases hfails : ∃ l ∈ run.1, (lookups l).fails = true
    · exact (h hfails).imp_right fun hstop => .inr (hstops.mp hstop)
    · push Not at hfails
      by_cases hstop : ∃ l ∈ run.1, l.Stops reply
      · exact .inr (.inr (hstops.mp hstop))
      · refine .inr (.inl fun l hl => Bool.eq_false_iff.mpr (hfails l ?_))
        exact (hmade l hl).resolve_right hstop
  · rintro (hput | hnone | hstop) ⟨l, hl, hfails⟩
    · exact .inl hput
    · rw [hnone l (hasked l hl)] at hfails
      cases hfails
    · exact .inr (hstops.mpr hstop)

/-- The permitted domains are in the database alone. -/
def domainGreylister : Greylister where
  lowPrioMx := none
  startup := 0
  greyExp := 60 * 60 * 4
  trapExp := 60 * 60 * 24
  whiteExp := 60 * 60 * 24 * 36
  passTime := 60 * 25
  domains := []
  dbPermittedDomains := true
  whitelistOnPass := false
  spfLookup := none
  checkAddr := fun _ => some afInet

/-- SQLite cannot step the statement for the domain; nothing is stored under other keys. -/
def failingDomain : GreyLookup → DriverLookup
  | .domPart _ => .sqlite ⟨true, true, .error, .other, ⟨0, 0, 0, 0, 0⟩⟩
  | _ => .sqlite ⟨true, true, .done, .other, ⟨0, 0, 0, 0, 0⟩⟩

/-- The sender is trapped. -/
theorem failed_domain_traps :
    let gt : GreyTuple := ⟨"10.0.0.1".toList, "mx".toList, "a@b".toList, "c@d".toList⟩
    let run := processGreyDb domainGreylister (fun l => (failingDomain l).reply) true 1000 gt true []
    (∃ l ∈ run.1, (failingDomain l).fails = true) ∧
      run.2 = some (.ip "10.0.0.1".toList, ⟨1000, 87400, 87400, 1, -1⟩) := by
  refine ⟨⟨.domPart "c@d".toList, by decide, rfl⟩, by decide⟩

end Greyd
