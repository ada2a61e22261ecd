import Greyd.DbWriters
import Greyd.ScanDrivers

/-!
# The database behind its handle (greydb.h, greydb.c)

`struct DB_handle` is a table of the functions of a driver, and the programs know the database
by them alone. Two drivers whose functions keep a relation between their databases therefore
keep it under whatever the programs do.
-/
namespace Greyd

/-- The functions `DB_init` looks up in a driver, where no call of its library fails. -/
structure DbDriver (σ : Type) where
  put : DbKey → GreyData → σ → σ
  /-- GREYDB_FOUND with the value, or GREYDB_NOT_FOUND. -/
  get : DbKey → σ → Option GreyData
  /-- `get` with a key of type DB_KEY_DOM_PART: is it GREYDB_FOUND? -/
  getDomPart : CStr → σ → Bool
  /-- GREYDB_OK with what is left, or GREYDB_NOT_FOUND. -/
  del : DbKey → σ → Option σ
  scan : Int → Int → σ → ScanLists × σ

/-! ## The programs -/

namespace DbDriver

variable {σ : Type} (drv : DbDriver σ) (g : Greylister)

/-- Is the recipient a spamtrap? -/
def trapCheck (to_ : CStr) (s : σ) : Bool :=
  let permitted := permittedDomain g to_ || (g.dbPermittedDomains && drv.getDomPart to_ s)
  let checkDomains := decide (g.domains ≠ []) ||
    (!permittedDomain g to_ && g.dbPermittedDomains)
  if checkDomains && !permitted then true
  else (drv.get (.mail to_) s).isSome

def recordGrey (now : Int) (gt : GreyTuple) (sync : Bool) (dstIp : CStr) (spamtrap : Bool) (s : σ) : σ :=
  match drv.get (greyKey spamtrap gt) s with
  | none =>
    let spamtrap := spamtrap || triedLowPrio g now sync dstIp
    drv.put (greyKey spamtrap gt) (newGrey g now spamtrap) s
  | some gd => drv.put (greyKey spamtrap gt) (seenGrey g now spamtrap gd) s

def processGrey (now : Int) (gt : GreyTuple) (sync : Bool) (dstIp : CStr) (s : σ) : σ :=
  let spamtrap := drv.trapCheck g gt.to_ s
  let verdict := spfVerdict g gt sync spamtrap
  if verdict = 0 ∧ g.whitelistOnPass then drv.put (.ip gt.ip) (spfPassed g now) s
  else drv.recordGrey g now gt sync dstIp (spamtrap || decide (verdict = 2)) s

def processNonGrey (now : Int) (spamtrap : Bool) (ip expires : CStr) (delete : Bool) (s : σ) : σ :=
  match parseExpires expires, delete with
  | none, false => s
  | expire, _ =>
    match drv.get (.ip ip) s with
    | none => if delete then s else drv.put (.ip ip) (newNonGrey spamtrap now (expire.getD 0)) s
    | some gd =>
      if delete then (drv.del (.ip ip) s).getD s
      else drv.put (.ip ip) (seenNonGrey spamtrap gd) s

/-- `db_update` of greydb. -/
def dbUpdate (now : Int) (action : DbAction) (type : EntryType) (ip : CStr) (s : σ) : σ :=
  match updateKey g.checkAddr type ip, action with
  | none, _ => s
  | some key, .del => (drv.del key s).getD s
  | some key, .add =>
    match drv.get key s with
    | some gd => drv.put key (updatedEntry g now type gd) s
    | none => drv.put key (createdEntry g now type) s

/-- An address of the log, in greylogd. -/
def logEntry (now : Int) (ip : CStr) (s : σ) : σ :=
  drv.put (.ip ip) (loggedEntry g now (drv.get (.ip ip) s)) s

/-- A transaction of one of the programs. -/
def step (now : Int) (event : DbEvent) (s : σ) : σ :=
  match event with
  | .grey (.grey gt sync dstIp) => drv.processGrey g now gt sync dstIp s
  | .grey (.nonGrey spamtrap ip expires delete) => drv.processNonGrey now spamtrap ip expires delete s
  | .grey (.scan _) => (drv.scan now g.whiteExp s).2
  | .update action type ip => drv.dbUpdate g now action type ip s
  | .logged ip => drv.logEntry g now ip s

end DbDriver

/-! ## The Berkeley DB driver -/

/-- The functions of bdb.c; a scan comes across the records in the order given. -/
def bdbDriver (checkAddr : CStr → Option SaFamily) (order : List DbKey) : DbDriver Bdb where
  put key val b := (modDbPut .none b key val).getD b
  get key b := (b.file key).lookup key
  getDomPart part b := checkPartialDom b part
  del key b := if (b.file key).lookup key = none then none else modDbDel .none b key
  scan now whiteExp b :=
    match modScanDb checkAddr .none now whiteExp b order with
    | some st => (⟨st.whitelist, st.whitelistIpv6, st.traplist⟩, st.db)
    | none => (⟨[], [], []⟩, b)

/-- The order of the cursor in a scan. -/
def DbEvent.cursor : DbEvent → List DbKey
  | .grey (.scan order) => order
  | _ => []

section Bdb

variable {g : Greylister} {now : Int} {event : DbEvent} {b : Bdb} {key : DbKey} {order : List DbKey}

theorem modDbGet_file (b : Bdb) (key : DbKey) : modDbGet .none b key =
    match (b.file key).lookup key with
    | some val => .found val
    | none => .notFound := rfl

theorem bdb_trapCheck (to_ : CStr) : trapCheck g .none b to_ =
    if (bdbDriver g.checkAddr order).trapCheck g to_ b then .spamtrap else .noTrap := by
  unfold trapCheck DbDriver.trapCheck
  rw [modDbGet_file]
  dsimp only [bdbDriver]
  split
  · rfl
  · cases (b.file (.mail to_)).lookup (.mail to_) <;> rfl

theorem bdb_processGrey (gt : GreyTuple) (sync : Bool) (dstIp : CStr) :
    (bdbDriver g.checkAddr order).processGrey g now gt sync dstIp b =
      processGrey g .none now gt sync dstIp b := by
  have hrecord : ∀ spamtrap, (bdbDriver g.checkAddr order).recordGrey g now gt sync dstIp spamtrap b =
      recordGrey g .none now gt sync dstIp spamtrap b := by
    intro spamtrap
    unfold DbDriver.recordGrey recordGrey
    rw [modDbGet_file]
    dsimp only [bdbDriver]
    cases (b.file (greyKey spamtrap gt)).lookup (greyKey spamtrap gt) <;> rfl
  unfold DbDriver.processGrey processGrey
  rw [@bdb_trapCheck g b order]
  cases (bdbDriver g.checkAddr order).trapCheck g gt.to_ b with
  | true =>
    dsimp only [if_true]
    rw [hrecord]
    rfl
  | false =>
    dsimp only [if_false]
    rw [hrecord]
    rfl

theorem bdb_processNonGrey (spamtrap : Bool) (ip expires : CStr) (delete : Bool) :
    (bdbDriver g.checkAddr order).processNonGrey now spamtrap ip expires delete b =
      processNonGrey .none now spamtrap ip expires delete b := by
  unfold DbDriver.processNonGrey processNonGrey
  rw [modDbGet_file]
  dsimp only [bdbDriver]
  cases hold : (b.file (.ip ip)).lookup (.ip ip) with
  | none => cases parseExpires expires <;> cases delete <;> rfl
  | some gd => cases parseExpires expires <;> cases delete <;> rfl

theorem bdb_dbUpdate (action : DbAction) (type : EntryType) (ip : CStr) :
    (bdbDriver g.checkAddr order).dbUpdate g now action type ip b =
      ((dbUpdate g .none now action type ip b).getD (b, [])).1 := by
  unfold DbDriver.dbUpdate dbUpdate
  cases updateKey g.checkAddr type ip with
  | none => rfl
  | some key =>
    cases action with
    | del =>
      dsimp only [bdbDriver, Option.bind_eq_bind, Option.bind_some]
      split <;> rfl
    | add =>
      dsimp only [bdbDriver, Option.bind_eq_bind, Option.bind_some]
      rw [modDbGet_file]
      cases (b.file key).lookup key <;> rfl

theorem bdb_logEntry (ip : CStr) : (bdbDriver g.checkAddr order).logEntry g now ip b =
    ((logEntry g .none now ip b).getD (b, [])).1 := by
  unfold DbDriver.logEntry logEntry
  rw [modDbGet_file]
  dsimp only [bdbDriver]
  cases (b.file (.ip ip)).lookup (.ip ip) <;> rfl

/-- Through the handle the Berkeley DB sees the transactions of the programs. -/
theorem bdb_step : (bdbDriver g.checkAddr event.cursor).step g now event b =
    dbStep g ⟨now, .none, event⟩ b := by
  cases event with
  | grey event =>
    cases event with
    | grey gt sync dstIp => exact bdb_processGrey gt sync dstIp
    | nonGrey spamtrap ip expires delete => exact bdb_processNonGrey spamtrap ip expires delete
    | scan order =>
      show ((bdbDriver g.checkAddr order).scan now g.whiteExp b).2 = greyScanDb g .none now order b
      unfold greyScanDb
      dsimp only [bdbDriver]
      cases modScanDb g.checkAddr .none now g.whiteExp b order <;> rfl
  | update action type ip => exact bdb_dbUpdate action type ip
  | logged ip => exact bdb_logEntry ip

end Bdb

/-! ## Related drivers -/

/-- The replies to a lookup mean the same: the value of an entry counts, of a spamtrap or a
domain only whether it is there. -/
def SameReply : DbKey → Option GreyData → Option GreyData → Prop
  | .mail _, val, val' => val.isSome = val'.isSome
  | .dom _, val, val' => val.isSome = val'.isSome
  | _, val, val' => val = val'

/-- The functions of the drivers keep the relation under the keys that are safe. A scan is
not among them. -/
structure DbDriver.Related {σ τ : Type} (safe : DbKey → Prop) (R : σ → τ → Prop) (drv : DbDriver σ)
    (drv' : DbDriver τ) : Prop where
  get : ∀ {s t key}, R s t → safe key → SameReply key (drv.get key s) (drv'.get key t)
  getDomPart : ∀ {s t part}, R s t → drv.getDomPart part s = drv'.getDomPart part t
  put : ∀ {s t key val val'}, R s t → safe key → SameReply key (some val) (some val') →
    R (drv.put key val s) (drv'.put key val' t)
  del : ∀ {s t key}, R s t → safe key → R ((drv.del key s).getD s) ((drv'.del key t).getD t)

/-- The keys that a transaction looks up and writes are safe. -/
def DbEvent.Safe (g : Greylister) (safe : DbKey → Prop) : DbEvent → Prop
  | .grey (.grey gt _ _) => safe (.tuple gt)
  | .update _ type ip => ∀ key, updateKey g.checkAddr type ip = some key → safe key
  | _ => True

section Related

variable {σ τ : Type} {safe : DbKey → Prop} {R : σ → τ → Prop} {drv : DbDriver σ} {drv' : DbDriver τ}
  {g : Greylister} {now : Int} {s : σ} {t : τ} {key : DbKey} {val val' : Option GreyData}

theorem SameReply.isSome (h : SameReply key val val') : val.isSome = val'.isSome := by
  cases key with
  | mail _ | dom _ => exact h
  | ip _ | tuple _ => exact congrArg Option.isSome h

theorem sameReply_refl (key : DbKey) (val : Option GreyData) : SameReply key val val := by
  cases key <;> rfl

/-- A value written over one that was found means what the found one does. -/
theorem SameReply.map {gd gd' : GreyData} (h : SameReply key (some gd) (some gd'))
    (f : GreyData → GreyData) : SameReply key (some (f gd)) (some (f gd')) := by
  cases key with
  | mail _ | dom _ => rfl
  | ip _ | tuple _ =>
    cases h
    rfl

namespace DbDriver.Related

/-- A value is looked up and another one is written over it, or there is none. -/
theorem lookup (h : Related safe R drv drv') (hst : R s t) (hkey : safe key) :
    drv.get key s = none ∧ drv'.get key t = none ∨
      ∃ gd gd', drv.get key s = some gd ∧ drv'.get key t = some gd' ∧
        SameReply key (some gd) (some gd') := by
  have hsame := h.get hst hkey
  cases hget : drv.get key s with
  | none =>
    rw [hget] at hsame
    have hnone := hsame.isSome.symm
    rw [Option.isSome_none, Option.isSome_eq_false_iff, Option.isNone_iff_eq_none] at hnone
    exact .inl ⟨rfl, hnone⟩
  | some gd =>
    rw [hget] at hsame
    obtain ⟨gd', hget'⟩ := Option.isSome_iff_exists.mp hsame.isSome.symm
    rw [hget'] at hsame
    exact .inr ⟨gd, gd', rfl, hget', hsame⟩

theorem trapCheck (h : Related safe R drv drv') (hst : R s t) (hmail : ∀ a, safe (.mail a)) (to_ : CStr) :
    drv.trapCheck g to_ s = drv'.trapCheck g to_ t := by
  unfold DbDriver.trapCheck
  rw [h.getDomPart hst, (h.get hst (hmail to_)).isSome]

theorem recordGrey (h : Related safe R drv drv') (hst : R s t) (hip : ∀ ip, safe (.ip ip))
    {gt : GreyTuple} (htuple : safe (.tuple gt)) (sync : Bool) (dstIp : CStr) (spamtrap : Bool) :
    R (drv.recordGrey g now gt sync dstIp spamtrap s)
      (drv'.recordGrey g now gt sync dstIp spamtrap t) := by
  have hkey : ∀ spamtrap, safe (greyKey spamtrap gt) := by
    intro spamtrap
    cases spamtrap with
    | true => exact hip gt.ip
    | false => exact htuple
  unfold DbDriver.recordGrey
  rcases h.lookup hst (hkey spamtrap) with ⟨hs, ht⟩ | ⟨gd, gd', hs, ht, hsame⟩
  · rw [hs, ht]
    exact h.put hst (hkey _) (sameReply_refl _ _)
  · rw [hs, ht]
    exact h.put hst (hkey _) (hsame.map _)

theorem processGrey (h : Related safe R drv drv') (hst : R s t) (hip : ∀ ip, safe (.ip ip))
    (hmail : ∀ a, safe (.mail a)) {gt : GreyTuple} (htuple : safe (.tuple gt)) (sync : Bool)
    (dstIp : CStr) :
    R (drv.processGrey g now gt sync dstIp s) (drv'.processGrey g now gt sync dstIp t) := by
  unfold DbDriver.processGrey
  rw [h.trapCheck hst hmail]
  dsimp only
  split
  · exact h.put hst (hip gt.ip) (sameReply_refl _ _)
  · exact h.recordGrey hst hip htuple sync dstIp _

theorem processNonGrey (h : Related safe R drv drv') (hst : R s t) (hip : ∀ ip, safe (.ip ip))
    (spamtrap : Bool) (ip expires : CStr) (delete : Bool) :
    R (drv.processNonGrey now spamtrap ip expires delete s)
      (drv'.processNonGrey now spamtrap ip expires delete t) := by
  have hgo : ∀ expire : Option Int,
      R (match drv.get (.ip ip) s with
          | none => if delete then s else drv.put (.ip ip) (newNonGrey spamtrap now (expire.getD 0)) s
          | some gd =>
            if delete then (drv.del (.ip ip) s).getD s
            else drv.put (.ip ip) (seenNonGrey spamtrap gd) s)
        (match drv'.get (.ip ip) t with
          | none => if delete then t else drv'.put (.ip ip) (newNonGrey spamtrap now (expire.getD 0)) t
          | some gd =>
            if delete then (drv'.del (.ip ip) t).getD t
            else drv'.put (.ip ip) (seenNonGrey spamtrap gd) t) := by
    intro expire
    rcases h.lookup hst (hip ip) with ⟨hs, ht⟩ | ⟨gd, gd', hs, ht, hsame⟩
    · rw [hs, ht]
      cases delete with
      | true => exact hst
      | false => exact h.put hst (hip ip) (sameReply_refl _ _)
    · rw [hs, ht]
      cases delete with
      | true => exact h.del hst (hip ip)
      | false => exact h.put hst (hip ip) (hsame.map _)
  unfold DbDriver.processNonGrey
  cases parseExpires expires with
  | none =>
    cases delete with
    | false => exact hst
    | true => exact hgo none
  | some e => cases delete <;> exact hgo (some e)

theorem dbUpdate (h : Related safe R drv drv') (hst : R s t) (action : DbAction) {type : EntryType}
    {ip : CStr} (hsafe : ∀ key, updateKey g.checkAddr type ip = some key → safe key) :
    R (drv.dbUpdate g now action type ip s) (drv'.dbUpdate g now action type ip t) := by
  unfold DbDriver.dbUpdate
  cases hkey : updateKey g.checkAddr type ip with
  | none => exact hst
  | some key =>
    cases action with
    | del => exact h.del hst (hsafe key hkey)
    | add =>
      rcases h.lookup hst (hsafe key hkey) with ⟨hs, ht⟩ | ⟨gd, gd', hs, ht, hsame⟩
      · dsimp only
        rw [hs, ht]
        exact h.put hst (hsafe key hkey) (sameReply_refl _ _)
      · dsimp only
        rw [hs, ht]
        exact h.put hst (hsafe key hkey) (hsame.map _)

/-- Whatever the programs do but for a scan keeps the databases related. -/
theorem step (h : Related safe R drv drv') (hip : ∀ ip, safe (.ip ip)) (hmail : ∀ a, safe (.mail a))
    {event : DbEvent} (hsafe : event.Safe g safe) (hst : R s t)
    (hscan : ∀ order, event = .grey (.scan order) →
      R (drv.scan now g.whiteExp s).2 (drv'.scan now g.whiteExp t).2) :
    R (drv.step g now event s) (drv'.step g now event t) := by
  cases event with
  | grey event =>
    cases event with
    | grey gt sync dstIp => exact h.processGrey hst hip hmail hsafe sync dstIp
    | nonGrey spamtrap ip expires delete => exact h.processNonGrey hst hip spamtrap ip expires delete
    | scan order => exact hscan order rfl
  | update action type ip => exact h.dbUpdate hst action hsafe
  | logged ip =>
    show R (drv.put _ _ s) (drv'.put _ _ t)
    rw [show drv.get (.ip ip) s = drv'.get (.ip ip) t from h.get hst (hip ip)]
    exact h.put hst (hip ip) (sameReply_refl _ _)

end DbDriver.Related

end Related

end Greyd
