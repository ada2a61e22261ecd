import Greyd.Grey
import Greyd.ScanSteps

/-!
# Runs of the greylisting engine

The database changes by messages and by scans, one after another, each at a time of the
clock. A tuple is whitelisted exactly when it was tried again after the pass time.
-/
namespace Greyd

inductive GreyEvent
  | grey (gt : GreyTuple) (sync : Bool) (dstIp : CStr)
  | nonGrey (spamtrap : Bool) (ip expires : CStr) (delete : Bool)
  | scan (order : List DbKey)

/-- An event, the time it happens at and the operations that fail during it. -/
structure GreyTick where
  now : Int
  faults : DbFaults
  event : GreyEvent

/-- The database after `Grey_scan_db`: a failed scan is rolled back. -/
def greyScanDb (g : Greylister) (f : DbFaults) (now : Int) (order : List DbKey) (b : Bdb) : Bdb :=
  ((modScanDb g.checkAddr f now g.whiteExp b order).map DbScan.db).getD b

def greyStep (g : Greylister) (t : GreyTick) (b : Bdb) : Bdb :=
  match t.event with
  | .grey gt sync dstIp => processGrey g t.faults t.now gt sync dstIp b
  | .nonGrey spamtrap ip expires delete =>
    processNonGrey t.faults t.now spamtrap ip expires delete b
  | .scan order => greyScanDb g t.faults t.now order b

/-- A scan meets every record exactly once. -/
def GreyTick.Fits (t : GreyTick) (b : Bdb) : Prop :=
  match t.event with
  | .scan order => order.Nodup ∧ ∀ key ∈ b.db, key ∈ order
  | _ => True

inductive GreyRun (g : Greylister) (b₀ : Bdb) : List GreyTick → Bdb → Prop
  | start : GreyRun g b₀ [] b₀
  | tick {ts b t} : GreyRun g b₀ ts b → t.Fits b → GreyRun g b₀ (ts ++ [t]) (greyStep g t b)

/-! ## Plain greylisting -/

/-- A grey message or a scan, without a failing operation or a low priority MX. -/
def GreyTick.Plain (g : Greylister) (t : GreyTick) : Prop :=
  t.faults = .none ∧ match t.event with
    | .grey _ _ dstIp => g.lowPrioMx ≠ some dstIp
    | .nonGrey .. => False
    | .scan _ => True

/-- Another message about the tuple. -/
def GreyTick.Tries (t : GreyTick) (gt : GreyTuple) : Prop :=
  ∃ sync dstIp, t.event = .grey gt sync dstIp

/-- The entry of a tuple was created at `t₁` and has been there ever since; `later` are the
ticks after its creation. -/
inductive CurrentGrey (g : Greylister) (b₀ : Bdb) (gt : GreyTuple) :
    List GreyTick → Int → List GreyTick → Bdb → Prop
  | created {ts b t} : GreyRun g b₀ ts b → b.entry (.tuple gt) = none → t.Tries gt →
      (greyStep g t b).entry (.tuple gt) ≠ none →
      CurrentGrey g b₀ gt (ts ++ [t]) t.now [] (greyStep g t b)
  | since {ts t₁ later b t} : CurrentGrey g b₀ gt ts t₁ later b → t.Fits b →
      (greyStep g t b).entry (.tuple gt) ≠ none →
      CurrentGrey g b₀ gt (ts ++ [t]) t₁ (later ++ [t]) (greyStep g t b)

section Plain

variable {g : Greylister} {b b₀ : Bdb} {gt : GreyTuple} {t : GreyTick}

theorem trapCheck_congr (g : Greylister) (to_ : CStr) {b b' : Bdb}
    (hs : b'.spamtraps = b.spamtraps) (hd : b'.domains = b.domains) :
    trapCheck g .none b' to_ = trapCheck g .none b to_ := by
  unfold trapCheck checkPartialDom modDbGet Bdb.file
  rw [hs, hd]

theorem modDbGet_ne_err (b : Bdb) (key : DbKey) : modDbGet .none b key ≠ .err := by
  unfold modDbGet DbFaults.none
  cases h : (b.file key).lookup key <;> simp

theorem trapCheck_ne_err (g : Greylister) (b : Bdb) (to_ : CStr) :
    trapCheck g .none b to_ ≠ .err := by
  have hget := modDbGet_ne_err b (.mail to_)
  unfold trapCheck
  show (if _ then _ else _) ≠ _
  split
  · simp
  · cases h : modDbGet .none b (.mail to_) with
    | err => exact absurd h hget
    | found gd => simp
    | notFound => simp

/-- The entry a grey message leaves in place of the one it found. -/
def touchGrey (g : Greylister) (now : Int) (spamtrap : Bool) : Option GreyData → GreyData
  | none => newGrey g now spamtrap
  | some gd => seenGrey g now spamtrap gd

/-- Without failures, sender policies and low priority MXs, a grey message rewrites the
entry of the address if the recipient is a spamtrap, and else that of the tuple. -/
theorem processGrey_plain (hspf : g.spfLookup = none) {dstIp : CStr}
    (hmx : g.lowPrioMx ≠ some dstIp) (now : Int) (gt : GreyTuple) (sync : Bool) (b : Bdb) :
    processGrey g .none now gt sync dstIp b =
      b.putEntry (greyKey (decide (trapCheck g .none b gt.to_ = .spamtrap)) gt)
        (touchGrey g now (decide (trapCheck g .none b gt.to_ = .spamtrap))
          (b.entry (greyKey (decide (trapCheck g .none b gt.to_ = .spamtrap)) gt))) := by
  have hlow : triedLowPrio g now sync dstIp = false := by simp [triedLowPrio, hmx]
  have hverdict : ∀ spamtrap, spfVerdict g gt sync spamtrap = 1 := by
    intro spamtrap
    rw [spfVerdict, hspf]
  have hrecord : ∀ spamtrap, recordGrey g .none now gt sync dstIp spamtrap b =
      b.putEntry (greyKey spamtrap gt)
        (touchGrey g now spamtrap (b.entry (greyKey spamtrap gt))) := by
    intro spamtrap
    unfold recordGrey modDbGet modDbPut DbFaults.none Bdb.entry touchGrey
    rw [hlow]
    cases spamtrap
    · cases h : b.db.lookup (.tuple gt) <;> simp [greyKey, Bdb.file, h] <;> rfl
    · cases h : b.db.lookup (.ip gt.ip) <;> simp [greyKey, Bdb.file, h] <;> rfl
  unfold processGrey
  cases hc : trapCheck g .none b gt.to_ with
  | err => exact absurd hc (trapCheck_ne_err g b gt.to_)
  | spamtrap => simp [hverdict, hrecord]
  | noTrap => simp [hverdict, hrecord]

/-- The files of spamtraps and domains are only ever read. -/
def Bdb.SameLists (b b' : Bdb) : Prop := b'.spamtraps = b.spamtraps ∧ b'.domains = b.domains

theorem ScanStep.sameLists {checkAddr : CStr → Option SaFamily} {now whiteExp : Int}
    {st st' : DbScan} {key : DbKey} (h : ScanStep checkAddr now whiteExp st key st') :
    st.db.SameLists st'.db := by
  cases h <;> simp [Bdb.SameLists, Bdb.promoted, Bdb.putEntry, Bdb.dropEntry]

/-- The keys a scan is not on keep their entries, but for the address of a promoted
tuple. -/
theorem ScanStep.entry_tuple {checkAddr : CStr → Option SaFamily} {now whiteExp : Int}
    {st st' : DbScan} {key : DbKey} (h : ScanStep checkAddr now whiteExp st key st') :
    st'.db.entry (.tuple gt) = st.db.entry (.tuple gt) ∨
      key = .tuple gt ∧ st'.db.entry (.tuple gt) = none := by
  cases h with
  | absent | waiting | blocked | foreign => exact .inl rfl
  | trap => exact .inl rfl
  | white => left; simp
  | @expired key gd =>
    by_cases hk : .tuple gt = key
    · exact .inr ⟨hk.symm, by simp [entry_dropEntry, hk]⟩
    · left; simp [entry_dropEntry, hk]
  | @promote gt' gd =>
    by_cases hk : gt = gt'
    · exact .inr ⟨by rw [hk], by simp [entry_promoted, hk]⟩
    · left; simp [entry_promoted, hk]

theorem greyScanDb_cases {P : Bdb → Prop} {f : DbFaults} {now : Int} {order : List DbKey}
    (hb : P b) (step : ∀ st st' key, ScanStep g.checkAddr now g.whiteExp st key st' →
      P st.db → P st'.db) : P (greyScanDb g f now order b) := by
  unfold greyScanDb
  cases hscan : modScanDb g.checkAddr f now g.whiteExp b order with
  | none => exact hb
  | some st =>
    show P st.db
    exact @scanKeys_induct _ _ _ _ _ _ (fun st => P st.db) _
      (fun st st' key _ h => step st st' key h) hscan hb

variable (hspf : g.spfLookup = none)

include hspf

theorem plainStep_sameLists (hp : t.Plain g) : b.SameLists (greyStep g t b) := by
  obtain ⟨now, faults, event⟩ := t
  obtain ⟨rfl, hevent⟩ := hp
  cases event with
  | grey gt sync dstIp =>
    show b.SameLists (processGrey g .none now gt sync dstIp b)
    rw [processGrey_plain hspf hevent]
    exact ⟨rfl, rfl⟩
  | nonGrey => exact hevent.elim
  | scan order =>
    apply greyScanDb_cases (P := b.SameLists) ⟨rfl, rfl⟩
    intro st st' key h hst
    exact ⟨h.sameLists.1.trans hst.1, h.sameLists.2.trans hst.2⟩

/-- What a plain tick does to the entry of a tuple. -/
theorem plainStep_tuple (hp : t.Plain g) :
    t.Tries gt ∧ trapCheck g .none b gt.to_ = .noTrap ∧
        (greyStep g t b).entry (.tuple gt) =
          some (touchGrey g t.now false (b.entry (.tuple gt))) ∨
      (t.Tries gt → trapCheck g .none b gt.to_ ≠ .noTrap) ∧
        ((greyStep g t b).entry (.tuple gt) = b.entry (.tuple gt) ∨
          (greyStep g t b).entry (.tuple gt) = none) := by
  obtain ⟨now, faults, event⟩ := t
  obtain ⟨rfl, hevent⟩ := hp
  cases event with
  | grey gt' sync dstIp =>
    have hstep : greyStep g ⟨now, .none, .grey gt' sync dstIp⟩ b = _ :=
      processGrey_plain hspf hevent now gt' sync b
    by_cases hc : trapCheck g .none b gt'.to_ = .noTrap
    · by_cases hgt : gt = gt'
      · subst hgt
        refine .inl ⟨⟨sync, dstIp, rfl⟩, hc, ?_⟩
        rw [hstep, hc]
        simp [greyKey, entry_putEntry]
      · refine .inr ⟨?_, .inl ?_⟩
        · rintro ⟨_, _, h⟩
          cases h; exact absurd rfl hgt
        · rw [hstep, hc]
          simp [greyKey, entry_putEntry, hgt]
    · refine .inr ⟨?_, .inl ?_⟩
      · rintro ⟨_, _, h⟩
        cases h; exact hc
      · have htrap : trapCheck g .none b gt'.to_ = .spamtrap := by
          cases h : trapCheck g .none b gt'.to_ with
          | err => exact absurd h (trapCheck_ne_err g b _)
          | noTrap => exact absurd h hc
          | spamtrap => rfl
        rw [hstep, htrap]
        simp [greyKey, entry_putEntry]
  | nonGrey => exact hevent.elim
  | scan order =>
    refine .inr ⟨?_, ?_⟩
    · rintro ⟨_, _, h⟩
      cases h
    · apply greyScanDb_cases
        (P := fun b' => b'.entry (.tuple gt) = b.entry (.tuple gt) ∨ b'.entry (.tuple gt) = none)
        (.inl rfl)
      intro st st' key h hst
      rcases h.entry_tuple with heq | ⟨-, hnone⟩
      · rwa [heq]
      · exact .inr hnone

omit hspf

theorem CurrentGrey.run {ts later : List GreyTick} {t₁ : Int}
    (h : CurrentGrey g b₀ gt ts t₁ later b) : GreyRun g b₀ ts b := by
  induction h with
  | created hrun _ htries _ =>
    obtain ⟨sync, dstIp, hevent⟩ := htries
    exact hrun.tick (by rw [GreyTick.Fits, hevent]; trivial)
  | since _ hfits _ ih => exact ih.tick hfits

theorem CurrentGrey.later_sub {ts later : List GreyTick} {t₁ : Int} {t : GreyTick}
    (h : CurrentGrey g b₀ gt ts t₁ later b) (ht : t ∈ later) : t ∈ ts := by
  induction h with
  | created => simp at ht
  | since _ _ _ ih =>
    rcases List.mem_append.mp ht with hold | hnew
    · exact List.mem_append_left _ (ih hold)
    · exact List.mem_append_right _ hnew

theorem GreyRun.sameLists {ts : List GreyTick} (hspf : g.spfLookup = none)
    (h : GreyRun g b₀ ts b) (hp : ∀ t ∈ ts, t.Plain g) : b₀.SameLists b := by
  induction h with
  | start => exact ⟨rfl, rfl⟩
  | @tick ts b t _ _ ih =>
    have hprev := ih fun t ht => hp t (List.mem_append_left _ ht)
    have hlast := plainStep_sameLists (b := b) hspf (hp _ (List.mem_append_right _ List.mem_cons_self))
    exact ⟨hlast.1.trans hprev.1, hlast.2.trans hprev.2⟩

/-- How the stored entry of a tuple reflects its history. -/
structure GreyFacts (g : Greylister) (b₀ : Bdb) (gt : GreyTuple) (t₁ : Int)
    (later : List GreyTick) (gd : GreyData) : Prop where
  clean : trapCheck g .none b₀ gt.to_ = .noTrap
  expire : gd.expire = t₁ + g.greyExp
  first : gd.first = t₁
  pcount : gd.pcount = 0
  pass : (∃ t ∈ later, t.Tries gt ∧ t₁ + g.passTime < t.now ∧ gd.pass = t.now) ∨
    (∀ t ∈ later, t.Tries gt → t.now ≤ t₁ + g.passTime) ∧ gd.pass = t₁ + g.greyExp

theorem CurrentGrey.facts {ts later : List GreyTick} {t₁ : Int} (hspf : g.spfLookup = none)
    (h : CurrentGrey g b₀ gt ts t₁ later b) (hp : ∀ t ∈ ts, t.Plain g) :
    ∃ gd, b.entry (.tuple gt) = some gd ∧ GreyFacts g b₀ gt t₁ later gd := by
  induction h with
  | @created ts b t hrun hnone htries hnew =>
    have hlists := hrun.sameLists hspf fun t ht => hp t (List.mem_append_left _ ht)
    rcases plainStep_tuple hspf (hp t (by simp)) with ⟨-, hc, he⟩ | ⟨-, he | he⟩
    · rw [hnone] at he
      refine ⟨_, he, ?_, rfl, rfl, rfl, .inr ⟨by simp, rfl⟩⟩
      rw [← hc]
      exact (trapCheck_congr g gt.to_ hlists.1 hlists.2).symm
    · exact absurd (he.trans hnone) hnew
    · exact absurd he hnew
  | @since ts t₁ later b t hcur hfits hstill ih =>
    obtain ⟨gd, he, hfacts⟩ := ih fun t ht => hp t (List.mem_append_left _ ht)
    have hlists := hcur.run.sameLists hspf fun t ht => hp t (List.mem_append_left _ ht)
    have hclean : trapCheck g .none b gt.to_ = .noTrap :=
      (trapCheck_congr g gt.to_ hlists.1 hlists.2).trans hfacts.clean
    rcases plainStep_tuple (b := b) hspf (hp t (by simp)) with ⟨htries, -, he'⟩ | ⟨hnot, he' | he'⟩
    · rw [he] at he'
      refine ⟨_, he', hfacts.clean, hfacts.expire, hfacts.first, rfl, ?_⟩
      show (∃ u ∈ later ++ [t], _ ∧ _ ∧ (if gd.first + g.passTime < t.now then t.now else gd.pass)
        = u.now) ∨ _ ∧ (if gd.first + g.passTime < t.now then t.now else gd.pass) = _
      rw [hfacts.first]
      by_cases hlate : t₁ + g.passTime < t.now
      · rw [if_pos hlate]
        exact .inl ⟨t, by simp, htries, hlate, rfl⟩
      · rw [if_neg hlate]
        rcases hfacts.pass with ⟨u, hu, hut, hul, hup⟩ | ⟨hall, hup⟩
        · exact .inl ⟨u, List.mem_append_left _ hu, hut, hul, hup⟩
        · refine .inr ⟨?_, hup⟩
          intro u hu hut
          rcases List.mem_append.mp hu with hold | hnew
          · exact hall u hold hut
          · rw [List.mem_singleton.mp hnew]
            omega
    · refine ⟨gd, he'.trans he, hfacts.clean, hfacts.expire, hfacts.first, hfacts.pcount, ?_⟩
      have hlast : ¬ t.Tries gt := fun htries => hnot htries hclean
      rcases hfacts.pass with ⟨u, hu, hrest⟩ | ⟨hall, hup⟩
      · exact .inl ⟨u, List.mem_append_left _ hu, hrest⟩
      · refine .inr ⟨?_, hup⟩
        intro u hu hut
        rcases List.mem_append.mp hu with hold | hnew
        · exact hall u hold hut
        · rw [List.mem_singleton.mp hnew] at hut
          exact absurd hut hlast
    · exact absurd he' hstill

theorem GreyRun.current {ts : List GreyTick} (hspf : g.spfLookup = none)
    (hnew : b₀.entry (.tuple gt) = none) (h : GreyRun g b₀ ts b) (hp : ∀ t ∈ ts, t.Plain g)
    (he : b.entry (.tuple gt) ≠ none) : ∃ t₁ later, CurrentGrey g b₀ gt ts t₁ later b := by
  induction h with
  | start => exact absurd hnew he
  | @tick ts b t hrun hfits ih =>
    by_cases hprev : b.entry (.tuple gt) = none
    · rcases plainStep_tuple hspf (hp t (by simp)) with ⟨htries, -, -⟩ | ⟨-, heq | hnone⟩
      · exact ⟨t.now, [], .created hrun hprev htries he⟩
      · exact absurd (heq.trans hprev) he
      · exact absurd hnone he
    · obtain ⟨t₁, later, hcur⟩ := ih (fun t ht => hp t (List.mem_append_left _ ht)) hprev
      exact ⟨t₁, later ++ [t], hcur.since hfits he⟩

end Plain

/-! ## The visit of a tuple -/

section Visit

variable {g : Greylister} {checkAddr : CStr → Option SaFamily} {now whiteExp : Int}
  {st st' : DbScan} {keys : List DbKey}

theorem promote_isSome (gt : GreyTuple) (gd : GreyData) :
    (promote checkAddr .none now whiteExp st gt gd).isSome := by
  unfold promote
  rcases dbAddrState_cases .none st.db gt.ip with ⟨-, herr⟩ | ⟨he, -⟩ | ⟨he | he, -⟩
  · exact absurd herr (by simp [DbFaults.none])
  · rw [he]; rfl
  · rw [he]; rfl
  · rw [he]; rfl

theorem scanKey_isSome (key : DbKey) : (scanKey checkAddr .none now whiteExp st key).isSome := by
  unfold scanKey
  cases st.db.db.lookup key with
  | none => rfl
  | some gd =>
    show (scanRecord checkAddr .none now whiteExp st key gd).isSome = true
    unfold scanRecord
    split
    · simp [modDbItrDelCurr, DbFaults.none]
    · cases key with
      | ip s =>
        show (if _ then _ else _ : Option DbScan).isSome = true
        split
        · rfl
        · split <;> rfl
      | tuple gt =>
        show (if _ then _ else _ : Option DbScan).isSome = true
        split
        · exact promote_isSome gt gd
        · rfl
      | mail s => rfl
      | dom s => rfl

/-- Without failing operations a scan succeeds. -/
theorem scanKeys_total (st : DbScan) (keys : List DbKey) :
    ∃ st', scanKeys checkAddr .none now whiteExp st keys = some st' := by
  induction keys generalizing st with
  | nil => exact ⟨st, rfl⟩
  | cons key keys ih =>
    obtain ⟨mid, hmid⟩ := Option.isSome_iff_exists.mp (@scanKey_isSome checkAddr now whiteExp st key)
    obtain ⟨st', hst'⟩ := ih mid
    exact ⟨st', by rw [scanKeys, hmid]; exact hst'⟩

/-- The whitelist of an address's family. -/
def DbScan.whitelistOf (st : DbScan) (checkAddr : CStr → Option SaFamily) (ip : CStr) : List CStr :=
  if checkAddr ip = some afInet6 then st.whitelistIpv6 else st.whitelist

theorem DbScan.whitelistOf_white (st : DbScan) (ip : CStr) :
    (st.white checkAddr ip).whitelistOf checkAddr ip = st.whitelistOf checkAddr ip ++ [ip] := by
  unfold DbScan.white DbScan.whitelistOf
  split <;> rfl

theorem ScanStep.whitelistOf_mono {key : DbKey} {ip : CStr}
    (h : ScanStep checkAddr now whiteExp st key st') (hip : ip ∈ st.whitelistOf checkAddr ip) :
    ip ∈ st'.whitelistOf checkAddr ip := by
  have hwhite : ∀ ip', ip ∈ (st.white checkAddr ip').whitelistOf checkAddr ip := by
    intro ip'
    unfold DbScan.white
    unfold DbScan.whitelistOf at hip ⊢
    split <;> split <;> simp_all
  cases h with
  | absent | waiting | blocked | foreign | expired | trap => exact hip
  | white => exact hwhite _
  | promote => exact hwhite _

/-- At its visit the tuple's entry gives way to a white entry of the address, which is put
on its whitelist. -/
structure Replaced (g : Greylister) (s : Int) (st st' : DbScan) (gt : GreyTuple) : Prop where
  tuple : st'.db.entry (.tuple gt) = none
  entry : ∃ gd, st'.db.entry (.ip gt.ip) = some gd ∧ 0 ≤ gd.pcount ∧ gd.expire = s + g.whiteExp
  listed : st'.whitelistOf g.checkAddr gt.ip = st.whitelistOf g.checkAddr gt.ip ++ [gt.ip]

theorem replaced_iff {gt : GreyTuple} {s : Int}
    (h : scanKey g.checkAddr .none s g.whiteExp st (.tuple gt) = some st') :
    Replaced g s st st' gt ↔
      (∃ gd, st.db.entry (.tuple gt) = some gd ∧ ¬ gd.Expired s ∧ gd.Ready s) ∧
        ¬ st.db.Trapped gt.ip := by
  have same : ∀ {db : Bdb}, ¬ Replaced g s st (st.setDb db) gt := by
    intro db hrep
    have hlisted : st.whitelistOf g.checkAddr gt.ip = st.whitelistOf g.checkAddr gt.ip ++ [gt.ip] :=
      hrep.listed
    simp at hlisted
  have hstep := scanKey_step h
  generalize hkey : DbKey.tuple gt = key at hstep
  cases hstep with
  | absent h0 =>
    subst hkey
    refine iff_of_false same ?_
    rintro ⟨⟨gd, he, -⟩, -⟩
    rw [he] at h0; cases h0
  | expired h0 hx =>
    subst hkey
    refine iff_of_false same ?_
    rintro ⟨⟨gd, he, hnx, -⟩, -⟩
    rw [he] at h0; cases h0
    exact hnx hx
  | trap => cases hkey
  | white => cases hkey
  | @promote gt' gd h0 hx hr hnt =>
    cases hkey
    refine iff_of_true ⟨?_, ?_, ?_⟩ ⟨⟨gd, h0, hx, hr⟩, hnt⟩
    · simp [entry_promoted]
    · exact ⟨gd.whitened (s + g.whiteExp), by simp [entry_promoted], hr.1, rfl⟩
    · exact st.whitelistOf_white gt.ip
  | waiting h0 hx hr =>
    subst hkey
    refine iff_of_false same ?_
    rintro ⟨⟨gd, he, -, hready⟩, -⟩
    rw [he] at h0; cases h0
    exact hr hready
  | blocked h0 hx hr ht =>
    cases hkey
    exact iff_of_false same fun hrep => hrep.2 ht
  | foreign _ _ hk => exact absurd hkey.symm (hk gt)

/-- A scan's visits to other keys leave the tuple's entry alone. -/
theorem scanKeys_entry_tuple {f : DbFaults} {gt : GreyTuple}
    (h : scanKeys checkAddr f now whiteExp st keys = some st') (hk : .tuple gt ∉ keys) :
    st'.db.entry (.tuple gt) = st.db.entry (.tuple gt) := by
  apply @scanKeys_induct _ _ _ _ _ _
    (fun mid => mid.db.entry (.tuple gt) = st.db.entry (.tuple gt)) keys _ h rfl
  intro st₁ st₂ key hkey hstep hst
  rcases @ScanStep.entry_tuple gt _ _ _ _ _ _ hstep with heq | ⟨rfl, -⟩
  · exact heq.trans hst
  · exact absurd hkey hk

theorem scanKeys_append {f : DbFaults} (st : DbScan) (keys₁ keys₂ : List DbKey) :
    scanKeys checkAddr f now whiteExp st (keys₁ ++ keys₂) =
      (scanKeys checkAddr f now whiteExp st keys₁).bind
        fun st => scanKeys checkAddr f now whiteExp st keys₂ := by
  induction keys₁ generalizing st with
  | nil => rfl
  | cons key keys ih =>
    rw [List.cons_append, scanKeys, scanKeys]
    cases scanKey checkAddr f now whiteExp st key with
    | none => rfl
    | some mid => exact ih mid

end Visit

/-- An entry with this history passes exactly when it was tried late enough. -/
theorem GreyFacts.ready_iff {g : Greylister} {b₀ : Bdb} {gt : GreyTuple} {t₁ s : Int}
    {later : List GreyTick} {gd : GreyData} (h : GreyFacts g b₀ gt t₁ later gd)
    (hs : ∀ t ∈ later, t.now ≤ s) :
    ¬ gd.Expired s ∧ gd.Ready s ↔
      (∃ t ∈ later, t.Tries gt ∧ t₁ + g.passTime < t.now ∧ t.now ≤ s) ∧ s < t₁ + g.greyExp := by
  unfold GreyData.Expired GreyData.Ready
  rw [h.pcount, h.expire]
  rcases h.pass with ⟨t, ht, htries, hlate, hp⟩ | ⟨hearly, hp⟩
  · have htime := hs t ht
    constructor
    · intro ⟨hx, _⟩
      exact ⟨⟨t, ht, htries, hlate, htime⟩, by omega⟩
    · intro ⟨_, hlive⟩
      omega
  · constructor
    · omega
    · rintro ⟨⟨t, ht, htries, hlate, -⟩, -⟩
      have := hearly t ht htries
      omega

/-- The greylisting guarantee. In a run of grey messages and scans from a database without
entries, a scan at time `s` replaces the entry of a tuple by a white entry of its address
and returns the address on its whitelist exactly when the current entry, created at `t₁`,
was tried again more than the pass time after `t₁`, has not reached its expiry, and the
address has no trap entry at the moment of the visit. -/
theorem greylisting_guarantee (g : Greylister) (hspf : g.spfLookup = none) (b₀ b : Bdb)
    (hempty : b₀.db = ∅) (ts : List GreyTick) (run : GreyRun g b₀ ts b)
    (plain : ∀ t ∈ ts, t.Plain g) (s : Int) (clock : ∀ t ∈ ts, t.now ≤ s) (gt : GreyTuple)
    (order : CursorOrder b) (pre post : List DbKey)
    (visit : order.keys = pre ++ .tuple gt :: post) :
    ∃ st₁ st₂ st, scanKeys g.checkAddr .none s g.whiteExp ⟨b, [], [], []⟩ pre = some st₁ ∧
      scanKey g.checkAddr .none s g.whiteExp st₁ (.tuple gt) = some st₂ ∧
      modScanDb g.checkAddr .none s g.whiteExp b order.keys = some st ∧
      (Replaced g s st₁ st₂ gt ∧ gt.ip ∈ st.whitelistOf g.checkAddr gt.ip ↔
        (∃ t₁ later, CurrentGrey g b₀ gt ts t₁ later b ∧
          (∃ t ∈ later, t.Tries gt ∧ t₁ + g.passTime < t.now ∧ t.now ≤ s) ∧
          s < t₁ + g.greyExp) ∧ ¬ st₁.db.Trapped gt.ip) := by
  obtain ⟨st₁, h₁⟩ := @scanKeys_total g.checkAddr s g.whiteExp ⟨b, [], [], []⟩ pre
  obtain ⟨st₂, h₂⟩ := Option.isSome_iff_exists.mp
    (@scanKey_isSome g.checkAddr s g.whiteExp st₁ (.tuple gt))
  obtain ⟨st, h₃⟩ := @scanKeys_total g.checkAddr s g.whiteExp st₂ post
  have hscan : modScanDb g.checkAddr .none s g.whiteExp b order.keys = some st := by
    rw [modScanDb, visit, scanKeys_append, h₁, Option.bind_some, scanKeys, h₂]
    exact h₃
  refine ⟨st₁, st₂, st, h₁, h₂, hscan, ?_⟩
  have hentry : st₁.db.entry (.tuple gt) = b.entry (.tuple gt) := by
    have hnodup := visit ▸ order.nodup
    exact scanKeys_entry_tuple h₁ fun hmem =>
      (List.nodup_append.mp hnodup).2.2 _ hmem _ List.mem_cons_self rfl
  have hlisted : Replaced g s st₁ st₂ gt → gt.ip ∈ st.whitelistOf g.checkAddr gt.ip := by
    intro hrep
    apply @scanKeys_induct _ _ _ _ _ _ (fun st => gt.ip ∈ st.whitelistOf g.checkAddr gt.ip) _
      (fun _ _ _ _ hstep hst => hstep.whitelistOf_mono hst) h₃
    rw [hrep.listed]
    simp
  have hnew : b₀.entry (.tuple gt) = none := by
    rw [Bdb.entry, hempty]
    rfl
  rw [and_iff_left_of_imp hlisted, replaced_iff h₂, hentry]
  apply and_congr_left'
  constructor
  · rintro ⟨gd, he, hready⟩
    obtain ⟨t₁, later, hcur⟩ := run.current hspf hnew plain (by rw [he]; exact Option.some_ne_none gd)
    obtain ⟨gd', he', hfacts⟩ := hcur.facts hspf plain
    rw [he] at he'; cases he'
    exact ⟨t₁, later, hcur, (hfacts.ready_iff fun t ht => clock t (hcur.later_sub ht)).mp hready⟩
  · rintro ⟨t₁, later, hcur, htried⟩
    obtain ⟨gd, he, hfacts⟩ := hcur.facts hspf plain
    exact ⟨gd, he, (hfacts.ready_iff fun t ht => clock t (hcur.later_sub ht)).mpr htried⟩

/-- An engine with the default times. -/
def defaultGreylister : Greylister where
  lowPrioMx := none
  startup := 0
  greyExp := 60 * 60 * 4
  trapExp := 60 * 60 * 24
  whiteExp := 60 * 60 * 24 * 36
  passTime := 60 * 25
  domains := []
  dbPermittedDomains := false
  whitelistOnPass := false
  spfLookup := none
  checkAddr := fun _ => some afInet

def triedTuple : GreyTuple := ⟨"10.0.0.1".toList, "mx".toList, "a@b".toList, "c@d".toList⟩

def firstTry : GreyTick := ⟨1000, .none, .grey triedTuple true []⟩
def secondTry : GreyTick := ⟨3000, .none, .grey triedTuple true []⟩

def triedBdb : Bdb :=
  greyStep defaultGreylister secondTry (greyStep defaultGreylister firstTry .empty)

def triedOrder : CursorOrder triedBdb where
  keys := [.tuple triedTuple]
  nodup := by decide
  covers := by decide

/-- Tried again after half an hour, the tuple passes at the next scan. -/
theorem greylisting_guarantee_retry :
    ∃ st, modScanDb defaultGreylister.checkAddr .none 3060 defaultGreylister.whiteExp triedBdb
        [.tuple triedTuple] = some st ∧ triedTuple.ip ∈ st.whitelist := by
  have run : GreyRun defaultGreylister .empty [firstTry, secondTry] triedBdb :=
    @GreyRun.tick _ _ [firstTry] _ secondTry (@GreyRun.tick _ _ [] _ firstTry .start trivial) trivial
  have hcur : CurrentGrey defaultGreylister .empty triedTuple [firstTry, secondTry] 1000
      [secondTry] triedBdb :=
    .since (.created .start rfl ⟨true, [], rfl⟩ (by decide)) trivial (by decide)
  obtain ⟨st₁, st₂, st, h₁, -, hscan, hiff⟩ := greylisting_guarantee defaultGreylister rfl .empty
    triedBdb rfl [firstTry, secondTry] run (by simp [GreyTick.Plain, firstTry, secondTry,
      defaultGreylister]) 3060 (by decide) triedTuple triedOrder [] [] rfl
  refine ⟨st, hscan, (hiff.mpr ⟨⟨1000, [secondTry], hcur, ⟨secondTry, ?_, ?_, ?_⟩, ?_⟩, ?_⟩).2⟩
  · simp
  · exact ⟨true, [], rfl⟩
  · decide
  · decide
  · cases h₁
    have hnone : triedBdb.entry (.ip triedTuple.ip) = none := by decide
    rintro ⟨gd, he, -⟩
    rw [hnone] at he; cases he

end Greyd
