import Greyd.ConRuns
import Greyd.Support.SlotTable

/-!
# The poll set of the main loop (main_greyd.c)

The slot of a descriptor in the poll array is its remainder modulo `max_fd`, the largest of
the descriptors gathered when the iteration begins. The config connection is not among
those, but it is put into the array and tested like the others.
-/
namespace Greyd

/-- MAX_TIME -/
def maxTime : Int := 400

/-- The descriptors of the main loop besides the connections. Absent is `main_sock6` that is
not positive, `cfg_fd` and `trap_fd` that are -1, and the sync socket where nothing is
received from it. -/
structure LoopFds where
  mainSock : Nat
  cfgSock : Nat
  mainSock6 : Option Nat
  cfgFd : Option Nat
  trapFd : Option Nat
  syncFd : Option Nat

/-- `struct pollfd` before the call. -/
structure PollFd where
  fd : Option Nat
  pollin : Bool
  pollout : Bool

/-- The two ways an entry is set: `events = POLLIN` and `events |= POLLOUT`. -/
inductive Place
  | input (fd : Nat)
  | output (fd : Nat)

def Place.fd : Place → Nat
  | .input fd => fd
  | .output fd => fd

def Place.write (entry : PollFd) : Place → PollFd
  | .input fd => ⟨some fd, true, false⟩
  | .output fd => ⟨some fd, entry.pollin, true⟩

/-- The poll array after entries have been set; unset ones are ignored by poll. -/
def pollArray (maxFd : Nat) (places : List Place) : Nat → PollFd :=
  places.foldl (fun fds place => Function.update fds (place.fd % maxFd)
    (place.write (fds (place.fd % maxFd)))) fun _ => ⟨none, false, false⟩

section Con

variable (now : Int) (con : Con)

def Con.readExpired : Prop := con.r ≠ 0 ∧ con.r + maxTime ≤ now

def Con.writeExpired : Prop := con.w ≠ 0 ∧ con.w + maxTime ≤ now

instance : Decidable (con.readExpired now) := inferInstanceAs (Decidable (_ ∧ _))

instance : Decidable (con.writeExpired now) := inferInstanceAs (Decidable (_ ∧ _))

/-- What is set for one connection; it is closed when it has waited too long. -/
def pollCon (state : GreydState) : List Place × Con × GreydState :=
  match con.fd with
  | none => ([], con, state)
  | some fd =>
    if con.readExpired now then ([], conClose con state)
    else
      let reads := if con.r ≠ 0 then [.input fd] else []
      if con.writeExpired now then (reads, conClose con state)
      else (reads ++ if con.w ≠ 0 ∧ con.w ≤ now then [.output fd] else [], con, state)

end Con

def pollCons (now : Int) : List Con → GreydState → List Place × List Con × GreydState
  | [], state => ([], [], state)
  | con :: cons, state =>
    let (places, con, state) := pollCon now con state
    let (rest, cons, state) := pollCons now cons state
    (places ++ rest, con :: cons, state)

/-- What is set in an iteration, in order, and the table it leaves. The main sockets are left
out while connections are throttled. -/
def pollLoop (now : Int) (fds : LoopFds) (table : ConTable) : List Place × ConTable :=
  let (places, cons, state) := pollCons now table.cons table.state
  let listening :=
    if state.slowUntil = 0 then fds.mainSock :: fds.mainSock6.toList ++ [fds.cfgFd.getD fds.cfgSock]
    else []
  (places ++ (listening ++ fds.trapFd.toList ++ fds.syncFd.toList).map .input, ⟨cons, state⟩)

/-- `max_fd` -/
def maxFd (fds : LoopFds) (table : ConTable) : Nat :=
  let m := max fds.mainSock fds.cfgSock
  let m := max m (fds.syncFd.getD 0)
  let m := max m (fds.mainSock6.getD 0)
  let m := max m (fds.trapFd.getD 0)
  table.cons.foldl (fun m con => max m (con.fd.getD 0)) m

def ConTable.fds (table : ConTable) : List Nat := table.cons.filterMap (·.fd)

/-- The descriptors whose slot is read after poll. -/
def testedFds (fds : LoopFds) (table : ConTable) : List Nat :=
  table.fds ++ fds.mainSock :: fds.mainSock6.toList ++ fds.cfgSock :: fds.cfgFd.toList ++
    fds.trapFd.toList ++ fds.syncFd.toList

/-- The descriptors in use besides the config connection. -/
def LoopFds.others (fds : LoopFds) (table : ConTable) : List Nat :=
  table.fds ++ fds.mainSock :: fds.mainSock6.toList ++ fds.cfgSock :: fds.trapFd.toList ++
    fds.syncFd.toList

/-- The main loop at the beginning of an iteration: no two of its descriptors are the same. -/
structure EventLoop where
  fds : LoopFds
  table : ConTable
  positive : ∀ d ∈ fds.cfgFd.toList ++ fds.others table, 0 < d
  distinct : (fds.cfgFd.toList ++ fds.others table).Nodup

namespace EventLoop

variable (now : Int) (loop : EventLoop)

def maxFd : Nat := Greyd.maxFd loop.fds loop.table

/-- What the iteration sets in the poll array. -/
def places : List Place := (pollLoop now loop.fds loop.table).1

/-- The descriptors tested once poll has returned. -/
def tests : List Nat := testedFds loop.fds (pollLoop now loop.fds loop.table).2

/-- No poll slot is shared: descriptors put into the array have slots of their own, and the
entry read for a descriptor is its own or an unset one. -/
structure SlotsApart : Prop where
  placed : ∀ p ∈ loop.places now, ∀ q ∈ loop.places now, p.fd ≠ q.fd →
    p.fd % loop.maxFd ≠ q.fd % loop.maxFd
  tested : ∀ d ∈ loop.tests now,
    ∀ there ∈ (pollArray loop.maxFd (loop.places now) (d % loop.maxFd)).fd, there = d

end EventLoop

/-! ## The connections in the poll set -/

section Con

variable (now : Int) (con : Con)

/-- The connection is put into the poll array. -/
def Con.polled : Prop :=
  ¬con.readExpired now ∧ (con.r ≠ 0 ∨ ¬con.writeExpired now ∧ con.w ≠ 0 ∧ con.w ≤ now)

/-- The connection has not waited too long. -/
def Con.stays : Prop := ¬con.readExpired now ∧ ¬con.writeExpired now

instance : Decidable (con.polled now) := inferInstanceAs (Decidable (_ ∧ _))

instance : Decidable (con.stays now) := inferInstanceAs (Decidable (_ ∧ _))

variable {now con} {state : GreydState} {cons : List Con} {d : Nat}

theorem mem_pollCon_places : d ∈ (pollCon now con state).1.map Place.fd ↔
    con.fd = some d ∧ con.polled now := by
  unfold pollCon Con.polled
  cases hfd : con.fd with
  | none => simp
  | some fd =>
    by_cases hread : con.readExpired now
    · simp [hread]
    · by_cases hwrite : con.writeExpired now
      · by_cases hr : con.r = 0 <;> simp [hread, hwrite, hr, Place.fd, eq_comm]
      · by_cases hr : con.r = 0 <;> by_cases hw : con.w ≠ 0 ∧ con.w ≤ now <;>
          simp [hread, hwrite, hr, hw, Place.fd, eq_comm]

theorem pollCon_fd : (pollCon now con state).2.1.fd = some d ↔
    con.fd = some d ∧ con.stays now := by
  unfold pollCon Con.stays
  cases hfd : con.fd with
  | none => simp [hfd]
  | some fd =>
    by_cases hread : con.readExpired now
    · simp [hread, conClose]
    · by_cases hwrite : con.writeExpired now
      · simp [hread, hwrite, conClose]
      · simp [hread, hwrite, hfd]

theorem pollCon_slowUntil : (pollCon now con state).2.2.slowUntil = 0 ↔
    state.slowUntil = 0 ∨ con.fd ≠ none ∧ ¬con.stays now := by
  unfold pollCon Con.stays
  cases hfd : con.fd with
  | none => simp
  | some fd =>
    by_cases hread : con.readExpired now
    · simp [hread, conClose]
    · by_cases hwrite : con.writeExpired now
      · simp [hread, hwrite, conClose]
      · simp [hread, hwrite]

theorem mem_pollCons_places : d ∈ (pollCons now cons state).1.map Place.fd ↔
    ∃ con ∈ cons, con.fd = some d ∧ con.polled now := by
  induction cons generalizing state with
  | nil => simp [pollCons]
  | cons con cons ih =>
    rw [pollCons, List.map_append, List.mem_append, mem_pollCon_places, ih,
      List.exists_mem_cons_iff]

theorem mem_pollCons_fds : d ∈ (pollCons now cons state).2.1.filterMap (·.fd) ↔
    ∃ con ∈ cons, con.fd = some d ∧ con.stays now := by
  induction cons generalizing state with
  | nil => simp [pollCons]
  | cons con cons ih =>
    rw [List.exists_mem_cons_iff, ← pollCon_fd, ← ih, List.mem_filterMap, pollCons,
      List.exists_mem_cons_iff, ← List.mem_filterMap]

theorem pollCons_slowUntil : (pollCons now cons state).2.2.slowUntil = 0 ↔
    state.slowUntil = 0 ∨ ∃ con ∈ cons, con.fd ≠ none ∧ ¬con.stays now := by
  induction cons generalizing state with
  | nil => simp [pollCons]
  | cons con cons ih => rw [pollCons, ih, pollCon_slowUntil, List.exists_mem_cons_iff, or_assoc]

end Con

/-! ## Which slots can be shared -/

namespace EventLoop

variable (now : Int) (loop : EventLoop)

/-- New connections are not accepted. -/
def Throttled : Prop := ¬(loop.table.state.slowUntil = 0 ∨
  ∃ con ∈ loop.table.cons, con.fd ≠ none ∧ ¬con.stays now)

instance : Decidable (loop.Throttled now) := inferInstanceAs (Decidable (¬(_ ∨ _)))

/-- The descriptors whose slots the config connection must not have: those that are put into
the array and those that are tested; only the first while connections are throttled. -/
def rivals : List Nat :=
  (if loop.Throttled now then (loop.table.cons.filter (·.polled now)).filterMap (·.fd)
    else (loop.table.cons.filter fun con => con.polled now ∨ con.stays now).filterMap (·.fd) ++
      loop.fds.mainSock :: loop.fds.mainSock6.toList ++ [loop.fds.cfgSock]) ++
    loop.fds.trapFd.toList ++ loop.fds.syncFd.toList

/-- The remainder of the config connection modulo `max_fd` is not such a descriptor, and not
zero if `max_fd` is one. -/
def CfgFdApart : Prop := ∀ c ∈ loop.fds.cfgFd, (∀ d ∈ loop.rivals now, c % loop.maxFd ≠ d) ∧
  (loop.maxFd ∈ loop.rivals now → c % loop.maxFd ≠ 0)

variable {now loop} {c d : Nat}

theorem mem_places : d ∈ (loop.places now).map Place.fd ↔
    (∃ con ∈ loop.table.cons, con.fd = some d ∧ con.polled now) ∨
      (¬loop.Throttled now ∧ (d = loop.fds.mainSock ∨ loop.fds.mainSock6 = some d ∨
        d = loop.fds.cfgFd.getD loop.fds.cfgSock)) ∨
      loop.fds.trapFd = some d ∨ loop.fds.syncFd = some d := by
  have hslow : ¬loop.Throttled now ↔
      (pollCons now loop.table.cons loop.table.state).2.2.slowUntil = 0 := by
    rw [Throttled, not_not, pollCons_slowUntil]
  have hmap : ∀ ds : List Nat, (ds.map Place.input).map Place.fd = ds := fun ds => by
    rw [List.map_map]
    exact List.map_id ds
  rw [hslow, places, pollLoop, List.map_append, List.mem_append, mem_pollCons_places, hmap]
  by_cases h : (pollCons now loop.table.cons loop.table.state).2.2.slowUntil = 0
  · simp [h, or_assoc]
  · simp [h]

theorem mem_tests : d ∈ loop.tests now ↔
    (∃ con ∈ loop.table.cons, con.fd = some d ∧ con.stays now) ∨ d = loop.fds.mainSock ∨
      loop.fds.mainSock6 = some d ∨ d = loop.fds.cfgSock ∨ loop.fds.cfgFd = some d ∨
      loop.fds.trapFd = some d ∨ loop.fds.syncFd = some d := by
  rw [tests, testedFds]
  simp only [List.mem_append, List.mem_cons, Option.mem_toList, ConTable.fds, pollLoop,
    mem_pollCons_fds, or_assoc]

theorem mem_others : d ∈ loop.fds.others loop.table ↔
    (∃ con ∈ loop.table.cons, con.fd = some d) ∨ d = loop.fds.mainSock ∨
      loop.fds.mainSock6 = some d ∨ d = loop.fds.cfgSock ∨
      loop.fds.trapFd = some d ∨ loop.fds.syncFd = some d := by
  simp only [LoopFds.others, ConTable.fds, List.mem_append, List.mem_cons, List.mem_filterMap,
    Option.mem_toList, or_assoc]

theorem mem_rivals : d ∈ loop.rivals now ↔
    (∃ con ∈ loop.table.cons, con.fd = some d ∧
      (con.polled now ∨ ¬loop.Throttled now ∧ con.stays now)) ∨
      (¬loop.Throttled now ∧ (d = loop.fds.mainSock ∨ loop.fds.mainSock6 = some d ∨
        d = loop.fds.cfgSock)) ∨
      loop.fds.trapFd = some d ∨ loop.fds.syncFd = some d := by
  unfold rivals
  by_cases h : loop.Throttled now
  · simp only [h, if_true, List.mem_append, List.mem_filterMap, List.mem_filter,
      Option.mem_toList, decide_eq_true_eq, not_true, false_and, or_false, false_or, or_assoc]
    exact or_congr (exists_congr fun con => by tauto) Iff.rfl
  · simp only [h, if_false, List.mem_append, List.mem_filterMap, List.mem_filter, List.mem_cons,
      Option.mem_toList, decide_eq_true_eq, not_false_eq_true, true_and, List.not_mem_nil,
      or_false, or_assoc]
    exact or_congr (exists_congr fun con => by tauto) Iff.rfl

theorem maxFd_fold (m : Nat) (cons : List Con) :
    m ≤ cons.foldl (fun m con => max m (con.fd.getD 0)) m ∧
      ∀ con ∈ cons, con.fd.getD 0 ≤ cons.foldl (fun m con => max m (con.fd.getD 0)) m := by
  induction cons generalizing m with
  | nil => simp
  | cons con cons ih =>
    obtain ⟨hm, hcons⟩ := ih (max m (con.fd.getD 0))
    rw [List.foldl_cons]
    refine ⟨by omega, fun x hx => ?_⟩
    rcases List.mem_cons.mp hx with rfl | hx
    · omega
    · exact hcons x hx

/-- `max_fd` is gathered from all descriptors but the config connection. -/
theorem le_maxFd (h : d ∈ loop.fds.others loop.table) : d ≤ loop.maxFd := by
  obtain ⟨m, hm⟩ : ∃ m, m = max (max (max (max loop.fds.mainSock loop.fds.cfgSock)
    (loop.fds.syncFd.getD 0)) (loop.fds.mainSock6.getD 0)) (loop.fds.trapFd.getD 0) := ⟨_, rfl⟩
  have hfold : loop.maxFd = loop.table.cons.foldl (fun m con => max m (con.fd.getD 0)) m := by
    rw [hm]
    rfl
  obtain ⟨hle, hcons⟩ := maxFd_fold m loop.table.cons
  rw [hfold]
  rcases mem_others.mp h with ⟨con, hcon, hfd⟩ | h | h | h | h | h
  · have hcon := hcons con hcon
    rwa [hfd] at hcon
  · omega
  · rw [h, Option.getD_some] at hm
    omega
  · omega
  · rw [h, Option.getD_some] at hm
    omega
  · rw [h, Option.getD_some] at hm
    omega

theorem not_mem_others (h : c ∈ loop.fds.cfgFd) : c ∉ loop.fds.others loop.table := fun hin =>
  (List.nodup_append.mp loop.distinct).2.2 c (Option.mem_toList.mpr h) c hin rfl

theorem mem_of_places (h : d ∈ (loop.places now).map Place.fd) :
    loop.fds.cfgFd = some d ∨ d ∈ loop.fds.others loop.table := by
  rw [mem_others]
  rcases mem_places.mp h with ⟨con, hcon, hfd, -⟩ | ⟨-, h | h | h⟩ | h | h
  · exact .inr (.inl ⟨con, hcon, hfd⟩)
  · tauto
  · tauto
  · cases hcfg : loop.fds.cfgFd with
    | none =>
      rw [hcfg, Option.getD_none] at h
      tauto
    | some c =>
      rw [hcfg, Option.getD_some] at h
      exact .inl (h ▸ rfl)
  · tauto
  · tauto

theorem mem_of_tests (h : d ∈ loop.tests now) :
    loop.fds.cfgFd = some d ∨ d ∈ loop.fds.others loop.table := by
  rw [mem_others]
  rcases mem_tests.mp h with ⟨con, hcon, hfd, -⟩ | h
  · exact .inr (.inl ⟨con, hcon, hfd⟩)
  · tauto

/-- Descriptors up to `max_fd` have slots of their own. -/
theorem eq_of_mod_eq {m k l : Nat} (hk : 0 < k) (hl : 0 < l) (hkm : k ≤ m) (hlm : l ≤ m)
    (h : k % m = l % m) : k = l := by
  rcases Nat.lt_or_eq_of_le hkm with hk' | rfl
  · rcases Nat.lt_or_eq_of_le hlm with hl' | rfl
    · rwa [Nat.mod_eq_of_lt hk', Nat.mod_eq_of_lt hl'] at h
    · rw [Nat.mod_eq_of_lt hk', Nat.mod_self] at h
      omega
  · rcases Nat.lt_or_eq_of_le hlm with hl' | rfl
    · rw [Nat.mod_self, Nat.mod_eq_of_lt hl'] at h
      omega
    · rfl

/-- A remainder is the slot of a descriptor up to `max_fd` if it is that descriptor, or zero
for `max_fd` itself. -/
theorem mod_ne_mod_iff {m : Nat} (hd : 0 < d) (hdm : d ≤ m) :
    c % m ≠ d % m ↔ c % m ≠ d ∧ (d = m → c % m ≠ 0) := by
  rcases Nat.lt_or_eq_of_le hdm with hlt | rfl
  · rw [Nat.mod_eq_of_lt hlt]
    have hne : d ≠ m := Nat.ne_of_lt hlt
    tauto
  · rw [Nat.mod_self]
    have hne : c % d ≠ d := Nat.ne_of_lt (Nat.mod_lt c hd)
    tauto

theorem mem_others_of_rivals (h : d ∈ loop.rivals now) : d ∈ loop.fds.others loop.table := by
  rw [mem_others]
  rcases mem_rivals.mp h with ⟨con, hcon, hfd, -⟩ | h | h
  · exact .inl ⟨con, hcon, hfd⟩
  · tauto
  · tauto

theorem mem_rivals_of_places (h : d ∈ (loop.places now).map Place.fd)
    (hother : d ∈ loop.fds.others loop.table) : d ∈ loop.rivals now := by
  rw [mem_rivals]
  rcases mem_places.mp h with ⟨con, hcon, hfd, h⟩ | ⟨hslow, h | h | h⟩ | h | h
  · exact .inl ⟨con, hcon, hfd, .inl h⟩
  · tauto
  · tauto
  · cases hcfg : loop.fds.cfgFd with
    | none =>
      rw [hcfg, Option.getD_none] at h
      tauto
    | some c =>
      rw [hcfg, Option.getD_some] at h
      exact absurd hother (not_mem_others (h ▸ hcfg))
  · tauto
  · tauto

theorem mem_rivals_of_tests (hslow : ¬loop.Throttled now) (h : d ∈ loop.tests now)
    (hother : d ∈ loop.fds.others loop.table) : d ∈ loop.rivals now := by
  rw [mem_rivals]
  rcases mem_tests.mp h with ⟨con, hcon, hfd, h⟩ | h | h | h | h | h
  · exact .inl ⟨con, hcon, hfd, .inr ⟨hslow, h⟩⟩
  · tauto
  · tauto
  · tauto
  · exact absurd hother (not_mem_others h)
  · tauto

/-- The config connection is polled unless connections are throttled. -/
theorem cfgFd_mem_places (hc : c ∈ loop.fds.cfgFd) :
    c ∈ (loop.places now).map Place.fd ↔ ¬loop.Throttled now := by
  have hout := not_mem_others hc
  rw [mem_others] at hout
  rw [mem_places, Option.mem_def.mp hc, Option.getD_some]
  constructor
  · rintro (⟨con, hcon, hfd, -⟩ | h | h)
    · exact absurd (.inl ⟨con, hcon, hfd⟩) hout
    · exact h.1
    · tauto
  · intro hslow
    exact .inr (.inl ⟨hslow, .inr (.inr rfl)⟩)

theorem cfgFdApart_iff : loop.CfgFdApart now ↔
    ∀ c ∈ loop.fds.cfgFd, ∀ d ∈ loop.rivals now, c % loop.maxFd ≠ d % loop.maxFd := by
  refine forall₂_congr fun c _ => ?_
  have hrival : ∀ d ∈ loop.rivals now, (c % loop.maxFd ≠ d % loop.maxFd ↔
      c % loop.maxFd ≠ d ∧ (d = loop.maxFd → c % loop.maxFd ≠ 0)) := fun d hd =>
    mod_ne_mod_iff (loop.positive d (List.mem_append_right _ (mem_others_of_rivals hd)))
      (le_maxFd (mem_others_of_rivals hd))
  rw [forall₂_congr hrival]
  constructor
  · rintro ⟨hne, hmax⟩ d hd
    exact ⟨hne d hd, fun heq => hmax (heq ▸ hd)⟩
  · intro h
    exact ⟨fun d hd => (h d hd).1, fun hmax => (h _ hmax).2 rfl⟩

theorem pollArray_fd (m : Nat) (places : List Place) (slot : Nat) :
    (pollArray m places slot).fd = SlotTable.fill (· % m) (places.map Place.fd) slot := by
  induction places using List.reverseRecOn with
  | nil => rfl
  | append_singleton places last ih =>
    rw [List.map_append, List.map_singleton, SlotTable.fill_concat, ← ih, pollArray,
      List.foldl_append, List.foldl_cons, List.foldl_nil, Function.update_apply]
    split
    · cases last <;> rfl
    · rfl

theorem slotsApart_iff : loop.SlotsApart now ↔
    SlotTable.Apart (· % loop.maxFd) ((loop.places now).map Place.fd) (loop.tests now) := by
  constructor
  · rintro ⟨hplaced, htested⟩
    refine ⟨?_, fun d hd there hthere => htested d hd there (pollArray_fd .. ▸ hthere)⟩
    simpa only [List.forall_mem_map] using hplaced
  · rintro ⟨hspread, hfound⟩
    refine ⟨?_, fun d hd there hthere => hfound d hd there (pollArray_fd .. ▸ hthere)⟩
    simpa only [List.forall_mem_map] using hspread

/-- The slots of an iteration are not shared exactly when the config connection, if there is
one, has a slot of its own. -/
theorem poll_slots_iff (loop : EventLoop) (now : Int) :
    loop.SlotsApart now ↔ loop.CfgFdApart now := by
  rw [slotsApart_iff, SlotTable.apart_iff, cfgFdApart_iff]
  constructor
  · intro h c hc d hd
    have hne : c ≠ d := fun heq => not_mem_others hc (heq ▸ mem_others_of_rivals hd)
    by_cases hslow : loop.Throttled now
    · -- the connection is tested but not put into the array
      have hplaced : d ∈ (loop.places now).map Place.fd := by
        rw [mem_places]
        rcases mem_rivals.mp hd with ⟨con, hcon, hfd, h⟩ | h | h
        · exact .inl ⟨con, hcon, hfd, by tauto⟩
        · tauto
        · tauto
      have htested : c ∈ loop.tests now := mem_tests.mpr (by rw [Option.mem_def] at hc; tauto)
      exact (h d hplaced c (.inr htested) hne.symm).symm
    · refine h c ((cfgFd_mem_places hc).mpr hslow) d ?_ hne
      rw [mem_places, mem_tests]
      rcases mem_rivals.mp hd with ⟨con, hcon, hfd, h | ⟨-, h⟩⟩ | h | h
      · exact .inl (.inl ⟨con, hcon, hfd, h⟩)
      · exact .inr (.inl ⟨con, hcon, hfd, h⟩)
      · tauto
      · tauto
  · intro h k hk l hl hne
    have hother : ∀ d ∈ loop.fds.others loop.table, 0 < d ∧ d ≤ loop.maxFd := fun d hd =>
      ⟨loop.positive d (List.mem_append_right _ hd), le_maxFd hd⟩
    rcases mem_of_places hk with hkcfg | hkother
    · have hslow := (cfgFd_mem_places hkcfg).mp hk
      refine h k hkcfg l ?_
      have hlother : l ∈ loop.fds.others loop.table := by
        refine (hl.elim mem_of_places mem_of_tests).resolve_left fun hlcfg => hne ?_
        exact Option.some.inj (hkcfg.symm.trans hlcfg)
      rcases hl with hplaced | htested
      · exact mem_rivals_of_places hplaced hlother
      · exact mem_rivals_of_tests hslow htested hlother
    · rcases hl.elim mem_of_places mem_of_tests with hlcfg | hlother
      · exact (h l hlcfg k (mem_rivals_of_places hk hkother)).symm
      · obtain ⟨hk0, hkm⟩ := hother k hkother
        obtain ⟨hl0, hlm⟩ := hother l hlother
        exact fun hmod => hne (eq_of_mod_eq hk0 hl0 hkm hlm hmod)

/-- The clients have left that were connected when the config connection was accepted. -/
def emptiedLoop : EventLoop where
  fds := ⟨4, 5, none, some 11, some 7, none⟩
  table := .start (.start configCreate 2 2 false (blacklistCreate [] [] .list))
  positive := by decide
  distinct := by decide

/-- The config connection takes the slot of the main socket. -/
theorem cfgFd_takes_main : ¬emptiedLoop.SlotsApart 0 := by
  intro h
  have hmain : emptiedLoop.fds.mainSock ∈ emptiedLoop.tests 0 := by decide
  have hthere : (11 : Nat) ∈ (pollArray emptiedLoop.maxFd (emptiedLoop.places 0)
    (emptiedLoop.fds.mainSock % emptiedLoop.maxFd)).fd := by decide
  exact absurd (h.tested _ hmain _ hthere) (by decide)

end EventLoop

end Greyd
