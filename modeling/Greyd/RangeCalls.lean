import Mathlib.Tactic
import Greyd.Collapse
import Greyd.FeedReading

/-!
# Calls of Blacklist_add_range

Whatever ranges the parsers hand over, a list in its first allocation takes two elements for
each range that does not end before it starts, until there is no room left.
-/
namespace Greyd

abbrev AddCall := FeedRange × BlType

def addCalls (b : Blacklist) (calls : List AddCall) : Option Blacklist :=
  calls.foldlM (fun b c => blacklistAddRange b c.1.1 c.1.2 c.2) b

/-- The range is not ignored. -/
def AddCall.kept (c : AddCall) : Bool := decide (c.1.1 ≤ c.1.2)

/-- The two elements of a range. -/
def rangeEvents (type : BlType) (r : FeedRange) : List BlacklistEntry :=
  match type with
  | .white => [⟨.ofSAddr r.1, .zero, 0, 1⟩, ⟨.ofSAddr r.2, .zero, 0, -1⟩]
  | .black => [⟨.ofSAddr r.1, .zero, 1, 0⟩, ⟨.ofSAddr r.2, .zero, -1, 0⟩]

def callEvents (calls : List AddCall) : List BlacklistEntry :=
  (calls.filter AddCall.kept).flatMap fun c => rangeEvents c.2 c.1

theorem addRanges_eq_addCalls (b : Blacklist) (type : BlType) (ranges : List FeedRange) :
    addRanges b type ranges = addCalls b (ranges.map (·, type)) := by
  rw [addRanges, addCalls, List.foldlM_map]

theorem addCalls_append (b : Blacklist) (calls calls' : List AddCall) :
    addCalls b (calls ++ calls') = (addCalls b calls).bind fun b => addCalls b calls' :=
  List.foldlM_append

theorem rangeEvents_length (type : BlType) (r : FeedRange) : (rangeEvents type r).length = 2 := by
  cases type <;> rfl

theorem rangeEvents_inj {type : BlType} {r r' : FeedRange} (h : rangeEvents type r = rangeEvents type r') :
    r = r' := by
  have hpos : (rangeEvents type r).map BlacklistEntry.address =
      (rangeEvents type r').map BlacklistEntry.address := by rw [h]
  have hwords : r.1 = r'.1 ∧ r.2 = r'.2 := by
    cases type <;> simpa [rangeEvents, IpAddr.ofSAddr] using hpos
  exact Prod.ext hwords.1 hwords.2

theorem flatMap_pairs_length {α β : Type} {f : α → List β} (hf : ∀ a, (f a).length = 2) (l : List α) :
    (l.flatMap f).length = 2 * l.length := by
  induction l with
  | nil => rfl
  | cons a l ih =>
    rw [List.flatMap_cons, List.length_append, hf, ih, List.length_cons]
    omega

/-- The pairs of a list of pairs stand at its even positions. -/
theorem mem_pairs_iff {α β : Type} {f : α → List β} (hf : ∀ a, (f a).length = 2)
    (hinj : ∀ a b, f a = f b → a = b) (l : List α) (a : α) :
    (∃ i, ((l.flatMap f).drop (2 * i)).take 2 = f a) ↔ a ∈ l := by
  induction l with
  | nil =>
    have hne : f a ≠ [] := fun h => by simpa [h] using hf a
    simpa using hne
  | cons b l ih =>
    rw [List.mem_cons, ← ih]
    constructor
    · rintro ⟨i, hi⟩
      cases i with
      | zero =>
        rw [List.flatMap_cons, Nat.mul_zero, List.drop_zero, List.take_left' (hf b)] at hi
        exact .inl (hinj _ _ hi).symm
      | succ i =>
        rw [List.flatMap_cons, show 2 * (i + 1) = (f b).length + 2 * i by rw [hf]; omega,
          List.drop_length_add_append] at hi
        exact .inr ⟨i, hi⟩
    · rintro (rfl | ⟨i, hi⟩)
      · exact ⟨0, by rw [List.flatMap_cons, Nat.mul_zero, List.drop_zero, List.take_left' (hf a)]⟩
      · refine ⟨i + 1, ?_⟩
        rw [List.flatMap_cons, show 2 * (i + 1) = (f b).length + 2 * i by rw [hf]; omega,
          List.drop_length_add_append]
        exact hi

theorem callEvents_length (calls : List AddCall) :
    (callEvents calls).length = 2 * (calls.filter AddCall.kept).length :=
  flatMap_pairs_length (fun _ => rangeEvents_length _ _) _

theorem even_callEvents (calls : List AddCall) : Even (callEvents calls).length := by
  rw [callEvents_length]
  exact even_two_mul _

/-! ## One call -/

variable {b : Blacklist} {es : List BlacklistEntry}

theorem blacklistAddRange_ignored (b : Blacklist) {c : AddCall} (h : c.kept = false) :
    blacklistAddRange b c.1.1 c.1.2 c.2 = some b := by
  rw [AddCall.kept, decide_eq_false_iff_not, BitVec.not_le] at h
  rw [blacklistAddRange, if_pos h]

theorem FirstAlloc.addRange (h : FirstAlloc b es) {c : AddCall} (hkept : c.kept = true)
    (hroom : es.length + 2 ≤ listRoom) : ∃ l, blacklistAddRange b c.1.1 c.1.2 c.2 = some l ∧
      FirstAlloc l (es ++ rangeEvents c.2 c.1) := by
  rw [AddCall.kept, decide_eq_true_eq, ← BitVec.not_lt] at hkept
  have halloc : b.alloc ≠ 0 := by rw [h.alloc]; decide
  obtain ⟨l, hstore, hl⟩ := h.store (rangeEvents c.2 c.1) (by rw [rangeEvents_length]; exact hroom)
  refine ⟨l, ?_, hl⟩
  rw [blacklistAddRange, if_neg hkept, h.growEntries (by omega), if_neg halloc]
  cases ht : c.2 <;> simpa only [rangeEvents, ht] using hstore

/-- So a full list takes no range. -/
theorem FirstAlloc.addRange_full (h : FirstAlloc b es) {c : AddCall} (hkept : c.kept = true)
    (hfull : es.length = listRoom) : blacklistAddRange b c.1.1 c.1.2 c.2 = none := by
  rw [AddCall.kept, decide_eq_true_eq, ← BitVec.not_lt] at hkept
  have hcount : b.count = listRoom := h.count.trans hfull
  have hover : ¬ (listRoom + 2) * BlacklistEntry.sizeof ≤ 2 * blacklistInitSize := by decide
  have halloc : ¬ 2 * blacklistInitSize = 0 := by decide
  rw [blacklistAddRange, if_neg hkept, h.growEntries_full hfull]
  dsimp only
  rw [if_neg halloc]
  cases c.2 <;> simp [Blacklist.store, hcount, hover]

theorem growEntries_name (b : Blacklist) :
    (growEntries b).name = b.name ∧ (growEntries b).message = b.message := by
  unfold growEntries
  split <;> exact ⟨rfl, rfl⟩

theorem store_name {l : Blacklist} {new : List BlacklistEntry} (h : b.store new = some l) :
    l.name = b.name ∧ l.message = b.message := by
  rw [Blacklist.store, Option.ite_none_right_eq_some] at h
  rw [← Option.some.inj h.2]
  exact ⟨rfl, rfl⟩

theorem blacklistAddRange_name {start end_ : BitVec 32} {type : BlType} {l : Blacklist}
    (h : blacklistAddRange b start end_ type = some l) :
    l.name = b.name ∧ l.message = b.message := by
  have hgrow := growEntries_name b
  unfold blacklistAddRange at h
  generalize growEntries b = grown at h hgrow
  by_cases hgt : start > end_
  · rw [if_pos hgt] at h
    obtain rfl := Option.some.inj h
    exact ⟨rfl, rfl⟩
  · rw [if_neg hgt] at h
    rw [← hgrow.1, ← hgrow.2]
    dsimp only at h
    by_cases halloc : grown.alloc = 0
    · rw [if_pos halloc] at h
      obtain rfl := Option.some.inj h
      exact ⟨rfl, rfl⟩
    · rw [if_neg halloc] at h
      cases type with
      | white => exact store_name h
      | black => exact store_name h

theorem addCalls_name {calls : List AddCall} {l : Blacklist} (h : addCalls b calls = some l) :
    l.name = b.name ∧ l.message = b.message := by
  induction calls generalizing b with
  | nil =>
    rw [← Option.some.inj h]
    exact ⟨rfl, rfl⟩
  | cons c calls ih =>
    obtain ⟨b', hadd, hrest⟩ := Option.bind_eq_some_iff.mp h
    obtain ⟨hname, hmessage⟩ := blacklistAddRange_name hadd
    exact ⟨(ih hrest).1.trans hname, (ih hrest).2.trans hmessage⟩

/-- A list takes the calls exactly when their elements fit into its first allocation. -/
theorem addCalls_spec (h : FirstAlloc b es) (heven : Even es.length) (calls : List AddCall) :
    (es.length + (callEvents calls).length ≤ listRoom →
      ∃ l, addCalls b calls = some l ∧ FirstAlloc l (es ++ callEvents calls)) ∧
    (listRoom < es.length + (callEvents calls).length → addCalls b calls = none) := by
  induction calls generalizing b es with
  | nil =>
    exact ⟨fun _ => ⟨b, rfl, by simpa [callEvents] using h⟩,
      fun hlt => absurd hlt (by simpa [callEvents] using h.room)⟩
  | cons c calls ih =>
    rw [show addCalls b (c :: calls) =
      (blacklistAddRange b c.1.1 c.1.2 c.2).bind (addCalls · calls) from rfl]
    cases hkept : c.kept with
    | false =>
      have hevents : callEvents (c :: calls) = callEvents calls := by simp [callEvents, hkept]
      rw [blacklistAddRange_ignored b hkept, hevents]
      exact ih h heven
    | true =>
      have hevents : callEvents (c :: calls) = rangeEvents c.2 c.1 ++ callEvents calls := by
        simp [callEvents, hkept]
      have hlen : (es ++ rangeEvents c.2 c.1).length = es.length + 2 := by
        rw [List.length_append, rangeEvents_length]
      rw [hevents, List.length_append, rangeEvents_length, ← List.append_assoc]
      by_cases hroom : es.length + 2 ≤ listRoom
      · obtain ⟨l, hadd, hl⟩ := h.addRange hkept hroom
        have hrec := ih hl (hlen ▸ heven.add even_two)
        rw [hlen] at hrec
        rw [hadd, Option.bind_some]
        exact ⟨fun hfit => hrec.1 (by omega), fun hover => hrec.2 (by omega)⟩
      · have hfull : es.length = listRoom := by
          obtain ⟨k, hk⟩ := heven
          have hroom' := h.room
          have hodd : listRoom = 2 * (2 ^ 19 - 1) := by decide
          omega
        refine ⟨fun hfit => absurd hfit (by omega), fun _ => ?_⟩
        rw [h.addRange_full hkept hfull]
        rfl

theorem addCalls_create_iff (name message : CStr) (calls : List AddCall) :
    (∃ l, addCalls (blacklistCreate name message .list) calls = some l) ↔
      (callEvents calls).length ≤ listRoom := by
  obtain ⟨hfits, hover⟩ := addCalls_spec (firstAlloc_create name message) (by simp) calls
  simp only [List.length_nil, Nat.zero_add] at hfits hover
  refine ⟨fun ⟨l, hl⟩ => Nat.le_of_not_lt fun hlt => ?_, fun h => (hfits h).imp fun _ hl => hl.1⟩
  rw [hover hlt] at hl
  cases hl

theorem firstAlloc_of_addCalls {name message : CStr} {calls : List AddCall} {l : Blacklist}
    (h : addCalls (blacklistCreate name message .list) calls = some l) :
    FirstAlloc l (callEvents calls) := by
  have hfits := (addCalls_create_iff name message calls).mp ⟨l, h⟩
  obtain ⟨l', hl', hfirst⟩ :=
    (addCalls_spec (firstAlloc_create name message) (by simp) calls).1 (by simpa using hfits)
  obtain rfl := Option.some.inj (h.symm.trans hl')
  simpa using hfirst

/-! ## Collapsing -/

def AddCall.Covers (c : AddCall) (x : Nat) : Prop := c.1.1.toNat ≤ x ∧ x < c.1.2.toNat

instance (c : AddCall) (x : Nat) : Decidable (c.Covers x) := inferInstanceAs (Decidable (_ ∧ _))

/-- The addresses of some black call and of no white one, as far as the calls are kept. -/
def callsListed (calls : List AddCall) : Set Nat :=
  {x | (∃ c ∈ calls, c.2 = .black ∧ c.Covers x) ∧ ¬ ∃ c ∈ calls, c.2 = .white ∧ c.Covers x}

theorem AddCall.Covers.kept {c : AddCall} {x : Nat} (h : c.Covers x) : c.kept = true := by
  rw [AddCall.kept, decide_eq_true_eq, BitVec.le_def]
  have := h.1
  have := h.2
  omega

theorem level_black_events {c : AddCall} (h : c.kept = true) (x : Nat) :
    level (·.black) (rangeEvents c.2 c.1) x = if c.2 = .black ∧ c.Covers x then 1 else 0 := by
  rw [AddCall.kept, decide_eq_true_eq, BitVec.le_def] at h
  cases ht : c.2 with
  | white => simp [level, rangeEvents]
  | black =>
    simp only [level, rangeEvents, BlacklistEntry.pos, IpAddr.ofSAddr, IpAddr.sAddr,
      AddCall.Covers, List.map_cons, List.map_nil, List.sum_cons, List.sum_nil, true_and]
    split_ifs <;> omega

theorem level_white_events {c : AddCall} (h : c.kept = true) (x : Nat) :
    level (·.white) (rangeEvents c.2 c.1) x = if c.2 = .white ∧ c.Covers x then 1 else 0 := by
  rw [AddCall.kept, decide_eq_true_eq, BitVec.le_def] at h
  cases ht : c.2 with
  | black => simp [level, rangeEvents]
  | white =>
    simp only [level, rangeEvents, BlacklistEntry.pos, IpAddr.ofSAddr, IpAddr.sAddr,
      AddCall.Covers, List.map_cons, List.map_nil, List.sum_cons, List.sum_nil, true_and]
    split_ifs <;> omega

theorem listed_callEvents (calls : List AddCall) (x : Nat) :
    Listed (callEvents calls) x ↔ x ∈ callsListed calls := by
  have hkept : ∀ c ∈ calls.filter AddCall.kept, c.kept = true := fun c hc => List.of_mem_filter hc
  have hblack := level_flatMap (·.black) fun c hc => level_black_events (hkept c hc) x
  have hwhite := level_flatMap (·.white) fun c hc => level_white_events (hkept c hc) x
  have hmem : ∀ type, (∃ c ∈ calls.filter AddCall.kept, c.2 = type ∧ c.Covers x) ↔
      ∃ c ∈ calls, c.2 = type ∧ c.Covers x := fun type =>
    ⟨fun ⟨c, hc, h⟩ => ⟨c, List.mem_of_mem_filter hc, h⟩,
      fun ⟨c, hc, h⟩ => ⟨c, List.mem_filter.mpr ⟨hc, h.2.kept⟩, h⟩⟩
  rw [Listed, callEvents, hblack.2, ← not_lt, hwhite.2, hmem, hmem]
  rfl

theorem callEvents_closed (calls : List AddCall) :
    ((callEvents calls).map (·.black)).sum = 0 := by
  rw [callEvents]
  induction calls.filter AddCall.kept with
  | nil => rfl
  | cons c rest ih =>
    rw [List.flatMap_cons, List.map_append, List.sum_append, ih]
    cases c.2 <;> simp [rangeEvents]

/-- The groups of one address run off the end of an array that only holds that address. -/
theorem sumGroup_none {addr : BitVec 32} {mem : List BlacklistEntry}
    (h : ∀ e ∈ mem, e.address.sAddr = addr) (i : Nat) (bs ws : Int) :
    sumGroup addr mem i bs ws = none := by
  induction mem generalizing i bs ws with
  | nil => rfl
  | cons e mem ih =>
    rw [List.forall_mem_cons] at h
    cases mem with
    | nil => rfl
    | cons next mem =>
      rw [sumGroup, if_pos (h.2 next List.mem_cons_self)]
      exact ih h.2 _ _ _

/-- What collapsing the calls comes to: NULL for none, the blocks of what they list, and a
walk off the array if no range of them leaves the address zero. -/
theorem collapse_calls (qsort : Qsort BlacklistEntry cmpIpv4Entry) {name message : CStr}
    {calls : List AddCall} {b : Blacklist}
    (hb : addCalls (blacklistCreate name message .list) calls = some b) :
    (calls.filter AddCall.kept = [] ∧ blacklistCollapse qsort b = some (b, none)) ∨
      (calls.filter AddCall.kept ≠ [] ∧ (∀ c ∈ calls.filter AddCall.kept, c.1.2 = 0) ∧
        blacklistCollapse qsort b = none) ∨
      (∃ c ∈ calls.filter AddCall.kept, c.1.2 ≠ 0) ∧ ∃ (b' : Blacklist) (cidrs : List IpCidr),
        blacklistCollapse qsort b = some (b', some (cidrs.map ipCidrToStr)) ∧
        (∀ c ∈ cidrs, c.Aligned) ∧ ∀ x, (∃ c ∈ cidrs, x ∈ c.points) ↔ x ∈ callsListed calls := by
  have hfirst := firstAlloc_of_addCalls hb
  have hcount := hfirst.count
  rw [callEvents_length] at hcount
  by_cases hnone : calls.filter AddCall.kept = []
  · refine .inl ⟨hnone, ?_⟩
    have hempty : b.count = 0 := by rw [hcount, hnone, List.length_nil]
    rw [blacklistCollapse, if_pos hempty]
  · have hpos := List.length_pos_iff.mpr hnone
    by_cases hzero : ∀ c ∈ calls.filter AddCall.kept, c.1.2 = 0
    · refine .inr (.inl ⟨hnone, hzero, ?_⟩)
      have haddr : ∀ e ∈ callEvents calls, e.address.sAddr = 0 := by
        intro e he
        obtain ⟨c, hc, he⟩ := List.mem_flatMap.mp he
        have hend := hzero c hc
        have hle := List.of_mem_filter hc
        rw [AddCall.kept, decide_eq_true_eq, hend] at hle
        have hstart : c.1.1 = 0 := BitVec.le_zero_iff.mp hle
        cases ht : c.2 <;> rw [ht] at he <;>
          simp only [rangeEvents, List.mem_cons, List.not_mem_nil, or_false] at he <;>
          rcases he with rfl | rfl <;> simp [IpAddr.ofSAddr, IpAddr.sAddr, hstart, hend]
      have hmem : ∀ zeros, ∀ e ∈ qsort.run b.entries ++ List.replicate zeros BlacklistEntry.zero,
          e.address.sAddr = 0 := by
        intro zeros e he
        rcases List.mem_append.mp he with he | he
        · exact haddr e (hfirst.entries ▸ (qsort.perm b.entries).mem_iff.mp he)
        · rw [List.eq_of_mem_replicate he]
          rfl
      rw [blacklistCollapse, if_neg (by omega)]
      simp only [Option.map_eq_none_iff]
      generalize b.alloc / BlacklistEntry.sizeof - b.count = zeros
      specialize hmem zeros
      unfold collapseLoop
      rw [if_pos (by omega)]
      split
      · rfl
      · next e mem hcons =>
        rw [hcons] at hmem ⊢
        dsimp only
        rw [hmem e List.mem_cons_self, sumGroup_none hmem]
        rfl
    · push Not at hzero
      refine .inr (.inr ⟨hzero, ?_⟩)
      have hpast : ∃ e ∈ callEvents calls, 0 < e.pos := by
        obtain ⟨c, hc, hend⟩ := hzero
        have hpos' : 0 < c.1.2.toNat := Nat.pos_of_ne_zero fun h => hend (BitVec.eq_of_toNat_eq h)
        have hevent : ∃ e ∈ rangeEvents c.2 c.1, e.pos = c.1.2.toNat := by
          cases c.2 <;> simp [rangeEvents, BlacklistEntry.pos, IpAddr.ofSAddr, IpAddr.sAddr]
        obtain ⟨e, he, hpos⟩ := hevent
        exact ⟨e, List.mem_flatMap.mpr ⟨c, hc, he⟩, hpos ▸ hpos'⟩
      obtain ⟨blocks, hcollapse, hcanon⟩ := collapse_events qsort hfirst
        (fun x => (level_flatMap (·.black) fun c hc =>
          level_black_events (List.of_mem_filter hc) x).1) (callEvents_closed calls) hpast
      have hset : {x | Listed (callEvents calls) x} = callsListed calls :=
        Set.ext fun x => listed_callEvents calls x
      rw [hset] at hcanon
      have hlast : ∀ b ∈ blocks, ∀ x ∈ b.points, x + 1 < 2 ^ 32 := by
        intro block hblock x hx
        obtain ⟨⟨c, -, -, hcov⟩, -⟩ := hcanon.inside block hblock hx
        have := hcov.2
        have := c.1.2.isLt
        omega
      refine ⟨_, blocks.map IpCidr.ofBlock, hcollapse, fun c hc => ?_, fun x => ?_⟩
      · obtain ⟨block, hblock, rfl⟩ := List.mem_map.mp hc
        exact (ofBlock_of_lt (hlast block hblock)).1
      · exact (exists_points_ofBlock hlast x).trans (hcanon.mem_iff x).symm

end Greyd
