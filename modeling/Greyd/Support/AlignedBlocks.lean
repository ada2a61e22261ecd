import Mathlib.Tactic
import Mathlib.Order.Interval.Set.Basic
import Mathlib.Data.List.Pairwise
import Mathlib.Data.List.Perm.Basic

/-!
# Aligned blocks

A block of size `2 ^ size` starts at a multiple of its size, so two blocks are nested or
apart. A set of numbers has at most one ordered list of its maximal blocks, no list of
blocks with the same union is shorter, and inside an interval the maximal blocks are the
ones a greedy walk from the left picks.
-/
namespace AlignedBlocks

@[ext]
structure Block where
  start : ℕ
  size : ℕ
  aligned : 2 ^ size ∣ start

namespace Block

def stop (b : Block) : ℕ := b.start + 2 ^ b.size

def points (b : Block) : Set ℕ := Set.Ico b.start b.stop

theorem start_lt_stop (b : Block) : b.start < b.stop :=
  Nat.lt_add_of_pos_right (Nat.two_pow_pos b.size)

theorem start_mem (b : Block) : b.start ∈ b.points := ⟨le_refl _, b.start_lt_stop⟩

def unit (x : ℕ) : Block := ⟨x, 0, by simp⟩

theorem unit_points (x : ℕ) : (unit x).points = {x} := by
  ext y
  simp only [points, unit, stop, Set.mem_Ico, Set.mem_singleton_iff, pow_zero]
  omega

/-- Blocks that meet are nested. -/
theorem points_subset {a b : Block} (hsize : a.size ≤ b.size) {x : ℕ} (ha : x ∈ a.points)
    (hb : x ∈ b.points) : a.points ⊆ b.points := by
  obtain ⟨p, hp⟩ := a.aligned
  obtain ⟨q, hq⟩ := b.aligned
  obtain ⟨d, hd⟩ := Nat.exists_eq_add_of_le hsize
  rw [hd, pow_add, mul_assoc] at hq
  have hastop : a.stop = 2 ^ a.size * (p + 1) := by rw [stop, hp]; ring
  have hbstop : b.stop = 2 ^ a.size * (2 ^ d * q + 2 ^ d) := by rw [stop, hq, hd, pow_add]; ring
  have hlo : 2 ^ d * q < p + 1 := by
    refine Nat.lt_of_mul_lt_mul_left (a := 2 ^ a.size) ?_
    rw [← hq, ← hastop]
    exact lt_of_le_of_lt hb.1 ha.2
  have hhi : p < 2 ^ d * q + 2 ^ d := by
    refine Nat.lt_of_mul_lt_mul_left (a := 2 ^ a.size) ?_
    rw [← hp, ← hbstop]
    exact lt_of_le_of_lt ha.1 hb.2
  refine Set.Ico_subset_Ico ?_ ?_
  · rw [hp, hq]
    exact Nat.mul_le_mul_left _ (by omega)
  · rw [hastop, hbstop]
    exact Nat.mul_le_mul_left _ (by omega)

theorem eq_of_points_subset {a b : Block} (hab : a.points ⊆ b.points) (hba : b.points ⊆ a.points) :
    a = b := by
  have hs : a.start = b.start := le_antisymm (hba b.start_mem).1 (hab a.start_mem).1
  have hlast : ∀ c : Block, c.stop - 1 ∈ c.points := by
    intro c
    have := c.start_lt_stop
    constructor <;> omega
  have ha := (hab (hlast a)).2
  have hb := (hba (hlast b)).2
  have hstop : a.stop = b.stop := by
    have := a.start_lt_stop
    have := b.start_lt_stop
    omega
  have hpow : 2 ^ a.size = 2 ^ b.size := by
    simp only [stop, hs] at hstop
    omega
  exact Block.ext hs (Nat.pow_right_injective (le_refl 2) hpow)

end Block

/-- The maximal blocks of a set, in increasing order. -/
structure Canonical (S : Set ℕ) (bs : List Block) : Prop where
  ordered : bs.Pairwise (fun a b => a.stop ≤ b.start)
  inside : ∀ b ∈ bs, b.points ⊆ S
  maximal : ∀ c : Block, c.points ⊆ S → ∃ b ∈ bs, c.points ⊆ b.points

theorem canonical_nil : Canonical ∅ [] := by
  refine ⟨.nil, by simp, fun c hc => absurd (hc c.start_mem) (by simp)⟩

section canonical
variable {S T : Set ℕ} {bs cs : List Block}

theorem Canonical.mem_iff (h : Canonical S bs) (x : ℕ) : x ∈ S ↔ ∃ b ∈ bs, x ∈ b.points := by
  constructor
  · intro hx
    obtain ⟨b, hb, hsub⟩ := h.maximal (.unit x) (by simpa [Block.unit_points] using hx)
    exact ⟨b, hb, hsub (by simp [Block.unit_points])⟩
  · rintro ⟨b, hb, hx⟩
    exact h.inside b hb hx

/-- Listed blocks that meet are the same. -/
theorem Canonical.eq_of_mem (h : Canonical S bs) {a b : Block} (ha : a ∈ bs) (hb : b ∈ bs) {x : ℕ}
    (hxa : x ∈ a.points) (hxb : x ∈ b.points) : a = b := by
  have hsep : bs.Pairwise (fun a b => x ∈ a.points → x ∈ b.points → a = b) :=
    h.ordered.imp fun hab hxa hxb =>
      absurd (lt_of_lt_of_le hxa.2 hab) (Nat.not_lt.mpr hxb.1)
  have hflip : bs.Pairwise (flip fun a b => x ∈ a.points → x ∈ b.points → a = b) :=
    hsep.imp fun hab hxb hxa => (hab hxa hxb).symm
  exact List.Pairwise.forall_of_forall_of_flip (fun _ _ _ _ => rfl) hsep hflip ha hb hxa hxb

/-- No other block of the set contains a listed one. -/
theorem Canonical.eq_of_subset (h : Canonical S bs) {b c : Block} (hb : b ∈ bs) (hc : c.points ⊆ S)
    (hbc : b.points ⊆ c.points) : b = c := by
  obtain ⟨b', hb', hcb'⟩ := h.maximal c hc
  obtain rfl : b = b' := h.eq_of_mem hb hb' b.start_mem (hcb' (hbc b.start_mem))
  exact Block.eq_of_points_subset hbc hcb'

theorem Canonical.mem_of_mem (hb : Canonical S bs) (hc : Canonical S cs) {b : Block} (h : b ∈ bs) :
    b ∈ cs := by
  obtain ⟨c, hmem, hsub⟩ := hc.maximal b (hb.inside b h)
  rw [hb.eq_of_subset h (hc.inside c hmem) hsub]
  exact hmem

theorem Canonical.nodup (h : Canonical S bs) : bs.Nodup :=
  h.ordered.imp fun {a b} hab => by
    rintro rfl
    have := a.start_lt_stop
    omega

/-- A set has at most one canonical list. -/
theorem Canonical.unique (hb : Canonical S bs) (hc : Canonical S cs) : bs = cs := by
  have hperm : bs.Perm cs := (List.perm_ext_iff_of_nodup hb.nodup hc.nodup).mpr
    fun b => ⟨hb.mem_of_mem hc, hc.mem_of_mem hb⟩
  refine hperm.eq_of_pairwise (fun a b _ _ hab hba => ?_) hb.ordered hc.ordered
  have := a.start_lt_stop
  have := b.start_lt_stop
  omega

/-- No list of blocks with the same union is shorter. -/
theorem Canonical.length_le (h : Canonical S bs) {ds : List Block}
    (hds : ∀ x, x ∈ S ↔ ∃ d ∈ ds, x ∈ d.points) : bs.length ≤ ds.length := by
  classical
  -- the block that covers the first point of a listed block lies inside it
  have hpick : ∀ b ∈ bs, ∃ d ∈ ds, b.start ∈ d.points ∧ d.points ⊆ b.points := by
    intro b hb
    obtain ⟨d, hd, hstart⟩ := (hds b.start).mp (h.inside b hb b.start_mem)
    obtain ⟨b', hb', hsub⟩ := h.maximal d fun x hx => (hds x).mpr ⟨d, hd, hx⟩
    obtain rfl : b = b' := h.eq_of_mem hb hb' b.start_mem (hsub hstart)
    exact ⟨d, hd, hstart, hsub⟩
  choose! pick hmem hstart hsub using hpick
  have hinj : ∀ b ∈ bs, ∀ b' ∈ bs, pick b = pick b' → b = b' := fun b hb b' hb' he =>
    h.eq_of_mem hb hb' b.start_mem (hsub b' hb' (he ▸ hstart b hb))
  have hnodup : (bs.map pick).Nodup := h.nodup.map_on hinj
  calc bs.length = (bs.map pick).length := (List.length_map _).symm
    _ ≤ ds.length := (hnodup.subperm fun d hd => by
        obtain ⟨b, hb, rfl⟩ := List.mem_map.mp hd
        exact hmem b hb).length_le

/-- Sets with a gap between them. -/
theorem Canonical.append (gap : ℕ) (hb : Canonical S bs) (hc : Canonical T cs)
    (hS : ∀ x ∈ S, x < gap) (hT : ∀ x ∈ T, gap < x) : Canonical (S ∪ T) (bs ++ cs) := by
  refine ⟨List.pairwise_append.mpr ⟨hb.ordered, hc.ordered, fun a ha b hbc => ?_⟩, fun b hmem => ?_,
    fun c hsub => ?_⟩
  · have hlast : a.stop - 1 ∈ a.points := by
      have := a.start_lt_stop
      constructor <;> omega
    have := hS _ (hb.inside a ha hlast)
    have := hT _ (hc.inside b hbc b.start_mem)
    omega
  · rcases List.mem_append.mp hmem with hmem | hmem
    · exact (hb.inside b hmem).trans Set.subset_union_left
    · exact (hc.inside b hmem).trans Set.subset_union_right
  · have hgap : gap ∉ c.points := by
      intro hx
      rcases hsub hx with h | h
      · exact absurd (hS _ h) (lt_irrefl _)
      · exact absurd (hT _ h) (lt_irrefl _)
    by_cases hlt : c.start < gap
    · have hstop : c.stop ≤ gap := by
        by_contra hlt'
        exact hgap ⟨hlt.le, by omega⟩
      obtain ⟨b, hmem, hcb⟩ := hb.maximal c fun x hx => (hsub hx).resolve_right fun h => by
        have := hT x h
        have := hx.2
        omega
      exact ⟨b, List.mem_append_left _ hmem, hcb⟩
    · obtain ⟨b, hmem, hcb⟩ := hc.maximal c fun x hx => (hsub hx).resolve_left fun h => by
        have := hS x h
        have := hx.1
        omega
      exact ⟨b, List.mem_append_right _ hmem, hcb⟩

end canonical

/-! ## Intervals -/

/-- A maximal interval of a set. -/
structure MaxInterval (S : Set ℕ) (lo hi : ℕ) : Prop where
  lt : lo < hi
  subset : Set.Ico lo hi ⊆ S
  stop : hi ∉ S
  start : ∀ x, x + 1 = lo → x ∉ S

/-- Inside a maximal interval the canonical list of the set is that of the interval. -/
theorem Canonical.interval {S : Set ℕ} {bs : List Block} {lo hi : ℕ} (h : Canonical S bs)
    (hI : MaxInterval S lo hi) :
    Canonical (Set.Ico lo hi) (bs.filter (fun b => lo ≤ b.start ∧ b.stop ≤ hi)) := by
  refine ⟨h.ordered.filter _, fun b hb => ?_, fun c hc => ?_⟩
  · have hb := of_decide_eq_true (List.mem_filter.mp hb).2
    exact Set.Ico_subset_Ico hb.1 hb.2
  · obtain ⟨b, hb, hcb⟩ := h.maximal c (hc.trans hI.subset)
    have hstart := hc c.start_mem
    have hmem := hcb c.start_mem
    have hlo : lo ≤ b.start := by
      by_contra hlt
      have hx : lo - 1 ∈ b.points := ⟨by omega, by have := hmem.2; have := hstart.1; omega⟩
      exact hI.start (lo - 1) (by omega) (h.inside b hb hx)
    have hhi : b.stop ≤ hi := by
      by_contra hlt
      exact hI.stop (h.inside b hb ⟨by have := hmem.1; have := hstart.2; omega, by omega⟩)
    exact ⟨b, List.mem_filter.mpr ⟨hb, decide_eq_true ⟨hlo, hhi⟩⟩, hcb⟩

/-- The largest block at the left end of an interval. -/
structure Largest (lo hi : ℕ) (b : Block) : Prop where
  start : b.start = lo
  fits : b.stop ≤ hi
  size_le : ∀ c : Block, c.start = lo → c.stop ≤ hi → c.size ≤ b.size

/-- The walk that takes the largest block from the left each time. -/
inductive Greedy : ℕ → ℕ → List Block → Prop
  | done (lo : ℕ) : Greedy lo lo []
  | step {lo hi : ℕ} {b : Block} {bs : List Block} (hb : Largest lo hi b)
      (h : Greedy b.stop hi bs) : Greedy lo hi (b :: bs)

theorem Greedy.le {lo hi : ℕ} {bs : List Block} (h : Greedy lo hi bs) : lo ≤ hi := by
  induction h with
  | done => exact le_refl _
  | @step lo hi b bs hb _ ih =>
    have := b.start_lt_stop
    have := hb.start
    omega

theorem Greedy.start_ge {lo hi : ℕ} {bs : List Block} (h : Greedy lo hi bs) :
    ∀ b ∈ bs, lo ≤ b.start ∧ b.stop ≤ hi := by
  induction h with
  | done => simp
  | @step lo hi b bs hb h ih =>
    intro c hc
    rcases List.mem_cons.mp hc with rfl | hc
    · exact ⟨hb.start.ge, hb.fits⟩
    · have := b.start_lt_stop
      have := hb.start
      have := ih c hc
      omega

/-- The greedy walk finds the maximal blocks: a larger block around one of its blocks
would have been taken when the walk reached that block's start. -/
theorem Greedy.canonical {lo hi : ℕ} {bs : List Block} (h : Greedy lo hi bs) :
    Canonical (Set.Ico lo hi) bs := by
  refine ⟨?_, fun b hb => Set.Ico_subset_Ico (h.start_ge b hb).1 (h.start_ge b hb).2,
    fun c hc => ?_⟩
  · induction h with
    | done => exact .nil
    | @step lo hi b bs hb h ih => exact .cons (fun c hc => (h.start_ge c hc).1) ih
  · have hstart : lo ≤ c.start := (hc c.start_mem).1
    have hstop : c.stop ≤ hi := by
      have hlast : c.stop - 1 ∈ c.points := by
        have := c.start_lt_stop
        constructor <;> omega
      have := (hc hlast).2
      omega
    clear hc
    induction h with
    | done =>
      have := c.start_lt_stop
      omega
    | @step lo hi b bs hb h ih =>
      by_cases hge : b.stop ≤ c.start
      · obtain ⟨b', hb', hsub⟩ := ih hge hstop
        exact ⟨b', List.mem_cons_of_mem _ hb', hsub⟩
      · have hmeet : c.start ∈ b.points := ⟨hb.start.trans_le hstart, by omega⟩
        refine ⟨b, List.mem_cons_self, ?_⟩
        by_cases hsize : c.size ≤ b.size
        · exact Block.points_subset hsize c.start_mem hmeet
        · have hsub := Block.points_subset (by omega) hmeet c.start_mem
          have hle : c.start ≤ lo := hb.start ▸ (hsub b.start_mem).1
          exact absurd (hb.size_le c (le_antisymm hle hstart) hstop) hsize

end AlignedBlocks
