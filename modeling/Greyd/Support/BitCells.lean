import Mathlib.Tactic
import Mathlib.Data.List.Basic

/-!
# Cells of bit strings

A cell is a key together with the bit positions in which a query has to agree with
it. Keys arrive one after the other; a key that falls into the cell of another one
either is covered by it and disappears, or cuts the cell in two at the first position
where the two keys differ. Every position tested so far is kept, whatever the order.

`covered_iff` decides, from the keys and positions alone, whether the cells answer
every query that some arrived key should answer.
-/
namespace BitCells

structure Cell (κ : Type*) where
  key : κ
  tested : List ℕ
  deriving DecidableEq

variable {κ : Type*} (bit : κ → ℕ → Bool)

/-- The query carries the key's bit in every tested position. -/
def Cell.Agrees (c : Cell κ) (q : κ) : Prop := ∀ i ∈ c.tested, bit q i = bit c.key i

instance (c : Cell κ) (q : κ) : Decidable (c.Agrees bit q) :=
  inferInstanceAs (Decidable (∀ i ∈ c.tested, _))

/-- The first position below `width` in which two keys differ. -/
def firstDiff (width : ℕ) (a b : κ) : Option ℕ :=
  (List.range width).find? (fun i => bit a i ≠ bit b i)

/-- The two halves of a cell that a new key falls into. -/
def cut (c : Cell κ) (k : κ) (i : ℕ) : List (Cell κ) :=
  [⟨c.key, c.tested ++ [i]⟩, ⟨k, c.tested ++ [i]⟩]

/-- One arrival. The first test of every cell is position 0. -/
def place [DecidableEq κ] (covers : κ → κ → Bool) (width : ℕ) (cells : List (Cell κ)) (k : κ) :
    List (Cell κ) :=
  match cells.find? (fun c => c.Agrees bit k) with
  | none => cells ++ [⟨k, [0]⟩]
  | some c =>
    if covers c.key k then cells
    else match firstDiff bit width c.key k with
      | none => cells
      | some i => cells.filter (· ≠ c) ++ cut c k i

variable {bit}

theorem firstDiff_some {width i : ℕ} {a b : κ} (h : firstDiff bit width a b = some i) :
    i < width ∧ bit a i ≠ bit b i ∧ ∀ j < i, bit a j = bit b j := by
  obtain ⟨hp, hlt⟩ := List.find?_range_eq_some.mp h
  simp only [ne_eq, decide_eq_true_eq] at hp
  refine ⟨List.mem_range.mp hlt.1, hp, fun j hj => ?_⟩
  simpa using hlt.2 j hj

theorem firstDiff_none {width : ℕ} {a b : κ} (h : firstDiff bit width a b = none) :
    ∀ j < width, bit a j = bit b j := by
  intro j hj
  simpa using List.find?_eq_none.mp h j (by simpa using hj)

theorem mem_cut {c c' : Cell κ} {k : κ} {i : ℕ} :
    c' ∈ cut c k i ↔ c'.tested = c.tested ++ [i] ∧ (c'.key = c.key ∨ c'.key = k) := by
  obtain ⟨key, tested⟩ := c'
  simp only [cut, List.mem_cons, Cell.mk.injEq, List.not_mem_nil, or_false]
  tauto

/-- A half agrees with less than the whole. -/
theorem Cell.Agrees.of_cut {c c' : Cell κ} {k q : κ} {i : ℕ} (hk : c.Agrees bit k)
    (hc : c' ∈ cut c k i) (hq : c'.Agrees bit q) : c.Agrees bit q := by
  obtain ⟨ht, hkey⟩ := mem_cut.mp hc
  intro j hj
  have h := hq j (by rw [ht]; exact List.mem_append_left _ hj)
  rcases hkey with hkey | hkey
  · rw [h, hkey]
  · rw [h, hkey, hk j hj]

/-- A query of the whole cell belongs to one of the halves. -/
theorem Cell.Agrees.exists_cut {c : Cell κ} {k q : κ} {i : ℕ} (hk : c.Agrees bit k)
    (hi : bit c.key i ≠ bit k i) (hq : c.Agrees bit q) :
    ∃ c' ∈ cut c k i, c'.Agrees bit q := by
  by_cases hb : bit q i = bit c.key i
  · refine ⟨⟨c.key, c.tested ++ [i]⟩, by simp [cut], ?_⟩
    intro j hj
    rcases List.mem_append.mp hj with hj | hj
    · exact hq j hj
    · obtain rfl := List.mem_singleton.mp hj
      exact hb
  · refine ⟨⟨k, c.tested ++ [i]⟩, by simp [cut], ?_⟩
    intro j hj
    rcases List.mem_append.mp hj with hj | hj
    · exact (hq j hj).trans (hk j hj).symm
    · obtain rfl := List.mem_singleton.mp hj
      show bit q j = bit k j
      cases hqj : bit q j <;> cases hcj : bit c.key j <;> cases hkj : bit k j <;> simp_all

/-- The halves tell their queries apart. -/
theorem cut_apart {c c₁ c₂ : Cell κ} {k q : κ} {i : ℕ} (hi : bit c.key i ≠ bit k i)
    (h₁ : c₁ ∈ cut c k i) (h₂ : c₂ ∈ cut c k i) (hq₁ : c₁.Agrees bit q)
    (hq₂ : c₂.Agrees bit q) : c₁ = c₂ := by
  obtain ⟨ht₁, hk₁⟩ := mem_cut.mp h₁
  obtain ⟨ht₂, hk₂⟩ := mem_cut.mp h₂
  have e₁ := hq₁ i (by rw [ht₁]; simp)
  have e₂ := hq₂ i (by rw [ht₂]; simp)
  obtain ⟨key₁, tested₁⟩ := c₁
  obtain ⟨key₂, tested₂⟩ := c₂
  simp only at ht₁ ht₂ hk₁ hk₂ e₁ e₂
  subst ht₁ ht₂
  rcases hk₁ with rfl | rfl <;> rcases hk₂ with rfl | rfl
  · rfl
  · exact absurd (e₁.symm.trans e₂) hi
  · exact absurd (e₂.symm.trans e₁) hi
  · rfl

/-- Cells that share out the queries: no query belongs to two of them, and where one
side of position 0 has a cell at all, every query of that side has one. -/
structure Tiling (bit : κ → ℕ → Bool) (cells : List (Cell κ)) : Prop where
  zero_mem : ∀ c ∈ cells, 0 ∈ c.tested
  apart : ∀ c ∈ cells, ∀ c' ∈ cells, ∀ q, c.Agrees bit q → c'.Agrees bit q → c = c'
  total : ∀ c ∈ cells, ∀ q, bit q 0 = bit c.key 0 → ∃ c' ∈ cells, c'.Agrees bit q

theorem tiling_nil : Tiling bit [] := ⟨by simp, by simp, by simp⟩

/-- The cell a key falls into, when there is one. -/
theorem Tiling.find?_eq_some {cells : List (Cell κ)} (h : Tiling bit cells) {c : Cell κ} {k : κ}
    (hc : c ∈ cells) (hk : c.Agrees bit k) :
    cells.find? (fun c => c.Agrees bit k) = some c := by
  cases hf : cells.find? (fun c => c.Agrees bit k) with
  | none => simpa [hk] using List.find?_eq_none.mp hf c hc
  | some c' =>
    have hc' := List.mem_of_find?_eq_some hf
    have hk' : c'.Agrees bit k := by simpa using List.find?_some hf
    rw [h.apart c' hc' c hc k hk' hk]

section place
variable {covers : κ → κ → Bool} {width : ℕ} {cells : List (Cell κ)}

theorem place_covered [DecidableEq κ] (h : Tiling bit cells) {c : Cell κ} {k : κ} (hc : c ∈ cells)
    (hk : c.Agrees bit k) (hcov : covers c.key k = true) :
    place bit covers width cells k = cells := by
  simp [place, h.find?_eq_some hc hk, hcov]

theorem place_cut [DecidableEq κ] (h : Tiling bit cells) {c : Cell κ} {k : κ} {i : ℕ} (hc : c ∈ cells)
    (hk : c.Agrees bit k) (hcov : covers c.key k = false)
    (hi : firstDiff bit width c.key k = some i) :
    place bit covers width cells k = cells.filter (· ≠ c) ++ cut c k i := by
  simp [place, h.find?_eq_some hc hk, hcov, hi]

theorem place_fresh [DecidableEq κ] {k : κ} (h : ∀ c ∈ cells, ¬ c.Agrees bit k) :
    place bit covers width cells k = cells ++ [⟨k, [0]⟩] := by
  have hf : cells.find? (fun c => c.Agrees bit k) = none := by
    rw [List.find?_eq_none]
    intro c hc
    simpa using h c hc
  simp [place, hf]

/-- Where a cell comes from after an arrival. -/
theorem mem_place [DecidableEq κ] {k : κ} {c' : Cell κ} (h : c' ∈ place bit covers width cells k) :
    c' ∈ cells ∨ c' = ⟨k, [0]⟩ ∨ ∃ c ∈ cells, covers c.key k = false ∧
      ∃ i, firstDiff bit width c.key k = some i ∧ c' ∈ cut c k i := by
  unfold place at h
  cases hf : cells.find? (fun c => c.Agrees bit k) with
  | none =>
    simp only [hf, List.mem_append, List.mem_singleton] at h
    exact h.elim Or.inl (fun h => Or.inr (Or.inl h))
  | some c =>
    have hc := List.mem_of_find?_eq_some hf
    simp only [hf] at h
    split at h
    · exact Or.inl h
    · rename_i hcov
      cases hi : firstDiff bit width c.key k with
      | none => exact Or.inl (by simpa [hi] using h)
      | some i =>
        simp only [hi, List.mem_append, List.mem_filter] at h
        rcases h with ⟨h, -⟩ | h
        · exact Or.inl h
        · exact Or.inr (Or.inr ⟨c, hc, by simpa using hcov, i, hi, h⟩)

/-- A cut keeps the keys of the cells and adds the new one. -/
theorem exists_key_cut {P : Cell κ → Prop} {c : Cell κ} (hc : P c) (k : κ) (i : ℕ) (x : κ) :
    (∃ c', ((P c' ∧ c' ≠ c) ∨ c' ∈ cut c k i) ∧ c'.key = x) ↔ (∃ c, P c ∧ c.key = x) ∨ x = k := by
  constructor
  · rintro ⟨c', ⟨h, -⟩ | h, rfl⟩
    · exact Or.inl ⟨c', h, rfl⟩
    · rcases (mem_cut.mp h).2 with hkey | hkey
      · exact Or.inl ⟨c, hc, hkey.symm⟩
      · exact Or.inr hkey
  · rintro (⟨c', h, rfl⟩ | rfl)
    · by_cases heq : c' = c
      · subst heq
        exact ⟨⟨c'.key, c'.tested ++ [i]⟩, Or.inr (by simp [cut]), rfl⟩
      · exact ⟨c', Or.inl ⟨h, heq⟩, rfl⟩
    · exact ⟨⟨x, c.tested ++ [i]⟩, Or.inr (by simp [cut]), rfl⟩

/-- Where keys cover only themselves, an arrival adds its key and loses none. -/
theorem exists_key_place [DecidableEq κ] {k : κ}
    (hcov : ∀ c ∈ cells, covers c.key k = true → c.key = k)
    (hdiff : ∀ c ∈ cells, covers c.key k = false → ∃ i, firstDiff bit width c.key k = some i) (x : κ) :
    (∃ c ∈ place bit covers width cells k, c.key = x) ↔ (∃ c ∈ cells, c.key = x) ∨ x = k := by
  unfold place
  cases hf : cells.find? (fun c => c.Agrees bit k) with
  | none => simp [or_and_right, exists_or, eq_comm]
  | some c =>
    have hc := List.mem_of_find?_eq_some hf
    dsimp only
    by_cases hcv : covers c.key k = true
    · rw [if_pos hcv]
      have hk := hcov c hc hcv
      exact ⟨Or.inl, fun h => h.elim id fun h => ⟨c, hc, hk.trans h.symm⟩⟩
    · obtain ⟨i, hi⟩ := hdiff c hc (by simpa using hcv)
      rw [if_neg hcv, hi]
      simp only [List.mem_append, List.mem_filter, decide_eq_true_eq]
      exact exists_key_cut hc k i x

/-- No arrival loses a key. -/
theorem exists_key_place_of_mem [DecidableEq κ] {x : κ} (hx : ∃ c ∈ cells, c.key = x) (k : κ) :
    ∃ c ∈ place bit covers width cells k, c.key = x := by
  unfold place
  cases hf : cells.find? (fun c => c.Agrees bit k) with
  | none =>
    obtain ⟨c, hc, hkey⟩ := hx
    exact ⟨c, List.mem_append_left _ hc, hkey⟩
  | some c =>
    have hc := List.mem_of_find?_eq_some hf
    dsimp only
    split
    · exact hx
    · split
      · exact hx
      · simp only [List.mem_append, List.mem_filter, decide_eq_true_eq]
        exact (exists_key_cut hc k _ x).mpr (.inl hx)

theorem place_ne_nil [DecidableEq κ] (k : κ) : place bit covers width cells k ≠ [] := by
  unfold place
  cases hf : cells.find? (fun c => c.Agrees bit k) with
  | none => simp
  | some c =>
    have hne := List.ne_nil_of_mem (List.mem_of_find?_eq_some hf)
    dsimp only
    split
    · exact hne
    · split
      · exact hne
      · simp [cut]

private theorem tiling_cut [DecidableEq κ] (h : Tiling bit cells) {c : Cell κ} {k : κ} {i : ℕ} (hc : c ∈ cells)
    (hk : c.Agrees bit k) (hi : bit c.key i ≠ bit k i) :
    Tiling bit (cells.filter (· ≠ c) ++ cut c k i) := by
  have hmem : ∀ c', c' ∈ cells.filter (· ≠ c) ++ cut c k i ↔
      (c' ∈ cells ∧ c' ≠ c) ∨ c' ∈ cut c k i := by
    intro c'; simp [List.mem_append, List.mem_filter]
  constructor
  · intro c' hc'
    rcases (hmem c').mp hc' with ⟨hin, -⟩ | hcut
    · exact h.zero_mem c' hin
    · rw [(mem_cut.mp hcut).1]
      exact List.mem_append_left _ (h.zero_mem c hc)
  · intro c₁ h₁ c₂ h₂ q hq₁ hq₂
    rcases (hmem c₁).mp h₁ with ⟨hin₁, hne₁⟩ | hcut₁ <;>
      rcases (hmem c₂).mp h₂ with ⟨hin₂, hne₂⟩ | hcut₂
    · exact h.apart c₁ hin₁ c₂ hin₂ q hq₁ hq₂
    · exact absurd (h.apart c₁ hin₁ c hc q hq₁ (hk.of_cut hcut₂ hq₂)) hne₁
    · exact absurd (h.apart c₂ hin₂ c hc q hq₂ (hk.of_cut hcut₁ hq₁)) hne₂
    · exact cut_apart hi hcut₁ hcut₂ hq₁ hq₂
  · intro c₁ h₁ q hq
    have hside : ∃ c₀ ∈ cells, bit q 0 = bit c₀.key 0 := by
      rcases (hmem c₁).mp h₁ with ⟨hin, -⟩ | hcut
      · exact ⟨c₁, hin, hq⟩
      · rcases (mem_cut.mp hcut).2 with hkey | hkey
        · exact ⟨c, hc, hkey ▸ hq⟩
        · exact ⟨c, hc, by rw [hq, hkey, hk 0 (h.zero_mem c hc)]⟩
    obtain ⟨c₀, hc₀, hq₀⟩ := hside
    obtain ⟨c', hc', hq'⟩ := h.total c₀ hc₀ q hq₀
    by_cases he : c' = c
    · obtain ⟨c'', hc'', hq''⟩ := hk.exists_cut hi (he ▸ hq')
      exact ⟨c'', (hmem c'').mpr (Or.inr hc''), hq''⟩
    · exact ⟨c', (hmem c').mpr (Or.inl ⟨hc', he⟩), hq'⟩

private theorem tiling_fresh (h : Tiling bit cells) {k : κ} (hk : ∀ c ∈ cells, ¬ c.Agrees bit k) :
    Tiling bit (cells ++ [⟨k, [0]⟩]) := by
  -- no old cell lies on the side of the new key, or the key would have a cell
  have hside : ∀ c ∈ cells, bit k 0 ≠ bit c.key 0 := by
    intro c hc he
    obtain ⟨c', hc', hq'⟩ := h.total c hc k he
    exact hk c' hc' hq'
  have hnew : ∀ q, (⟨k, [0]⟩ : Cell κ).Agrees bit q ↔ bit q 0 = bit k 0 := by
    intro q; simp [Cell.Agrees]
  constructor
  · intro c hc
    rcases List.mem_append.mp hc with hc | hc
    · exact h.zero_mem c hc
    · simp [List.mem_singleton.mp hc]
  · intro c₁ h₁ c₂ h₂ q hq₁ hq₂
    rcases List.mem_append.mp h₁ with h₁ | h₁ <;> rcases List.mem_append.mp h₂ with h₂ | h₂
    · exact h.apart c₁ h₁ c₂ h₂ q hq₁ hq₂
    · obtain rfl := List.mem_singleton.mp h₂
      exact absurd (((hnew q).mp hq₂).symm.trans (hq₁ 0 (h.zero_mem c₁ h₁))) (hside c₁ h₁)
    · obtain rfl := List.mem_singleton.mp h₁
      exact absurd (((hnew q).mp hq₁).symm.trans (hq₂ 0 (h.zero_mem c₂ h₂))) (hside c₂ h₂)
    · rw [List.mem_singleton.mp h₁, List.mem_singleton.mp h₂]
  · intro c hc q hq
    rcases List.mem_append.mp hc with hc | hc
    · obtain ⟨c', hc', hq'⟩ := h.total c hc q hq
      exact ⟨c', List.mem_append_left _ hc', hq'⟩
    · obtain rfl := List.mem_singleton.mp hc
      exact ⟨⟨k, [0]⟩, by simp, (hnew q).mpr hq⟩

/-- Arrivals keep the tiling. -/
theorem Tiling.place [DecidableEq κ] (h : Tiling bit cells) (k : κ) :
    Tiling bit (place bit covers width cells k) := by
  by_cases hex : ∃ c ∈ cells, c.Agrees bit k
  · obtain ⟨c, hc, hk⟩ := hex
    unfold BitCells.place
    rw [h.find?_eq_some hc hk]
    dsimp only
    split
    · exact h
    · split
      · exact h
      · rename_i i hi
        exact tiling_cut h hc hk (firstDiff_some hi).2.1
  · push Not at hex
    rw [place_fresh hex]
    exact tiling_fresh h hex

end place

/-! ## Which cells answer for whom -/

section coverage
variable (fixes : κ → ℕ → Prop)

/-- The query carries the key's bit in every position the key fixes. -/
def InNet (bit : κ → ℕ → Bool) (k q : κ) : Prop := ∀ i, fixes k i → bit q i = bit k i

/-- The cell loses no query of `e`: either `e` never comes here, for it fixes a tested
position the other way, or every position the cell's key fixes has been tested or is
fixed alike by `e`. -/
def Safe (bit : κ → ℕ → Bool) (e : κ) (c : Cell κ) : Prop :=
  (∃ i ∈ c.tested, fixes e i ∧ bit e i ≠ bit c.key i) ∨
    ∀ i, fixes c.key i → i ∈ c.tested ∨ (fixes e i ∧ bit e i = bit c.key i)

variable {fixes}

/-- A query of `e` that comes to a safe cell is answered there. -/
theorem inNet_of_safe {e q : κ} {c : Cell κ} (hs : Safe fixes bit e c) (hq : c.Agrees bit q)
    (he : InNet fixes bit e q) : InNet fixes bit c.key q := by
  rcases hs with ⟨i, hi, hfix, hne⟩ | hs
  · exact absurd ((he i hfix).symm.trans (hq i hi)) hne
  · intro i hi
    rcases hs i hi with ht | ⟨hfix, heq⟩
    · exact hq i ht
    · rw [he i hfix, heq]

/-- An unsafe cell loses a query of `e`, provided queries can carry any bits in the
positions that keys fix and agree with the cell in its other tested positions. -/
theorem exists_lost {queries : κ → Prop} {e : κ} {c : Cell κ} (free : ℕ → Prop)
    (hany : ∀ f : ℕ → Bool, ∃ q, queries q ∧ ∀ i, free i → bit q i = f i)
    (hrest : ∀ q, queries q → ∀ i ∈ c.tested, ¬ free i → bit q i = bit c.key i)
    (he : ∀ i, fixes e i → free i) (hkey : ∀ i, fixes c.key i → free i)
    (hs : ¬ Safe fixes bit e c) :
    ∃ q, queries q ∧ InNet fixes bit e q ∧ c.Agrees bit q ∧ ¬ InNet fixes bit c.key q := by
  classical
  simp only [Safe, not_or, not_exists, not_and, not_not, not_forall] at hs
  obtain ⟨hagree, j, hj, hjt, hje⟩ := hs
  -- follow the cell where it looks, `e` where it is bound, and leave the key elsewhere
  obtain ⟨q, hq, hf⟩ := hany (fun i =>
    if i ∈ c.tested then bit c.key i else if fixes e i then bit e i else !bit c.key i)
  refine ⟨q, hq, ?_, ?_, ?_⟩
  · intro i hi
    rw [hf i (he i hi)]
    by_cases ht : i ∈ c.tested
    · simp only [ht, ↓reduceIte]; exact (hagree i ht hi).symm
    · simp [ht, hi]
  · intro i hi
    by_cases hfree : free i
    · rw [hf i hfree]; simp [hi]
    · exact hrest q hq i hi hfree
  · intro hin
    have h := hin j hj
    rw [hf j (hkey j hj)] at h
    by_cases hfe : fixes e j
    · simp only [hjt, ↓reduceIte, hfe] at h
      exact hje hfe h
    · simp [hjt, hfe] at h

/-- The cells answer every query that some arrived key should answer exactly when no
cell loses a query of an arrived key. -/
theorem covered_iff {queries : κ → Prop} {cells : List (Cell κ)} {es : List κ} (free : ℕ → Prop)
    (ht : Tiling bit cells)
    (hany : ∀ f : ℕ → Bool, ∃ q, queries q ∧ ∀ i, free i → bit q i = f i)
    (hrest : ∀ q, queries q → ∀ c ∈ cells, ∀ i ∈ c.tested, ¬ free i → bit q i = bit c.key i)
    (htotal : ∀ q, queries q → ∀ e ∈ es, ∃ c ∈ cells, c.Agrees bit q)
    (hes : ∀ e ∈ es, ∀ i, fixes e i → free i) (hcells : ∀ c ∈ cells, ∀ i, fixes c.key i → free i) :
    (∀ q, queries q → (∃ e ∈ es, InNet fixes bit e q) →
        ∃ c ∈ cells, c.Agrees bit q ∧ InNet fixes bit c.key q) ↔
      ∀ e ∈ es, ∀ c ∈ cells, Safe fixes bit e c := by
  constructor
  · intro h e he c hc
    by_contra hs
    obtain ⟨q, hq, hin, hag, hout⟩ := exists_lost free hany
      (fun q hq => hrest q hq c hc) (hes e he) (hcells c hc) hs
    obtain ⟨c', hc', hag', hin'⟩ := h q hq ⟨e, he, hin⟩
    obtain rfl := ht.apart c hc c' hc' q hag hag'
    exact hout hin'
  · rintro h q hq ⟨e, he, hin⟩
    obtain ⟨c, hc, hag⟩ := htotal q hq e he
    exact ⟨c, hc, hag, inNet_of_safe (h e he c hc) hag hin⟩

end coverage

/-! ## Queries that are alike in some positions -/

section alike
variable (fixes : κ → ℕ → Prop) (free : ℕ → Prop) (queries : κ → Prop)

/-- A query that the cell answers carries the key's bit in these positions. -/
def Cell.Binds (c : Cell κ) (i : ℕ) : Prop := fixes c.key i ∨ i ∈ c.tested

/-- No query that is alike one answered by `c` comes to `c'`, or every position that the key
of `c'` fixes has been tested there or is bound alike by `c`. -/
def Yields (bit : κ → ℕ → Bool) (c c' : Cell κ) : Prop :=
  (∃ i ∈ c'.tested, free i ∧ c.Binds fixes i ∧ bit c.key i ≠ bit c'.key i) ∨
    ∀ i, fixes c'.key i → i ∈ c'.tested ∨ (c.Binds fixes i ∧ bit c.key i = bit c'.key i)

/-- Whatever free bits the tests of the cell allow, some query with them comes to it. -/
def Cell.Open (bit : κ → ℕ → Bool) (c : Cell κ) : Prop :=
  ∀ f : ℕ → Bool, (∀ i ∈ c.tested, free i → f i = bit c.key i) →
    ∃ q, queries q ∧ (∀ i, free i → bit q i = f i) ∧ c.Agrees bit q

variable {fixes free queries}

/-- A query that is alike one answered by `c` is answered where it comes to `c'`. -/
theorem inNet_of_yields {c c' : Cell κ} {q q' : κ} (hy : Yields fixes free bit c c')
    (hfree' : ∀ i, fixes c'.key i → free i) (halike : ∀ i, free i → bit q i = bit q' i)
    (hq : c.Agrees bit q) (hq' : c'.Agrees bit q') (hin : InNet fixes bit c.key q) :
    InNet fixes bit c'.key q' := by
  have hbound : ∀ i, c.Binds fixes i → bit q i = bit c.key i := fun i hi => hi.elim (hin i) (hq i)
  rcases hy with ⟨i, hi, hfree, hbinds, hne⟩ | hy
  · refine absurd ?_ hne
    rw [← hbound i hbinds, halike i hfree, hq' i hi]
  · intro i hi
    rcases hy i hi with ht | ⟨hbinds, heq⟩
    · exact hq' i ht
    · rw [← halike i (hfree' i hi), hbound i hbinds, heq]

/-- Alike queries that come to the one and to the other cell are answered alike there exactly
when the cells yield to each other. -/
theorem yields_iff {c c' : Cell κ} (hopen : c.Open free queries bit) (hopen' : c'.Open free queries bit)
    (hfree : ∀ i, fixes c.key i → free i) (hfree' : ∀ i, fixes c'.key i → free i) :
    (∀ q q', queries q → queries q' → (∀ i, free i → bit q i = bit q' i) → c.Agrees bit q →
        c'.Agrees bit q' → InNet fixes bit c.key q → InNet fixes bit c'.key q') ↔
      Yields fixes free bit c c' := by
  classical
  constructor
  · intro h
    by_contra hy
    simp only [Yields, not_or, not_exists, not_and, not_not, not_forall] at hy
    obtain ⟨hagree, j, hj, hjt, hje⟩ := hy
    -- follow `c'` where it looks, `c` where it is bound, and leave the key of `c'` elsewhere
    let f : ℕ → Bool := fun i => if i ∈ c'.tested then bit c'.key i
      else if c.Binds fixes i then bit c.key i else !bit c'.key i
    have hbound : ∀ i, free i → c.Binds fixes i → f i = bit c.key i := by
      intro i hi hbinds
      by_cases ht : i ∈ c'.tested
      · simp only [f, ht, ↓reduceIte]
        exact (hagree i ht hi hbinds).symm
      · simp only [f, ht, hbinds, ↓reduceIte]
    obtain ⟨q, hq, hqf, hag⟩ := hopen f fun i hi hfi => hbound i hfi (.inr hi)
    obtain ⟨q', hq', hqf', hag'⟩ := hopen' f fun i hi _ => by simp only [f, hi, ↓reduceIte]
    have hin : InNet fixes bit c.key q := fun i hi => by
      rw [hqf i (hfree i hi), hbound i (hfree i hi) (.inl hi)]
    have hin' := h q q' hq hq' (fun i hi => by rw [hqf i hi, hqf' i hi]) hag hag' hin j hj
    rw [hqf' j (hfree' j hj)] at hin'
    by_cases hbinds : c.Binds fixes j
    · simp only [f, hjt, hbinds, ↓reduceIte] at hin'
      exact hje hbinds hin'
    · simp [f, hjt, hbinds] at hin'
  · intro hy q q' _ _ halike hq hq' hin
    exact inNet_of_yields hy hfree' halike hq hq' hin

end alike

end BitCells
