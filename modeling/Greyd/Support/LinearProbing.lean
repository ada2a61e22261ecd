import Mathlib.Tactic
import Mathlib.Data.List.Basic
import Mathlib.Data.List.Nodup

/-!
# Linear probing

A table is a list of slots. The search for a key starts at the slot its hash selects and
goes round until it meets the key or a free slot. In a probed table no free slot lies
between the start of a key's search and the slot that holds the key, so the search finds
it; storing at the slot that a search stops at keeps the table probed.
-/
namespace LinearProbing

variable {κ α : Type*}

/-- The slot holds something under another key. -/
def Passes (slots : List (Option (κ × α))) (key : κ) (i : ℕ) : Prop :=
  ∃ k v, slots[i]? = some (some (k, v)) ∧ k ≠ key

/-- The `t`-th slot of a search. -/
def nth (hash : κ → ℕ) (slots : List (Option (κ × α))) (key : κ) (t : ℕ) : ℕ :=
  (hash key + t) % slots.length

/-- A search for the key stops at slot `i`. -/
structure Found (hash : κ → ℕ) (slots : List (Option (κ × α))) (key : κ) (i : ℕ) : Prop where
  lt : i < slots.length
  stops : ¬ Passes slots key i
  path : ∃ t, i = nth hash slots key t ∧ ∀ t' < t, Passes slots key (nth hash slots key t')

/-- Every stored key is where a search for it stops. -/
def Probed (hash : κ → ℕ) (slots : List (Option (κ × α))) : Prop :=
  ∀ i k v, slots[i]? = some (some (k, v)) → Found hash slots k i

/-- The table holds the value under the key. -/
def Content (slots : List (Option (κ × α))) (k : κ) (v : α) : Prop :=
  ∃ i : ℕ, slots[i]? = some (some (k, v))

theorem content_iff_mem {slots : List (Option (κ × α))} {k : κ} {v : α} :
    Content slots k v ↔ some (k, v) ∈ slots := by
  rw [Content, List.mem_iff_getElem?]

theorem not_passes_of_slot {slots : List (Option (κ × α))} {k : κ} {v : α} {i : ℕ}
    (h : slots[i]? = some (some (k, v))) : ¬ Passes slots k i := by
  rintro ⟨k', v', h', hne⟩
  rw [h] at h'
  exact hne (by simpa using congrArg (Option.map (Option.map Prod.fst)) h'.symm)

section
variable {hash : κ → ℕ} {slots : List (Option (κ × α))}

/-- A search stops at one slot only. -/
theorem Found.unique {key : κ} {i j : ℕ} (hi : Found hash slots key i) (hj : Found hash slots key j) :
    i = j := by
  obtain ⟨t, rfl, ht⟩ := hi.path
  obtain ⟨u, rfl, hu⟩ := hj.path
  rcases lt_trichotomy t u with hlt | rfl | hlt
  · exact absurd (hu t hlt) hi.stops
  · rfl
  · exact absurd (ht u hlt) hj.stops

/-- A search stops at the key or, when the key is not stored, at a free slot. -/
theorem Found.slot {key : κ} {i : ℕ} (hp : Probed hash slots) (h : Found hash slots key i) :
    (∃ v, slots[i]? = some (some (key, v))) ∨ (slots[i]? = some none ∧ ∀ v, ¬ Content slots key v) := by
  have hlt := h.lt
  have hi : slots[i]? = some slots[i] := List.getElem?_eq_getElem hlt
  rcases hs : slots[i] with _ | ⟨k, v⟩
  · rw [hs] at hi
    refine Or.inr ⟨hi, ?_⟩
    rintro v ⟨j, hj⟩
    obtain rfl := h.unique (hp j key v hj)
    rw [hi] at hj
    simp at hj
  · rw [hs] at hi
    by_cases hk : k = key
    · exact Or.inl ⟨v, hk ▸ hi⟩
    · exact absurd ⟨k, v, hi, hk⟩ h.stops

private theorem passes_set {key k : κ} {v : α} {i j : ℕ} (hk : k ≠ key)
    (h : Passes slots key j) : Passes (slots.set i (some (k, v))) key j := by
  obtain ⟨k', v', hj, hne⟩ := h
  by_cases hij : i = j
  · subst hij
    refine ⟨k, v, ?_, hk⟩
    have hlt : i < slots.length := by
      by_contra hge
      rw [List.getElem?_eq_none (by omega)] at hj
      simp at hj
    rw [List.getElem?_set_self hlt]
  · exact ⟨k', v', by rw [List.getElem?_set_ne hij, hj], hne⟩

/-- Storing where the search for a key stops. -/
theorem Probed.set (hp : Probed hash slots) {key : κ} {v : α} {i : ℕ}
    (hf : Found hash slots key i) : Probed hash (slots.set i (some (key, v))) := by
  have hlen : (slots.set i (some (key, v))).length = slots.length := List.length_set
  have hnth : ∀ k t, nth hash (slots.set i (some (key, v))) k t = nth hash slots k t := by
    intro k t
    rw [nth, nth, hlen]
  intro j k w hj
  by_cases hij : i = j
  · subst hij
    rw [List.getElem?_set_self hf.lt] at hj
    obtain ⟨rfl, rfl⟩ : key = k ∧ v = w := by simpa using hj
    refine ⟨by rw [hlen]; exact hf.lt, not_passes_of_slot (List.getElem?_set_self hf.lt), ?_⟩
    obtain ⟨t, ht, hpath⟩ := hf.path
    refine ⟨t, by rw [hnth]; exact ht, fun t' ht' => ?_⟩
    rw [hnth]
    obtain ⟨k', v', hslot, hne⟩ := hpath t' ht'
    have hother : i ≠ nth hash slots key t' := fun he => hf.stops (he ▸ ⟨k', v', hslot, hne⟩)
    exact ⟨k', v', by rw [List.getElem?_set_ne hother, hslot], hne⟩
  · rw [List.getElem?_set_ne hij] at hj
    have hfj := hp j k w hj
    have hne : key ≠ k := by
      rintro rfl
      exact hij (hf.unique hfj)
    refine ⟨by rw [hlen]; exact hfj.lt,
      not_passes_of_slot (by rw [List.getElem?_set_ne hij, hj]), ?_⟩
    obtain ⟨t, ht, hpath⟩ := hfj.path
    exact ⟨t, by rw [hnth]; exact ht, fun t' ht' => by rw [hnth]; exact passes_set hne (hpath t' ht')⟩

theorem Probed.content_set (hp : Probed hash slots) {key : κ} {v : α} {i : ℕ}
    (hf : Found hash slots key i) (k : κ) (w : α) :
    Content (slots.set i (some (key, v))) k w ↔ k = key ∧ w = v ∨ k ≠ key ∧ Content slots k w := by
  constructor
  · rintro ⟨j, hj⟩
    by_cases hij : i = j
    · subst hij
      rw [List.getElem?_set_self hf.lt] at hj
      exact Or.inl (by simpa [eq_comm] using hj)
    · rw [List.getElem?_set_ne hij] at hj
      refine Or.inr ⟨?_, j, hj⟩
      rintro rfl
      exact hij (hf.unique (hp j k w hj))
  · rintro (⟨rfl, rfl⟩ | ⟨hne, j, hj⟩)
    · exact ⟨i, List.getElem?_set_self hf.lt⟩
    · have hij : i ≠ j := by
        rintro rfl
        rcases hf.slot hp with ⟨v', h'⟩ | ⟨h', -⟩
        · rw [h'] at hj
          exact hne (by simpa using congrArg (Option.map (Option.map Prod.fst)) hj.symm)
        · rw [h'] at hj
          simp at hj
      exact ⟨j, by rw [List.getElem?_set_ne hij, hj]⟩

/-- A search that comes past a slot that is emptied stops there. -/
theorem found_emptied {key : κ} {i t : ℕ} (hlt : i < slots.length)
    (hpath : ∀ t' < t, Passes slots key (nth hash slots key t'))
    (hpast : ∃ t' < t, nth hash slots key t' = i) : Found hash (slots.set i none) key i := by
  classical
  have hnth : ∀ u, nth hash (slots.set i none) key u = nth hash slots key u := by
    intro u
    rw [nth, nth, List.length_set]
  obtain ⟨hu, heq⟩ := Nat.find_spec hpast
  refine ⟨by rwa [List.length_set], ?_, Nat.find hpast, by rw [hnth, heq], fun t' ht' => ?_⟩
  · rintro ⟨k, v, hslot, -⟩
    rw [List.getElem?_set_self hlt] at hslot
    simp at hslot
  · obtain ⟨k, v, hslot, hne⟩ := hpath t' (ht'.trans hu)
    have hother : i ≠ nth hash slots key t' := fun he =>
      Nat.find_min hpast ht' ⟨ht'.trans hu, he.symm⟩
    rw [hnth]
    exact ⟨k, v, by rw [List.getElem?_set_ne hother, hslot], hne⟩

/-- No search for a stored key comes past the slot. -/
def Clear (hash : κ → ℕ) (slots : List (Option (κ × α))) (i : ℕ) : Prop :=
  ∀ j k v t, slots[j]? = some (some (k, v)) → j = nth hash slots k t →
    (∀ t' < t, Passes slots k (nth hash slots k t')) → ∀ t' < t, nth hash slots k t' ≠ i

/-- Emptying a slot that no search comes past. -/
theorem Probed.emptied (hp : Probed hash slots) {i : ℕ} (hclear : Clear hash slots i) :
    Probed hash (slots.set i none) := by
  have hnth : ∀ k u, nth hash (slots.set i none) k u = nth hash slots k u := by
    intro k u
    rw [nth, nth, List.length_set]
  intro j k v hj
  have hij : i ≠ j := by
    rintro rfl
    have hlt : i < (slots.set i none).length := by
      by_contra hge
      rw [List.getElem?_eq_none (by omega)] at hj
      simp at hj
    rw [List.getElem?_set_self (by rwa [List.length_set] at hlt)] at hj
    simp at hj
  rw [List.getElem?_set_ne hij] at hj
  have hf := hp j k v hj
  obtain ⟨t, ht, hpath⟩ := hf.path
  refine ⟨by rw [List.length_set]; exact hf.lt,
    not_passes_of_slot (by rw [List.getElem?_set_ne hij, hj]), t, by rw [hnth]; exact ht,
    fun t' ht' => ?_⟩
  obtain ⟨k', v', hslot, hne⟩ := hpath t' ht'
  have hother : i ≠ nth hash slots k t' := Ne.symm (hclear j k v t hj ht hpath t' ht')
  rw [hnth]
  exact ⟨k', v', by rw [List.getElem?_set_ne hother, hslot], hne⟩

/-- An emptied slot takes its key with it and nothing else. -/
theorem Probed.content_emptied (hp : Probed hash slots) {key : κ} {v : α} {i : ℕ}
    (hi : slots[i]? = some (some (key, v))) (k : κ) (w : α) :
    Content (slots.set i none) k w ↔ k ≠ key ∧ Content slots k w := by
  have hlt := (hp i key v hi).lt
  constructor
  · rintro ⟨j, hj⟩
    have hij : i ≠ j := by
      rintro rfl
      rw [List.getElem?_set_self hlt] at hj
      simp at hj
    rw [List.getElem?_set_ne hij] at hj
    refine ⟨?_, j, hj⟩
    rintro rfl
    exact hij ((hp i k v hi).unique (hp j k w hj))
  · rintro ⟨hne, j, hj⟩
    have hij : i ≠ j := by
      rintro rfl
      rw [hi] at hj
      exact hne (by simpa using congrArg (Option.map (Option.map Prod.fst)) hj.symm)
    exact ⟨j, by rw [List.getElem?_set_ne hij, hj]⟩

theorem probed_replicate (hash : κ → ℕ) (n : ℕ) :
    Probed hash (List.replicate n (none : Option (κ × α))) := by
  intro i k v hi
  have := List.mem_of_getElem? hi
  simp at this

theorem content_replicate (n : ℕ) (k : κ) (v : α) :
    ¬ Content (List.replicate n (none : Option (κ × α))) k v := by
  rw [content_iff_mem]
  simp

/-- The keys of a probed table are distinct. -/
theorem Probed.nodup_keys (hp : Probed hash slots) : ((slots.filterMap id).map Prod.fst).Nodup := by
  rw [List.nodup_iff_pairwise_ne, List.pairwise_map]
  have hpair : slots.Pairwise (fun a b => ∀ p ∈ a, ∀ q ∈ b, p.1 ≠ q.1) := by
    rw [List.pairwise_iff_getElem]
    intro i j hi hj hij p hpi q hqj heq
    have hi' : slots[i]? = some (some (p.1, p.2)) := by
      rw [List.getElem?_eq_getElem hi]
      exact congrArg some (by simpa using hpi)
    have hj' : slots[j]? = some (some (p.1, q.2)) := by
      rw [List.getElem?_eq_getElem hj, heq]
      exact congrArg some (by simpa using hqj)
    exact absurd ((hp i _ _ hi').unique (hp j _ _ hj')) (by omega)
  refine List.Pairwise.filterMap id (fun a b hab p hpa q hqb => ?_) hpair
  exact hab p (by simpa using hpa) q (by simpa using hqb)

/-- In a table with a free slot every search stops. -/
theorem exists_stop (hfree : none ∈ slots) (key : κ) :
    ∃ t < slots.length, ¬ Passes slots key (nth hash slots key t) := by
  obtain ⟨j, hj⟩ := List.mem_iff_getElem?.mp hfree
  have hlt : j < slots.length := by
    by_contra hge
    rw [List.getElem?_eq_none (by omega)] at hj
    simp at hj
  have hpos : 0 < slots.length := by omega
  have hmod := Nat.mod_lt (hash key) hpos
  refine ⟨(j + slots.length - hash key % slots.length) % slots.length, Nat.mod_lt _ hpos, ?_⟩
  have hnth : nth hash slots key ((j + slots.length - hash key % slots.length) % slots.length) = j := by
    have hsum : hash key % slots.length + (j + slots.length - hash key % slots.length) =
        j + slots.length := by omega
    rw [nth, Nat.add_mod_mod, ← Nat.mod_add_mod, hsum, Nat.add_mod_right, Nat.mod_eq_of_lt hlt]
  rw [hnth]
  rintro ⟨k, v, hk, -⟩
  rw [hj] at hk
  simp at hk

end

end LinearProbing
