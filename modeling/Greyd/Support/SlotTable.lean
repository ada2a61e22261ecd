import Mathlib.Tactic
import Mathlib.Logic.Function.Basic

/-!
# Tables with one key for each slot

Keys are put into a table one after the other, each at the slot computed from it, and a key
that is put there later takes the place of an earlier one.
-/
namespace SlotTable

variable {κ σ : Type*} [DecidableEq σ] {slotOf : κ → σ} {placed tested : List κ} {k l : κ}
  {slot : σ}

/-- The table after keys have been put into it. -/
def fill (slotOf : κ → σ) (placed : List κ) : σ → Option κ :=
  placed.foldl (fun table k => Function.update table (slotOf k) (some k)) fun _ => none

/-- No two keys share a slot: two keys put into the table have different slots, and where a
key is looked for there is that key or none. -/
structure Apart (slotOf : κ → σ) (placed tested : List κ) : Prop where
  spread : ∀ k ∈ placed, ∀ l ∈ placed, k ≠ l → slotOf k ≠ slotOf l
  found : ∀ l ∈ tested, ∀ k ∈ fill slotOf placed (slotOf l), k = l

theorem fill_concat : fill slotOf (placed ++ [k]) slot =
    if slot = slotOf k then some k else fill slotOf placed slot := by
  rw [fill, List.foldl_append]
  exact Function.update_apply ..

theorem mem_of_fill (h : fill slotOf placed slot = some k) : k ∈ placed ∧ slotOf k = slot := by
  induction placed using List.reverseRecOn with
  | nil => cases h
  | append_singleton placed last ih =>
    rw [fill_concat] at h
    split at h
    · next hslot =>
      cases h
      exact ⟨by simp, hslot.symm⟩
    · have hin := ih h
      exact ⟨List.mem_append_left _ hin.1, hin.2⟩

/-- A slot some key was put into is not empty. -/
theorem exists_fill (h : k ∈ placed) : ∃ l, fill slotOf placed (slotOf k) = some l := by
  induction placed using List.reverseRecOn with
  | nil => cases h
  | append_singleton placed last ih =>
    rw [fill_concat]
    by_cases hslot : slotOf k = slotOf last
    · exact ⟨last, if_pos hslot⟩
    · rw [if_neg hslot]
      refine ih ((List.mem_append.mp h).resolve_right fun hlast => hslot ?_)
      rw [List.mem_singleton.mp hlast]

/-- Slots are shared exactly when a key put into the table has the slot of another that is
put there or looked for. -/
theorem apart_iff : Apart slotOf placed tested ↔
    ∀ k ∈ placed, ∀ l, l ∈ placed ∨ l ∈ tested → k ≠ l → slotOf k ≠ slotOf l := by
  constructor
  · intro h k hk l hl hne hslot
    by_cases hin : l ∈ placed
    · exact h.spread k hk l hin hne hslot
    · obtain ⟨there, hthere⟩ := @exists_fill κ σ _ slotOf placed k hk
      have hsame : there = l :=
        h.found l (hl.resolve_left hin) there (by rw [← hslot, hthere]; rfl)
      exact hin (hsame ▸ (mem_of_fill hthere).1)
  · intro h
    refine ⟨fun k hk l hl => h k hk l (.inl hl), fun l hl k hk => ?_⟩
    by_contra hne
    have hin := mem_of_fill hk
    exact h k hin.1 l (.inr hl) hne hin.2

end SlotTable
