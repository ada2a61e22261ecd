import Mathlib.Data.List.AList

/-!
# Tables whose rows are changed all at once

A keyed table is an association list without duplicate keys. A change of every row that gives
two of them one key is refused as a whole.
-/
namespace KeyedUpdates

universe u v

variable {α : Type u} {β : α → Type v} (change : Sigma β → Sigma β) (t : AList β)

def updateAll [DecidableEq α] : Option (AList β) :=
  if h : (t.entries.map change).keys.Nodup then some ⟨t.entries.map change, h⟩ else none

/-- No two rows are given the same key. -/
def Separates : Prop :=
  ∀ e ∈ t.entries, ∀ e' ∈ t.entries, (change e).1 = (change e').1 → e = e'

variable {change t}

theorem nodup_keys_map_iff : (t.entries.map change).keys.Nodup ↔ Separates change t := by
  have hnodup : t.entries.Nodup := t.nodupKeys.nodup
  have hkeys : (t.entries.map change).keys = t.entries.map fun e => (change e).1 := by
    simp [List.keys, Function.comp_def]
  rw [hkeys]
  constructor
  · intro h e he e' he' heq
    exact List.inj_on_of_nodup_map h he he' heq
  · intro h
    exact hnodup.map_on h

variable [DecidableEq α]

theorem updateAll_isSome_iff : (updateAll change t).isSome ↔ Separates change t := by
  rw [← nodup_keys_map_iff]
  unfold updateAll
  split
  · next h => simp [h]
  · next h => simp [h]

theorem updateAll_eq_some {t' : AList β} (h : updateAll change t = some t') :
    t'.entries = t.entries.map change := by
  unfold updateAll at h
  split at h
  · cases h
    rfl
  · cases h

/-- The rows of a table that was changed are the changed rows. -/
theorem mem_updateAll {t' : AList β} (h : updateAll change t = some t') {e' : Sigma β} :
    e' ∈ t'.entries ↔ ∃ e ∈ t.entries, change e = e' := by
  rw [updateAll_eq_some h, List.mem_map]

/-- A row that keeps its key and is the only one with it afterwards is told from the others
by that key. -/
theorem updateAll_unique {t' : AList β} (h : updateAll change t = some t') {e e' : Sigma β}
    (he : e ∈ t.entries) (he' : e' ∈ t'.entries) (hkey : e'.1 = (change e).1) :
    e' = change e := by
  have hmem : change e ∈ t'.entries := (mem_updateAll h).mpr ⟨e, he, rfl⟩
  exact t'.nodupKeys.eq_of_fst_eq he' hmem hkey

end KeyedUpdates
