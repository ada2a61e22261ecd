import Mathlib.Tactic
import Mathlib.Logic.Function.Basic

/-!
# Writes to a buffer

A program that fills a buffer is the list of its writes, each with its index; what the buffer
holds afterwards follows from what it held before. Strings end at a terminator.
-/
namespace BufferWrites

variable {α : Type*} {mem : Nat → α} {ws : List (Nat × α)} {pos i size : Nat} {bytes : List α}

/-- Every write is in front of the end of the buffer. -/
def Inside (size : Nat) (ws : List (Nat × α)) : Prop := ∀ w ∈ ws, w.1 < size

instance (size : Nat) (ws : List (Nat × α)) : Decidable (Inside size ws) :=
  inferInstanceAs (Decidable (∀ _ ∈ _, _))

/-- The memory after the writes. -/
def applyWrites (mem : Nat → α) (ws : List (Nat × α)) : Nat → α :=
  ws.foldl (fun mem w => Function.update mem w.1 w.2) mem

/-- The bytes one after the other, from a position on. -/
def putAll (pos : Nat) : List α → List (Nat × α)
  | [] => []
  | byte :: bytes => (pos, byte) :: putAll (pos + 1) bytes

theorem inside_append {rest : List (Nat × α)} :
    Inside size (ws ++ rest) ↔ Inside size ws ∧ Inside size rest := by
  unfold Inside
  exact List.forall_mem_append

theorem inside_singleton {byte : α} : Inside size [(pos, byte)] ↔ pos < size := by
  simp [Inside]

theorem inside_putAll (hpos : pos ≤ size) : Inside size (putAll pos bytes) ↔ pos + bytes.length ≤ size := by
  induction bytes generalizing pos with
  | nil => simpa [putAll, Inside] using hpos
  | cons byte bytes ih =>
    rw [putAll, ← List.singleton_append, inside_append, inside_singleton, List.length_cons]
    constructor
    · intro h
      have hrest := (ih h.1).mp h.2
      omega
    · intro h
      have hlt : pos < size := by omega
      exact ⟨hlt, (ih hlt).mpr (by omega)⟩

theorem applyWrites_append (mem : Nat → α) (ws rest : List (Nat × α)) :
    applyWrites mem (ws ++ rest) = applyWrites (applyWrites mem ws) rest := List.foldl_append

theorem applyWrites_singleton (byte : α) :
    applyWrites mem [(pos, byte)] i = if i = pos then byte else mem i := by
  show Function.update mem pos byte i = _
  rw [Function.update_apply]

theorem applyWrites_putAll (mem : Nat → α) (pos i : Nat) (bytes : List α) :
    applyWrites mem (putAll pos bytes) i =
      if i < pos then mem i else (bytes[i - pos]?).getD (mem i) := by
  induction bytes generalizing pos mem with
  | nil => simp [putAll, applyWrites]
  | cons byte bytes ih =>
    rw [putAll, ← List.singleton_append, applyWrites_append, ih]
    rcases Nat.lt_trichotomy i pos with hlt | rfl | hgt
    · rw [if_pos (by omega), if_pos hlt, applyWrites_singleton, if_neg (by omega)]
    · rw [if_pos (by omega), if_neg (by omega), applyWrites_singleton, if_pos rfl, Nat.sub_self]
      rfl
    · rw [if_neg (by omega), if_neg (by omega), applyWrites_singleton, if_neg (by omega),
        show i - pos = (i - (pos + 1)) + 1 by omega, List.getElem?_cons_succ]

/-- The memory holds a string from index 0 on: its characters, and the terminator behind them. -/
structure HoldsString (nul : α) (mem : Nat → α) (s : List α) : Prop where
  text : ∀ i, (h : i < s.length) → mem i = s[i]
  ends : mem s.length = nul
  clean : nul ∉ s

/-- A text and a terminator behind it. -/
theorem holdsString_putAll {nul : α} {s : List α} (hs : nul ∉ s) :
    HoldsString nul (applyWrites mem (putAll 0 s ++ [(s.length, nul)])) s := by
  refine ⟨fun i hi => ?_, ?_, hs⟩
  · rw [applyWrites_append, applyWrites_singleton, if_neg (by omega), applyWrites_putAll,
      if_neg (by omega), Nat.sub_zero, List.getElem?_eq_getElem hi, Option.getD_some]
  · rw [applyWrites_append, applyWrites_singleton, if_pos rfl]

end BufferWrites
