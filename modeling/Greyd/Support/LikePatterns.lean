import Mathlib.Tactic
import Mathlib.Data.List.Basic

/-!
# LIKE patterns

A pattern is read into elements; an engine says how it compares characters and what an escape
character at the end of a pattern stands for, if it has escape characters at all. A match with an
invalid escape has no result.
-/
namespace LikePatterns

inductive Elem
  | any
  | one
  | char (c : Char)
  | badEscape
  deriving DecidableEq

structure Rules where
  fold : Char → Char
  /-- `none`: the backslash is a character like others. -/
  escape : Option Elem

/-- The elements of a pattern; the character behind an escape character is `quoted`. -/
def elems (escape : Option Elem) (quoted : Bool) : List Char → List Elem
  | [] => if quoted then escape.toList else []
  | c :: pattern =>
    if quoted then .char c :: elems escape false pattern
    else if c = '%' then .any :: elems escape false pattern
    else if c = '_' then .one :: elems escape false pattern
    else if c = '\\' ∧ escape.isSome then elems escape true pattern
    else .char c :: elems escape false pattern

/-- The first result over the tails of a text that is no failure to match. -/
def firstTail (f : List Char → Option Bool) : List Char → Option Bool
  | [] => f []
  | c :: text => if f (c :: text) = some false then firstTail f text else f (c :: text)

def matchElems (fold : Char → Char) : List Elem → List Char → Option Bool
  | [], text => some text.isEmpty
  | .any :: rest, text => firstTail (matchElems fold rest) text
  | _ :: _, [] => some false
  | .one :: rest, _ :: text => matchElems fold rest text
  | .char c :: rest, x :: text =>
    if fold x = fold c then matchElems fold rest text else some false
  | .badEscape :: _, _ :: _ => none

/-- `text LIKE pattern` -/
def like (rules : Rules) (pattern text : List Char) : Option Bool :=
  matchElems rules.fold (elems rules.escape false pattern) text

/-! ## Patterns without special characters -/

/-- Neither a wildcard nor an escape character. -/
def Plain (pattern : List Char) : Prop := '%' ∉ pattern ∧ '_' ∉ pattern ∧ '\\' ∉ pattern

instance (pattern : List Char) : Decidable (Plain pattern) := inferInstanceAs (Decidable (_ ∧ _))

variable {fold : Char → Char} {escape : Option Elem}

theorem elems_plain {pattern : List Char} (h : Plain pattern) :
    elems escape false pattern = pattern.map .char := by
  induction pattern with
  | nil => rfl
  | cons c pattern ih =>
    obtain ⟨hany, hone, hescape⟩ := h
    rw [List.mem_cons, not_or] at hany hone hescape
    rw [elems, if_neg Bool.false_ne_true, if_neg (Ne.symm hany.1), if_neg (Ne.symm hone.1),
      if_neg (fun h => hescape.1 h.1.symm), ih ⟨hany.2, hone.2, hescape.2⟩, List.map_cons]

theorem matchElems_chars (word text : List Char) :
    matchElems fold (word.map .char) text = some (decide (text.map fold = word.map fold)) := by
  induction word generalizing text with
  | nil => cases text <;> simp [matchElems]
  | cons c word ih =>
    cases text with
    | nil => simp [matchElems]
    | cons x text =>
      rw [List.map_cons, matchElems, ih]
      by_cases hfold : fold x = fold c
      · simp [hfold]
      · simp [hfold]

theorem firstTail_of_some {f : List Char → Option Bool} {g : List Char → Bool}
    (h : ∀ text, f text = some (g text)) (text : List Char) :
    firstTail f text = some (text.tails.any g) := by
  induction text with
  | nil => simp [firstTail, h]
  | cons c text ih =>
    rw [firstTail, h, ih, List.tails_cons, List.any_cons]
    cases g (c :: text) <;> simp

/-- The text ends in the word, up to the folding of characters. -/
def EndsIn (fold : Char → Char) (text word : List Char) : Prop :=
  word.length ≤ text.length ∧ (text.drop (text.length - word.length)).map fold = word.map fold

instance (text word : List Char) : Decidable (EndsIn fold text word) :=
  inferInstanceAs (Decidable (_ ∧ _))

theorem any_tails_iff (text word : List Char) :
    (text.tails.any fun tail => decide (tail.map fold = word.map fold)) = true ↔
      EndsIn fold text word := by
  rw [List.any_eq_true]
  constructor
  · rintro ⟨tail, htail, hsame⟩
    obtain ⟨front, rfl⟩ := (List.mem_tails tail text).mp htail
    rw [decide_eq_true_eq] at hsame
    have hlength : tail.length = word.length := by simpa using congrArg List.length hsame
    refine ⟨by rw [List.length_append]; omega, ?_⟩
    rw [List.length_append, ← hlength, Nat.add_sub_cancel, List.drop_left, hsame]
  · rintro ⟨hlength, hsame⟩
    exact ⟨_, (List.mem_tails _ _).mpr (List.drop_suffix _ _), by rw [decide_eq_true_eq]; exact hsame⟩

/-- Behind a percent sign, a plain word matches the texts that end in it. -/
theorem like_any_plain {rules : Rules} {word : List Char} (h : Plain word) (text : List Char) :
    like rules ('%' :: word) text = some (decide (EndsIn rules.fold text word)) := by
  have helems : elems rules.escape false ('%' :: word) = .any :: word.map .char := by
    rw [elems, if_neg Bool.false_ne_true, if_pos rfl, elems_plain h]
  rw [like, helems, matchElems, firstTail_of_some (matchElems_chars word)]
  simp only [Option.some.injEq]
  rw [Bool.eq_iff_iff, any_tails_iff, decide_eq_true_iff]

end LikePatterns
