import Greyd.Envelope
import Greyd.Support.BufferWrites

/-!
# Where an address is copied to (utils.c)

`normalize_email_addr` by its writes. The bound of the buffer is tested in each turn of the
loop and never counted down, and the copy is not terminated where it ends.
-/
namespace Greyd

open BufferWrites

/-- The loop, with `cp` at an index of the buffer. -/
def copyMail (bufSize : Nat) : CStr → Nat → List (Nat × Char)
  | [], _ => []
  | c :: addr, cp =>
    if bufSize > 0 then
      if c ≠ '\\' ∧ c ≠ '"' ∧ c ≠ '>' ∧ c ≠ '<' then (cp, c.toLower) :: copyMail bufSize addr (cp + 1)
      else copyMail bufSize addr cp
    else []

/-- The writes of `normalize_email_addr`. -/
def normalizeWrites (addr : CStr) (bufSize : Nat) : List (Nat × Char) :=
  copyMail bufSize (if addr.head? = some '<' then addr.tail else addr) 0 ++ [(bufSize - 1, nul)]

/-- The writes stay inside the buffer, and leave as much of the normal form as fits. -/
structure Normalizes (addr : CStr) (bufSize : Nat) (mem : Nat → Char) : Prop where
  inside : Inside bufSize (normalizeWrites addr bufSize)
  string : HoldsString nul (applyWrites mem (normalizeWrites addr bufSize))
    ((normalForm addr).take (bufSize - 1))

section Writes

variable {addr : CStr} {bufSize : Nat} {mem : Nat → Char}

theorem copyMail_eq (hsize : 0 < bufSize) (addr : CStr) (cp : Nat) :
    copyMail bufSize addr cp = putAll cp (normalForm addr) := by
  induction addr generalizing cp with
  | nil => rfl
  | cons c addr ih =>
    rw [copyMail, if_pos hsize]
    by_cases hkept : c ≠ '\\' ∧ c ≠ '"' ∧ c ≠ '>' ∧ c ≠ '<'
    · have hform : normalForm (c :: addr) = c.toLower :: normalForm addr := by
        unfold normalForm
        rw [List.filter_cons_of_pos (by simp [isMailPunct]; tauto), List.map_cons]
      rw [if_pos hkept, ih, hform]
      rfl
    · have hform : normalForm (c :: addr) = normalForm addr := by
        unfold normalForm
        rw [List.filter_cons_of_neg (by simp [isMailPunct]; tauto)]
      rw [if_neg hkept, ih, hform]

/-- The kept characters one after the other, and a NUL at the end of the buffer. -/
theorem normalizeWrites_eq (hsize : 0 < bufSize) (addr : CStr) :
    normalizeWrites addr bufSize = putAll 0 (normalForm addr) ++ [(bufSize - 1, nul)] := by
  have hmail := mailChars_eq addr
  unfold mailChars at hmail
  unfold normalizeWrites
  rw [copyMail_eq hsize]
  exact congrArg (fun s => putAll 0 s ++ [(bufSize - 1, nul)]) hmail

theorem normalizeWrites_inside (hsize : 0 < bufSize) :
    Inside bufSize (normalizeWrites addr bufSize) ↔ (normalForm addr).length ≤ bufSize := by
  rw [normalizeWrites_eq hsize, inside_append, inside_putAll (Nat.zero_le _), inside_singleton]
  omega

/-- What the buffer holds afterwards. -/
theorem normalized_apply (hsize : 0 < bufSize) (mem : Nat → Char) (i : Nat) :
    applyWrites mem (normalizeWrites addr bufSize) i =
      if i = bufSize - 1 then nul else ((normalForm addr)[i]?).getD (mem i) := by
  rw [normalizeWrites_eq hsize, applyWrites_append, applyWrites_singleton, applyWrites_putAll,
    if_neg (Nat.not_lt_zero i), Nat.sub_zero]

/-- The buffer of the connections is written so. -/
theorem normalizeEmailAddr_getD (hsize : 0 < bufSize) (buf : List Char) (i : Nat) :
    (normalizeEmailAddr addr buf bufSize).getD i nul =
      applyWrites (fun i => buf.getD i nul) (normalizeWrites addr bufSize) i := by
  rw [normalized_apply hsize]
  unfold normalizeEmailAddr
  rw [mailChars_eq, List.getD_eq_getElem?_getD, List.getElem?_set]
  by_cases hlast : i = bufSize - 1
  · rw [if_pos hlast, if_pos hlast.symm]
    split <;> rfl
  · rw [if_neg hlast, if_neg (Ne.symm hlast)]
    rcases Nat.lt_or_ge i (normalForm addr).length with hfront | hback
    · rw [List.getElem?_append_left hfront, List.getElem?_eq_getElem hfront]
      rfl
    · rw [List.getElem?_append_right hback, List.getElem?_drop, Nat.add_sub_cancel' hback,
        List.getElem?_eq_none hback]
      rfl

/-- The string ends where the normal form does, if a NUL already stood there. -/
theorem normalized_string (haddr : nul ∉ addr) (hsize : 0 < bufSize)
    (hstale : (normalForm addr).length < bufSize - 1 → mem (normalForm addr).length = nul) :
    HoldsString nul (applyWrites mem (normalizeWrites addr bufSize))
      ((normalForm addr).take (bufSize - 1)) := by
  refine ⟨?_, ?_, fun h => nul_not_mem_normalForm haddr (List.mem_of_mem_take h)⟩
  · intro i hi
    have hi' := hi
    rw [List.length_take] at hi'
    rw [normalized_apply hsize, if_neg (by omega), List.getElem?_eq_getElem (by omega),
      Option.getD_some, List.getElem_take]
  · rw [List.length_take, normalized_apply hsize]
    split
    · rfl
    · next hlast =>
      have hshort : (normalForm addr).length < bufSize - 1 := by omega
      rw [Nat.min_eq_right hshort.le, List.getElem?_eq_none le_rfl]
      exact hstale hshort

/-- The copy stays in its buffer and leaves the string exactly if the characters it keeps fit,
and, if they are fewer than the buffer takes, a NUL already stood behind them. -/
theorem normalize_in_buffer_iff (haddr : nul ∉ addr) (hsize : 0 < bufSize) (mem : Nat → Char) :
    Normalizes addr bufSize mem ↔ (normalForm addr).length ≤ bufSize ∧
      ((normalForm addr).length < bufSize - 1 → mem (normalForm addr).length = nul) := by
  constructor
  · rintro ⟨hinside, hstring⟩
    refine ⟨(normalizeWrites_inside hsize).mp hinside, fun hshort => ?_⟩
    have hends := hstring.ends
    rw [List.take_of_length_le hshort.le, normalized_apply hsize, if_neg hshort.ne,
      List.getElem?_eq_none le_rfl] at hends
    exact hends
  · rintro ⟨hfits, hstale⟩
    exact ⟨(normalizeWrites_inside hsize).mpr hfits, normalized_string haddr hsize hstale⟩

/-! ### The callers -/

/-- The SMTP dialogue cuts the argument of a command off before it is copied. -/
theorem smtp_inside (f : CStr) :
    Inside greyMaxMail (normalizeWrites (setLog greyMaxMail f) greyMaxMail) := by
  rw [normalizeWrites_inside (by decide), setLog_eq]
  refine (normalForm_length_le _).trans ((List.length_take_le _ _).trans (by decide))

/-- greydb copies an argument of any length to a buffer it has cleared. -/
theorem greydb_update_iff (haddr : nul ∉ addr) (hcleared : ∀ i < greyMaxMail, mem i = nul) :
    Normalizes addr greyMaxMail mem ↔ (normalForm addr).length ≤ greyMaxMail := by
  rw [← normalizeWrites_inside (show 0 < greyMaxMail by decide)]
  constructor
  · exact Normalizes.inside
  · intro hinside
    exact ⟨hinside, normalized_string haddr (by decide) fun hshort =>
      hcleared _ (hshort.trans_le (Nat.sub_le _ _))⟩

end Writes

/-- An address of the tests, in a cleared buffer. -/
theorem normalize_in_buffer_quoted :
    Normalizes "<te<st6\\@e\\>mai\"l.<<ORG>".toList 1024 (fun _ => nul) ↔
      (normalForm "<te<st6\\@e\\>mai\"l.<<ORG>".toList).length ≤ 1024 ∧
        ((normalForm "<te<st6\\@e\\>mai\"l.<<ORG>".toList).length < 1024 - 1 → nul = nul) :=
  normalize_in_buffer_iff (by decide) (by decide) fun _ => nul

/-- An address that is longer than the buffer is written behind its end; a shorter one keeps
the rest of what was there. -/
theorem normalize_leaves_buffer :
    (4, 'e') ∈ normalizeWrites "abcde".toList 4 ∧ ¬ Normalizes "abcde".toList 4 (fun _ => nul) ∧
      ¬ Normalizes "<a@b>".toList 1024 (fun i => "old@example".toList.getD i nul) := by
  refine ⟨by decide, ?_, ?_⟩
  · rintro ⟨hinside, -⟩
    exact absurd hinside (by decide)
  · rintro ⟨-, hstring⟩
    have hends := hstring.ends
    revert hends
    decide +kernel

end Greyd
