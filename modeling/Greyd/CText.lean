import Mathlib.Tactic
import Mathlib.Data.List.TakeWhile
import Mathlib.Data.List.GetD

/-!
# C strings

A C string is the list of the characters in front of its terminating NUL, and a
buffer is the list of the characters it holds, NULs included. Characters stand for
bytes; the classification functions below are those of the C locale, where a byte
above 127 is neither a letter, a digit nor a space.
-/
namespace Greyd

abbrev CStr := List Char

def nul : Char := '\x00'

/-- The string a buffer holds: everything up to its first NUL. -/
def cstr (buf : List Char) : CStr := buf.takeWhile (· ≠ nul)

def isspace (c : Char) : Bool :=
  c = ' ' ∨ c = '\t' ∨ c = '\n' ∨ c = '\x0b' ∨ c = '\x0c' ∨ c = '\r'

/-- `strsep`: the token in front of the first delimiter, and what follows it
(`none` is the NULL left behind when there is no delimiter). -/
def strsep (delims : List Char) (f : CStr) : CStr × Option CStr :=
  (f.takeWhile (· ∉ delims),
    match f.dropWhile (· ∉ delims) with
    | [] => none
    | _ :: rest => some rest)

/-- `sstrncpy`: the string left in a destination of `dsize` bytes. -/
def sstrncpy (src : CStr) (dsize : Nat) : CStr := src.take (dsize - 1)

/-- `snprintf` into a buffer of `size` bytes keeps at most `size - 1` characters. -/
def snprintf (size : Nat) (text : CStr) : CStr := text.take (size - 1)

/-- Store bytes in a buffer from a position on. -/
def overwrite (buf : List Char) (pos : Nat) (bytes : List Char) : List Char :=
  buf.take pos ++ bytes ++ buf.drop (pos + bytes.length)

/-- `strncasecmp(a, b, strlen(b)) == 0`. -/
def hasPrefixNocase (a b : CStr) : Bool :=
  (a.take b.length).map Char.toLower = b.map Char.toLower

/-- `strcasecmp(a, b) == 0`. -/
def equalNocase (a b : CStr) : Bool := a.map Char.toLower = b.map Char.toLower

/-- The digits `%d` and `%u` print. -/
def decimal (n : Nat) : CStr := Nat.toDigits 10 n

/-- The value of one decimal digit. -/
def digitVal (c : Char) : Nat := c.toNat - '0'.toNat

theorem cstr_append_nul {s : CStr} (hs : nul ∉ s) (rest : List Char) :
    cstr (s ++ nul :: rest) = s := by
  rw [cstr, List.takeWhile_append_of_pos (by intro c hc; simp; rintro rfl; exact hs hc)]
  simp

theorem nul_not_mem_cstr (buf : List Char) : nul ∉ cstr buf := by
  intro h
  simpa using List.mem_takeWhile_imp h

theorem cstr_eq_self {s : CStr} (hs : nul ∉ s) : cstr s = s := by
  rw [cstr, List.takeWhile_eq_self_iff]
  intro c hc
  simp only [ne_eq, decide_eq_true_eq]
  rintro rfl
  exact hs hc

/-! ## Buffers -/

theorem overwrite_length {buf : List Char} {pos : Nat} (bytes : List Char) (h : pos ≤ buf.length) :
    (overwrite buf pos bytes).length = max buf.length (pos + bytes.length) := by
  simp only [overwrite, List.length_append, List.length_take, List.length_drop]
  omega

theorem overwrite_getD {buf bytes : List Char} {pos i : Nat} (h : pos ≤ buf.length)
    (hi : i < bytes.length) : (overwrite buf pos bytes).getD (pos + i) nul = bytes.getD i nul := by
  have hlen : (buf.take pos).length = pos := by rw [List.length_take]; omega
  rw [overwrite, List.append_assoc, List.getD_append_right _ _ _ _ (by omega), hlen,
    Nat.add_sub_cancel_left, List.getD_append _ _ _ _ hi]

/-- The bytes in front of the position are kept. -/
theorem overwrite_getD_lt {buf bytes : List Char} {pos i : Nat} (h : pos ≤ buf.length)
    (hi : i < pos) : (overwrite buf pos bytes).getD i nul = buf.getD i nul := by
  have hlen : (buf.take pos).length = pos := by rw [List.length_take]; omega
  rw [overwrite, List.append_assoc, List.getD_append _ _ _ _ (by omega)]
  simp [hi]

/-- A buffer that begins with a string and has a NUL behind it holds the string. -/
theorem cstr_of_getD {buf s : List Char} (hs : nul ∉ s)
    (hfront : ∀ i < s.length, buf.getD i nul = s.getD i nul)
    (hend : buf.getD s.length nul = nul) : cstr buf = s := by
  induction s generalizing buf with
  | nil =>
    cases buf with
    | nil => rfl
    | cons b rest =>
      have hb : b = nul := hend
      simp [cstr, hb]
  | cons c s ih =>
    rw [List.mem_cons, not_or] at hs
    have hc := hfront 0 (by simp)
    cases buf with
    | nil => exact absurd hc hs.1
    | cons b rest =>
      have hb : b = c := hc
      have hrest := @ih rest hs.2 (fun i hi => hfront (i + 1) (by simpa using hi)) hend
      show (b :: rest).takeWhile _ = _
      rw [hb, List.takeWhile_cons_of_pos (by simpa using Ne.symm hs.1)]
      exact congrArg (c :: ·) hrest

/-! ## Decimal digits -/

theorem isDigit_of_mem_decimal {n : Nat} {c : Char} (h : c ∈ decimal n) : c.isDigit = true :=
  Nat.isDigit_of_mem_toDigits (by decide) (by decide) h

theorem decimal_ne_nil (n : Nat) : decimal n ≠ [] := Nat.toDigits_ne_nil

theorem foldl_decimal (n : Nat) :
    (decimal n).foldl (fun n c => n * 10 + digitVal c) 0 = n := by
  have h := Nat.ofDigitChars_ten_toDigits (n := n)
  rw [Nat.ofDigitChars_eq_foldl] at h
  simpa only [decimal, digitVal, Nat.mul_comm 10] using h

/-! ## utils.c -/

/-- The characters `normalize_email_addr` drops. -/
def isMailPunct (c : Char) : Bool := c = '\\' ∨ c = '"' ∨ c = '>' ∨ c = '<'

/-- The characters `normalize_email_addr` copies, in order: one leading `<` is
skipped, the punctuation is dropped and the rest is lower-cased. -/
def mailChars (addr : CStr) : CStr :=
  let addr := if addr.head? = some '<' then addr.tail else addr
  (addr.filter (fun c => !isMailPunct c)).map Char.toLower

/-- `normalize_email_addr`. The copy overwrites the front of the buffer and is not
terminated; only the last byte of the buffer is set to NUL. -/
def normalizeEmailAddr (addr : CStr) (buf : List Char) (bufSize : Nat) : List Char :=
  (mailChars addr ++ buf.drop (mailChars addr).length).set (bufSize - 1) nul

/-- Angle brackets, double quotes and backslashes removed, lower-cased. -/
def normalForm (addr : CStr) : CStr := (addr.filter (fun c => !isMailPunct c)).map Char.toLower

theorem mailChars_eq (addr : CStr) : mailChars addr = normalForm addr := by
  unfold mailChars normalForm
  cases addr with
  | nil => rfl
  | cons c rest =>
    by_cases hc : c = '<'
    · subst hc; simp [isMailPunct]
    · simp [hc]

/-- Only letters have a lower case of their own. -/
theorem eq_of_toLower_eq {c d : Char} (hd : d.val.toNat < 97) (h : c.toLower = d) : c = d := by
  unfold Char.toLower at h
  split at h
  · next hc =>
    have hlow : 65 ≤ c.val.toNat := hc.1
    have hhigh : c.val.toNat ≤ 90 := hc.2
    have hval : (c.val + ('a'.val - 'A'.val)).toNat = d.val.toNat :=
      congrArg (fun c : Char => c.val.toNat) h
    rw [UInt32.toNat_add, show ('a'.val - 'A'.val).toNat = 32 from rfl] at hval
    omega
  · exact h

/-- The normal form has no character that is no letter, if the text has none. -/
theorem not_mem_normalForm {s : CStr} {d : Char} (hd : d.val.toNat < 97)
    (h : isMailPunct d = true ∨ d ∉ s) : d ∉ normalForm s := by
  intro hmem
  obtain ⟨c, hc, hlower⟩ := List.mem_map.mp hmem
  obtain rfl := eq_of_toLower_eq hd hlower
  obtain ⟨hc, hpunct⟩ := List.mem_filter.mp hc
  rcases h with h | h
  · simp [h] at hpunct
  · exact h hc

theorem nul_not_mem_normalForm {s : CStr} (h : nul ∉ s) : nul ∉ normalForm s :=
  not_mem_normalForm (by decide) (.inr h)

theorem normalForm_length_le (s : CStr) : (normalForm s).length ≤ s.length := by
  unfold normalForm
  rw [List.length_map]
  exact List.length_filter_le _ _

end Greyd
