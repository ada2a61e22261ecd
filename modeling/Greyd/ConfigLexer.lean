import Greyd.CText

/-!
# The configuration lexer (lexer.c, config_lexer.c)

The source is the list of the characters that are still to be read. A token carries its
semantic value.
-/
namespace Greyd

def lexerMaxStrLen : Nat := 256

inductive Token
  | eof
  | int (i : Int)
  | section
  | include
  | blacklist
  | whitelist
  | name (s : CStr)
  | str (s : CStr)
  | eol
  | comma
  | eq
  | bracketL
  | bracketR
  | sqbrackL
  | sqbrackR
  deriving DecidableEq, Repr

structure Lexer where
  source : List Char
  seenEnd : Bool

def configLexerCreate (source : List Char) : Lexer := ⟨source, false⟩

/-- `Lexer_reuse_char`, when the character read last is the first of `rest` or, when there
is none, EOF. -/
def Lexer.reuse (rest : List Char) : Lexer := ⟨rest, rest.isEmpty⟩

/-- An `int` after arithmetic that wraps. -/
def wrapInt (n : Nat) : Int := (BitVec.ofNat 32 n).toInt

def isNameChar (c : Char) : Bool := c.isAlpha || c.isDigit || c = '_'

def reservedWord (s : CStr) : Token :=
  if s = "section".toList then .section
  else if s = "include".toList then .include
  else if s = "blacklist".toList then .blacklist
  else if s = "whitelist".toList then .whitelist
  else .name s

/-- The loop over a quoted string: its characters and the lexer behind it. -/
def lexString (seenEsc : Bool) (len : Nat) : List Char → List Char × Lexer
  | [] => ([], .reuse [])
  | c :: cs =>
    if c = '"' ∧ ¬ seenEsc then ([], ⟨cs, false⟩)
    else if len > lexerMaxStrLen then ([], if c = '"' then ⟨cs, false⟩ else .reuse (c :: cs))
    else if c = '\\' ∧ ¬ seenEsc then lexString true len cs
    else
      let (s, lexer) := lexString false (len + 1) cs
      (c :: s, lexer)

def lexInt (c : Char) (cs : List Char) : Token × Lexer :=
  let digits := c :: cs.takeWhile Char.isDigit
  (.int (wrapInt (digits.foldl (fun i d => i * 10 + digitVal d) 0)),
    .reuse (cs.dropWhile Char.isDigit))

def lexName (c : Char) (cs : List Char) : Token × Lexer :=
  let more := (cs.takeWhile isNameChar).take lexerMaxStrLen
  (reservedWord ((c :: more).map Char.toLower), .reuse (cs.drop more.length))

/-- The token that starts with a character that is not blank. -/
def lexToken (c : Char) (cs : List Char) : Token × Lexer :=
  if c.isDigit then lexInt c cs
  else if c.isAlpha then lexName c cs
  else if c = '"' then
    let (s, lexer) := lexString false 0 cs
    (.str (cstr s), lexer)
  else
    (if c = ';' ∨ c = '\n' then .eol
      else if c = ',' then .comma
      else if c = '=' then .eq
      else if c = '{' then .bracketL
      else if c = '}' then .bracketR
      else if c = '[' then .sqbrackL
      else if c = ']' then .sqbrackR
      else .eof, ⟨cs, false⟩)

/-- What is left behind blanks and comments. -/
def skipBlanks (comment : Bool) : List Char → Lexer
  | [] => ⟨[], comment⟩
  | c :: cs =>
    if comment then if c = '\n' then .reuse (c :: cs) else skipBlanks true cs
    else if c = ' ' ∨ c = '\t' ∨ c = '\r' then skipBlanks false cs
    else if c = '#' then skipBlanks true cs
    else ⟨c :: cs, false⟩

theorem skipBlanks_suffix (comment : Bool) (cs : List Char) : (skipBlanks comment cs).source <:+ cs := by
  induction cs generalizing comment with
  | nil => exact List.suffix_rfl
  | cons c cs ih =>
    rw [skipBlanks]
    split_ifs
    · exact List.suffix_rfl
    · exact (ih true).trans (List.suffix_cons c cs)
    · exact (ih false).trans (List.suffix_cons c cs)
    · exact (ih true).trans (List.suffix_cons c cs)
    · exact List.suffix_rfl

def configLexerNextToken (lexer : Lexer) : Token × Lexer :=
  if lexer.seenEnd then (.eof, lexer)
  else
    let skipped := skipBlanks false lexer.source
    match skipped.source with
    | [] => (.eof, skipped)
    | c :: cs => lexToken c cs

/-! ## What the lexer makes of well-formed text -/

/-- A variable name that the parser can store and that is no reserved word. -/
structure IsName (s : CStr) : Prop where
  head_lower : ∃ c cs, s = c :: cs ∧ c.isLower
  chars : ∀ c ∈ s, c.isLower || c.isDigit || c = '_'
  length_le : s.length ≤ 255
  not_reserved : s ≠ "section".toList ∧ s ≠ "include".toList ∧ s ≠ "blacklist".toList ∧
    s ≠ "whitelist".toList

theorem isName_of {s : CStr} (hhead : s.head?.any Char.isLower = true)
    (hchars : s.all (fun x => x.isLower || x.isDigit || x = '_') = true) (hlen : s.length ≤ 255)
    (hreserved : s ≠ "section".toList ∧ s ≠ "include".toList ∧ s ≠ "blacklist".toList ∧
      s ≠ "whitelist".toList) : IsName s := by
  cases s with
  | nil => simp at hhead
  | cons c cs =>
    exact ⟨⟨c, cs, rfl, by simpa using hhead⟩, List.all_eq_true.mp hchars, hlen, hreserved⟩

/-- What stands between two quotes: escapes removed, or `none` when the text has a quote of
its own or ends in an escape. -/
def unescape (seenEsc : Bool) : CStr → Option CStr
  | [] => if seenEsc then none else some []
  | c :: cs =>
    if c = '"' ∧ ¬ seenEsc then none
    else if c = '\\' ∧ ¬ seenEsc then unescape true cs
    else (unescape false cs).map (c :: ·)

theorem unescape_eq_self {s : CStr} (hq : '"' ∉ s) (hb : '\\' ∉ s) : unescape false s = some s := by
  induction s with
  | nil => rfl
  | cons c cs ih =>
    simp only [List.mem_cons, not_or] at hq hb
    rw [unescape, if_neg (fun h => hq.1 h.1.symm), if_neg (fun h => hb.1 h.1.symm), ih hq.2 hb.2]
    rfl

/-- An escaped character is there. -/
theorem ne_nil_of_unescape_true {s u : CStr} (h : unescape true s = some u) : u ≠ [] := by
  cases s with
  | nil => simp [unescape] at h
  | cons c cs =>
    rw [unescape, if_neg (by simp), if_neg (by simp), Option.map_eq_some_iff] at h
    obtain ⟨v, -, rfl⟩ := h
    exact List.cons_ne_nil c v

theorem lexString_of_unescape {s u : CStr} {seenEsc : Bool} (h : unescape seenEsc s = some u)
    {len : Nat} (hlen : len + u.length ≤ lexerMaxStrLen + 1) (rest : List Char) :
    lexString seenEsc len (s ++ '"' :: rest) = (u, ⟨rest, false⟩) := by
  induction s generalizing seenEsc len u with
  | nil =>
    cases seenEsc with
    | true => simp [unescape] at h
    | false =>
      obtain rfl : u = [] := by simpa [unescape] using h.symm
      simp [lexString]
  | cons c cs ih =>
    rw [unescape] at h
    rw [List.cons_append, lexString]
    by_cases hquote : c = '"' ∧ ¬ seenEsc
    · rw [if_pos hquote] at h
      simp at h
    rw [if_neg hquote] at h
    rw [if_neg hquote]
    by_cases hesc : c = '\\' ∧ ¬ seenEsc
    · rw [if_pos hesc] at h
      have hpos : 0 < u.length := List.length_pos_of_ne_nil (ne_nil_of_unescape_true h)
      rw [if_neg (by omega), if_pos hesc]
      exact ih h hlen
    · rw [if_neg hesc, Option.map_eq_some_iff] at h
      obtain ⟨v, hv, rfl⟩ := h
      rw [List.length_cons] at hlen
      rw [if_neg (by omega), if_neg hesc, ih hv (by omega)]

theorem wrapInt_of_lt {n : Nat} (h : n < 2 ^ 31) : wrapInt n = n := by
  have htoNat : (BitVec.ofNat 32 n).toNat = n := by
    rw [BitVec.toNat_ofNat, Nat.mod_eq_of_lt (by omega)]
  rw [wrapInt, BitVec.toInt_eq_toNat_of_lt (by omega), htoNat]

section
variable (rest : List Char)

theorem lex_blank : configLexerNextToken ⟨' ' :: rest, false⟩ = configLexerNextToken ⟨rest, false⟩ := rfl

theorem lex_eol : configLexerNextToken ⟨'\n' :: rest, false⟩ = (.eol, ⟨rest, false⟩) := rfl

theorem lex_comma : configLexerNextToken ⟨',' :: rest, false⟩ = (.comma, ⟨rest, false⟩) := rfl

theorem lex_eq : configLexerNextToken ⟨'=' :: rest, false⟩ = (.eq, ⟨rest, false⟩) := rfl

theorem lex_sqbrackL : configLexerNextToken ⟨'[' :: rest, false⟩ = (.sqbrackL, ⟨rest, false⟩) := rfl

theorem lex_sqbrackR : configLexerNextToken ⟨']' :: rest, false⟩ = (.sqbrackR, ⟨rest, false⟩) := rfl

/-- Any character that is no part of the language reads as the end of the file. -/
theorem lex_percent : configLexerNextToken ⟨'%' :: rest, false⟩ = (.eof, ⟨rest, false⟩) := rfl

theorem lex_str {s u : CStr} (h : unescape false s = some u) (hlen : u.length ≤ lexerMaxStrLen + 1) :
    configLexerNextToken ⟨'"' :: s ++ '"' :: rest, false⟩ = (.str (cstr u), ⟨rest, false⟩) := by
  have hs := lexString_of_unescape h (by omega : 0 + u.length ≤ _) rest
  show (Token.str (cstr (lexString false 0 (s ++ '"' :: rest)).1),
    (lexString false 0 (s ++ '"' :: rest)).2) = _
  rw [hs]

end

private theorem not_blank {c : Char} (h : c.isAlphanum = true) :
    ¬ (c = ' ' ∨ c = '\t' ∨ c = '\r') ∧ c ≠ '#' := by
  refine ⟨?_, ?_⟩
  · rintro (rfl | rfl | rfl) <;> simp at h
  · rintro rfl
    simp at h

private theorem next_of_alphanum {c : Char} (h : c.isAlphanum = true) (cs : List Char) :
    configLexerNextToken ⟨c :: cs, false⟩ = lexToken c cs := by
  obtain ⟨hblank, hhash⟩ := not_blank h
  simp [configLexerNextToken, skipBlanks, hblank, hhash]

theorem lex_int {n : Nat} (hn : n < 2 ^ 31) {c : Char} (hc : c.isDigit = false) (rest : List Char) :
    configLexerNextToken ⟨decimal n ++ c :: rest, false⟩ = (.int n, ⟨c :: rest, false⟩) := by
  obtain ⟨d, ds, hds⟩ := List.exists_cons_of_ne_nil (decimal_ne_nil n)
  have hdigit : ∀ x ∈ d :: ds, x.isDigit = true := by
    intro x hx
    exact isDigit_of_mem_decimal (hds ▸ hx)
  have hd := hdigit d List.mem_cons_self
  have htake : (ds ++ c :: rest).takeWhile Char.isDigit = ds := by
    rw [List.takeWhile_append_of_pos fun x hx => hdigit x (List.mem_cons_of_mem _ hx)]
    simp [hc]
  have hdrop : (ds ++ c :: rest).dropWhile Char.isDigit = c :: rest := by
    rw [List.dropWhile_append_of_pos fun x hx => hdigit x (List.mem_cons_of_mem _ hx)]
    simp [hc]
  rw [hds, List.cons_append, next_of_alphanum (by simp [Char.isAlphanum, hd]), lexToken, if_pos hd,
    lexInt, htake, hdrop, ← hds, foldl_decimal, wrapInt_of_lt hn]
  rfl

private theorem toLower_eq_self {c : Char} (h : c.isLower || c.isDigit || c = '_') :
    c.toLower = c := by
  unfold Char.toLower
  rw [dif_neg]
  intro hupper
  simp only [Bool.or_eq_true, decide_eq_true_eq] at h
  rcases h with (h | h) | rfl
  · unfold Char.isLower at h
    simp only [Bool.and_eq_true, decide_eq_true_eq, UInt32.le_iff_toNat_le, ge_iff_le,
      Char.reduceVal, UInt32.reduceToNat] at h hupper
    omega
  · simp only [Char.isDigit, Bool.and_eq_true, decide_eq_true_eq, UInt32.le_iff_toNat_le, ge_iff_le,
      Char.reduceVal, UInt32.reduceToNat] at h hupper
    omega
  · revert hupper
    decide

private theorem isDigit_eq_false_of_isLower {c : Char} (h : c.isLower) : c.isDigit = false := by
  rw [Bool.eq_false_iff]
  intro hd
  unfold Char.isLower at h
  simp only [Char.isDigit, Bool.and_eq_true, decide_eq_true_eq,
    UInt32.le_iff_toNat_le, ge_iff_le, Char.reduceVal, UInt32.reduceToNat] at h hd
  omega

theorem lex_name {s : CStr} (hs : IsName s) {c : Char} (hc : isNameChar c = false)
    (rest : List Char) :
    configLexerNextToken ⟨s ++ c :: rest, false⟩ = (.name s, ⟨c :: rest, false⟩) := by
  obtain ⟨d, ds, rfl, hd⟩ := hs.head_lower
  have hname : ∀ x ∈ ds, isNameChar x = true := by
    intro x hx
    have := hs.chars x (List.mem_cons_of_mem _ hx)
    unfold isNameChar Char.isAlpha
    simp only [Bool.or_eq_true, decide_eq_true_eq] at this ⊢
    tauto
  have hlower : (d :: ds).map Char.toLower = d :: ds := by
    rw [List.map_congr_left fun x hx => toLower_eq_self (hs.chars x hx), List.map_id']
  have htake : ((ds ++ c :: rest).takeWhile isNameChar).take lexerMaxStrLen = ds := by
    rw [List.takeWhile_append_of_pos hname]
    have := hs.length_le
    simp only [List.takeWhile_cons, hc, Bool.false_eq_true, if_false, List.append_nil]
    rw [List.take_of_length_le]
    simp only [List.length_cons] at this
    rw [lexerMaxStrLen]
    omega
  have hword : reservedWord (d :: ds) = .name (d :: ds) := by
    obtain ⟨h₁, h₂, h₃, h₄⟩ := hs.not_reserved
    rw [reservedWord, if_neg h₁, if_neg h₂, if_neg h₃, if_neg h₄]
  have halpha : d.isAlpha = true := by
    unfold Char.isAlpha
    simp [hd]
  have hnum := isDigit_eq_false_of_isLower hd
  rw [List.cons_append, next_of_alphanum (by simp [Char.isAlphanum, halpha]), lexToken, hnum,
    if_neg (by simp), if_pos halpha, lexName, htake, hlower, hword]
  simp [Lexer.reuse]

end Greyd
