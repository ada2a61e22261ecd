import Greyd.ParserReferences
import Greyd.Support.BufferWrites

/-!
# The buffers of names and strings (config_lexer.c, config_parser.c)

What the lexer writes to `current_value.s`, and what the parser copies from there. The length
is tested before a character is stored, so that one too many is.
-/
namespace Greyd

open BufferWrites

/-- `sizeof` of `current_value.s`, and of `varname` and `secname`. -/
def tokenBufSize : Nat := lexerMaxStrLen + 1

/-- The loop over a name, with the character read and the length so far: its writes, and the
length when it ends. -/
def nameLoop (len : Nat) (c : Char) : List Char → List (Nat × Char) × Nat
  | [] => ([(len, c.toLower)], len + 1)
  | c' :: cs =>
    if isNameChar c' ∧ len + 1 ≤ lexerMaxStrLen then
      let (writes, len') := nameLoop (len + 1) c' cs
      ((len, c.toLower) :: writes, len')
    else ([(len, c.toLower)], len + 1)

/-- The loop over a quoted string. -/
def stringLoop (seenEsc : Bool) (len : Nat) : List Char → List (Nat × Char) × Nat
  | [] => ([], len)
  | c :: cs =>
    if (c ≠ '"' ∨ seenEsc) ∧ len ≤ lexerMaxStrLen then
      if c = '\\' ∧ ¬ seenEsc then stringLoop true len cs
      else
        let (writes, len') := stringLoop false (len + 1) cs
        ((len, c) :: writes, len')
    else ([], len)

/-- The end of both: `s[len] = '\0'`. -/
def closeOff (loop : List (Nat × Char) × Nat) : List (Nat × Char) := loop.1 ++ [(loop.2, nul)]

/-- What `Config_lexer_next_token` writes to `current_value.s`. -/
def tokenWrites (lexer : Lexer) : List (Nat × Char) :=
  if lexer.seenEnd then []
  else match (skipBlanks false lexer.source).source with
    | [] => []
    | c :: cs =>
      if c.isDigit then []
      else if c.isAlpha then closeOff (nameLoop 0 c cs)
      else if c = '"' then closeOff (stringLoop false 0 cs)
      else []

/-- The writes of `sstrncpy`. -/
def sstrncpyWrites (src : CStr) (dsize : Nat) : List (Nat × Char) :=
  if dsize ≠ 0 then
    let dlen := if dsize > src.length then src.length else dsize - 1
    putAll 0 (src.take dlen) ++ [(dlen, nul)]
  else []

/-- How `grammar_assignment` and `grammar_section` copy a name: the size is that of the name. -/
def copyName (name : CStr) : List (Nat × Char) := sstrncpyWrites name (name.length + 1)

/-- The next token fits into its buffer, and so does a copy of it. -/
structure LexerSafe (lexer : Lexer) : Prop where
  token : Inside tokenBufSize (tokenWrites lexer)
  copy : ∀ name, (configLexerNextToken lexer).1 = .name name → Inside tokenBufSize (copyName name)

/-- The states of the lexer over a text. -/
inductive LexerRun (source : List Char) : Lexer → Prop
  | start : LexerRun source (configLexerCreate source)
  | next {lexer} : LexerRun source lexer → LexerRun source (configLexerNextToken lexer).2

/-! ## The words of a text -/

/-- Where a character of the text stands, with the number of characters of the name or of the
string so far. -/
inductive TextPlace
  | outside
  | comment
  | name (n : Nat)
  | string (seenEsc : Bool) (n : Nat)

def TextPlace.begin (c : Char) : TextPlace :=
  if c = '#' then .comment
  else if c = '"' then .string false 0
  else if c.isAlpha then .name 1
  else .outside

def TextPlace.next : TextPlace → Char → TextPlace
  | .outside, c => .begin c
  | .comment, c => if c = '\n' then .outside else .comment
  | .name n, c => if isNameChar c then .name (n + 1) else .begin c
  | .string seenEsc n, c =>
    if c = '"' ∧ ¬ seenEsc then .outside
    else if c = '\\' ∧ ¬ seenEsc then .string true n
    else .string false (n + 1)

def TextPlace.Short : TextPlace → Prop
  | .name n => n ≤ lexerMaxStrLen
  | .string _ n => n ≤ lexerMaxStrLen
  | _ => True

/-- No name and no quoted string of the text is longer than LEXER_MAX_STR_LEN. -/
def ShortWords : TextPlace → List Char → Prop
  | place, [] => place.Short
  | place, c :: cs => place.Short ∧ ShortWords (place.next c) cs

section Words

variable {c : Char} {cs : List Char}

theorem shortWords_outside : ShortWords .outside (c :: cs) ↔ ShortWords (.begin c) cs := by
  rw [ShortWords]
  exact and_iff_right trivial

theorem begin_other (hhash : c ≠ '#') (hquote : c ≠ '"') (halpha : c.isAlpha = false) :
    TextPlace.begin c = .outside := by
  unfold TextPlace.begin
  rw [if_neg hhash, if_neg hquote, if_neg (by rw [halpha]; simp)]

/-- Blanks and comments have no words. -/
theorem shortWords_skip (comment : Bool) (cs : List Char) :
    ShortWords (if comment then .comment else .outside) cs ↔
      ShortWords .outside (skipBlanks comment cs).source := by
  induction cs generalizing comment with
  | nil => cases comment <;> exact Iff.rfl
  | cons c cs ih =>
    rw [skipBlanks]
    cases comment with
    | true =>
      rw [if_pos rfl, if_pos rfl]
      by_cases hline : c = '\n'
      · subst hline
        rw [if_pos rfl]
        exact (and_iff_right trivial).trans (Iff.symm shortWords_outside)
      · rw [if_neg hline, ← ih true, if_pos rfl, ShortWords, TextPlace.next, if_neg hline]
        exact and_iff_right trivial
    | false =>
      rw [if_neg (by simp), if_neg (by simp)]
      by_cases hblank : c = ' ' ∨ c = '\t' ∨ c = '\r'
      · rw [if_pos hblank, ← ih false, if_neg (by simp), shortWords_outside]
        rcases hblank with rfl | rfl | rfl <;> exact Iff.rfl
      · rw [if_neg hblank]
        by_cases hhash : c = '#'
        · subst hhash
          rw [if_pos rfl, ← ih true, if_pos rfl, shortWords_outside]
          exact Iff.rfl
        · rw [if_neg hhash]

theorem isDigit_not_alpha (h : c.isDigit = true) : c.isAlpha = false ∧ c ≠ '#' ∧ c ≠ '"' := by
  refine ⟨?_, ?_, ?_⟩
  · unfold Char.isDigit at h
    unfold Char.isAlpha Char.isUpper Char.isLower
    simp only [Bool.and_eq_true, decide_eq_true_eq, UInt32.le_iff_toNat_le, ge_iff_le,
      Char.reduceVal, UInt32.reduceToNat, Bool.or_eq_false_iff, Bool.and_eq_false_iff,
      decide_eq_false_iff_not] at h ⊢
    omega
  · rintro rfl
    simp at h
  · rintro rfl
    simp at h

/-- The digits of a number are no word. -/
theorem shortWords_digits (cs : List Char) :
    ShortWords .outside cs ↔ ShortWords .outside (cs.dropWhile Char.isDigit) := by
  induction cs with
  | nil => exact Iff.rfl
  | cons c cs ih =>
    by_cases hdigit : c.isDigit = true
    · obtain ⟨halpha, hhash, hquote⟩ := isDigit_not_alpha hdigit
      rw [List.dropWhile_cons_of_pos hdigit, ← ih, shortWords_outside,
        begin_other hhash hquote halpha]
    · rw [List.dropWhile_cons_of_neg hdigit]

theorem shortWords_name {n : Nat} (hn : n ≤ lexerMaxStrLen) (cs : List Char) :
    ShortWords (.name n) cs ↔ n + (cs.takeWhile isNameChar).length ≤ lexerMaxStrLen ∧
      ShortWords .outside (cs.dropWhile isNameChar) := by
  induction cs generalizing n with
  | nil => simp [ShortWords, TextPlace.Short]
  | cons c cs ih =>
    rw [ShortWords, TextPlace.next]
    by_cases hname : isNameChar c = true
    · rw [if_pos hname, List.takeWhile_cons_of_pos hname, List.dropWhile_cons_of_pos hname,
        List.length_cons]
      by_cases hnext : n + 1 ≤ lexerMaxStrLen
      · rw [ih hnext, and_iff_right (show (TextPlace.name n).Short from hn)]
        rw [show n + 1 + (cs.takeWhile isNameChar).length =
          n + ((cs.takeWhile isNameChar).length + 1) by omega]
      · constructor
        · rintro ⟨-, hshort⟩
          have hlong : (TextPlace.name (n + 1)).Short := by
            cases cs with
            | nil => exact hshort
            | cons d ds => exact hshort.1
          exact absurd hlong hnext
        · rintro ⟨hlen, -⟩
          omega
    · rw [if_neg hname, List.takeWhile_cons_of_neg hname, List.dropWhile_cons_of_neg hname,
        shortWords_outside]
      exact and_congr_left fun _ => Iff.rfl

theorem shortWords_string {seenEsc : Bool} {n : Nat} (hn : n ≤ lexerMaxStrLen) (cs : List Char) :
    ShortWords (.string seenEsc n) cs ↔ n + (lexString seenEsc n cs).1.length ≤ lexerMaxStrLen ∧
      ShortWords .outside (lexString seenEsc n cs).2.source := by
  induction cs generalizing seenEsc n with
  | nil => simp [ShortWords, TextPlace.Short, lexString, Lexer.reuse]
  | cons c cs ih =>
    rw [ShortWords, TextPlace.next, lexString, and_iff_right (show (TextPlace.string _ n).Short from hn)]
    by_cases hquote : c = '"' ∧ ¬ seenEsc
    · rw [if_pos hquote, if_pos hquote]
      exact (and_iff_right hn).symm
    · have hroom : ¬ n > lexerMaxStrLen := by omega
      rw [if_neg hquote, if_neg hquote, if_neg hroom]
      by_cases hesc : c = '\\' ∧ ¬ seenEsc
      · rw [if_pos hesc, if_pos hesc]
        exact ih hn
      · rw [if_neg hesc, if_neg hesc]
        dsimp only
        rw [List.length_cons]
        by_cases hnext : n + 1 ≤ lexerMaxStrLen
        · rw [ih hnext, show n + 1 + (lexString false (n + 1) cs).1.length =
            n + ((lexString false (n + 1) cs).1.length + 1) by omega]
        · constructor
          · intro hshort
            have hlong : (TextPlace.string false (n + 1)).Short := by
              cases cs with
              | nil => exact hshort
              | cons d ds => exact hshort.1
            exact absurd hlong hnext
          · rintro ⟨hlen, -⟩
            omega

end Words

/-! ## The writes -/

section Writes

variable {c : Char} {cs : List Char} {len : Nat}

theorem nameLoop_eq (hlen : len ≤ lexerMaxStrLen) (c : Char) (cs : List Char) :
    nameLoop len c cs =
      (putAll len ((c :: (cs.takeWhile isNameChar).take (lexerMaxStrLen - len)).map Char.toLower),
        len + 1 + ((cs.takeWhile isNameChar).take (lexerMaxStrLen - len)).length) := by
  induction cs generalizing len c with
  | nil => simp [nameLoop, putAll]
  | cons c' cs ih =>
    rw [nameLoop]
    by_cases hname : isNameChar c' = true
    · rw [List.takeWhile_cons_of_pos hname]
      by_cases hnext : len + 1 ≤ lexerMaxStrLen
      · rw [if_pos ⟨hname, hnext⟩, ih hnext,
          show lexerMaxStrLen - len = (lexerMaxStrLen - (len + 1)) + 1 by omega, List.take_succ_cons,
          List.length_cons]
        exact Prod.ext rfl (by dsimp only; omega)
      · rw [if_neg fun h => hnext h.2, show lexerMaxStrLen - len = 0 by omega]
        rfl
    · rw [if_neg fun h => hname h.1, List.takeWhile_cons_of_neg hname]
      rw [List.take_nil]
      rfl

theorem stringLoop_eq (seenEsc : Bool) (len : Nat) (cs : List Char) :
    stringLoop seenEsc len cs =
      (putAll len (lexString seenEsc len cs).1, len + (lexString seenEsc len cs).1.length) := by
  induction cs generalizing seenEsc len with
  | nil => rfl
  | cons c cs ih =>
    rw [stringLoop, lexString]
    by_cases hquote : c = '"' ∧ ¬ seenEsc
    · rw [if_neg (by simp [hquote.1, hquote.2]), if_pos hquote]
      rfl
    · have hopen : c ≠ '"' ∨ seenEsc = true := by
        rw [not_and_or, not_not] at hquote
        exact hquote
      rw [if_neg hquote]
      by_cases hfull : len > lexerMaxStrLen
      · rw [if_neg fun h => absurd h.2 (by omega), if_pos hfull]
        rfl
      · rw [if_pos ⟨hopen, by omega⟩, if_neg hfull]
        by_cases hesc : c = '\\' ∧ ¬ seenEsc
        · rw [if_pos hesc, if_pos hesc, ih]
        · rw [if_neg hesc, if_neg hesc, ih]
          refine Prod.ext rfl ?_
          dsimp only
          rw [List.length_cons]
          omega

/-- A text and its terminator. -/
theorem inside_closeOff {text : List Char} :
    Inside tokenBufSize (closeOff (putAll 0 text, text.length)) ↔ text.length ≤ lexerMaxStrLen := by
  unfold closeOff tokenBufSize
  rw [inside_append, inside_putAll (Nat.zero_le _), inside_singleton]
  omega

theorem inside_name : Inside tokenBufSize (closeOff (nameLoop 0 c cs)) ↔
    1 + (cs.takeWhile isNameChar).length ≤ lexerMaxStrLen := by
  have hloop := nameLoop_eq (Nat.zero_le _) c cs
  have hlen : ((c :: (cs.takeWhile isNameChar).take (lexerMaxStrLen - 0)).map Char.toLower).length =
      0 + 1 + ((cs.takeWhile isNameChar).take (lexerMaxStrLen - 0)).length := by
    rw [List.length_map, List.length_cons]
    omega
  rw [hloop, ← hlen, inside_closeOff, hlen, List.length_take]
  omega

theorem inside_string : Inside tokenBufSize (closeOff (stringLoop false 0 cs)) ↔
    (lexString false 0 cs).1.length ≤ lexerMaxStrLen := by
  rw [stringLoop_eq, Nat.zero_add]
  exact inside_closeOff

theorem copyName_eq (name : CStr) : copyName name = closeOff (putAll 0 name, name.length) := by
  unfold copyName sstrncpyWrites
  rw [if_pos (Nat.succ_ne_zero _), if_pos (Nat.lt_succ_self _)]
  dsimp only
  rw [List.take_length]
  rfl

theorem inside_copyName {name : CStr} :
    Inside tokenBufSize (copyName name) ↔ name.length ≤ lexerMaxStrLen := by
  rw [copyName_eq, inside_closeOff]

/-- What the lexer writes for a quoted string is the text of the token. -/
theorem stringLoop_holds {mem : Nat → Char} (h : nul ∉ (lexString false 0 cs).1) :
    HoldsString nul (applyWrites mem (closeOff (stringLoop false 0 cs))) (lexString false 0 cs).1 := by
  rw [stringLoop_eq, Nat.zero_add]
  exact holdsString_putAll h

/-- The copy of a name is the name. -/
theorem copyName_holds {name : CStr} {mem : Nat → Char} (h : nul ∉ name) :
    HoldsString nul (applyWrites mem (copyName name)) name := by
  rw [copyName_eq]
  exact holdsString_putAll h

end Writes

/-! ## The lexer over a text -/

/-- A lexer that has seen the end has nothing left to read. -/
def Lexer.Ended (lexer : Lexer) : Prop := lexer.seenEnd = true → lexer.source = []

theorem Lexer.reuse_ended (rest : List Char) : (Lexer.reuse rest).Ended := fun h =>
  List.isEmpty_iff.mp h

section Tokens

variable {c : Char} {cs : List Char} {lexer : Lexer} {source : List Char}

theorem lexString_ended (seenEsc : Bool) (len : Nat) (cs : List Char) :
    (lexString seenEsc len cs).2.Ended := by
  induction cs generalizing seenEsc len with
  | nil => exact Lexer.reuse_ended []
  | cons c cs ih =>
    rw [lexString]
    split_ifs
    · intro h
      cases h
    · intro h
      cases h
    · exact Lexer.reuse_ended _
    · exact ih true len
    · exact ih false (len + 1)

theorem lexToken_ended (c : Char) (cs : List Char) : (lexToken c cs).2.Ended := by
  unfold lexToken
  split
  · exact Lexer.reuse_ended _
  · split
    · exact Lexer.reuse_ended _
    · split
      · exact lexString_ended false 0 cs
      · intro h
        cases h

theorem reservedWord_name {s name : CStr} (h : reservedWord s = .name name) : s = name := by
  unfold reservedWord at h
  split_ifs at h
  exact Token.name.inj h

theorem drop_takeWhile_length (p : Char → Bool) (cs : List Char) :
    cs.drop (cs.takeWhile p).length = cs.dropWhile p := by
  have hsplit := List.takeWhile_append_dropWhile (p := p) (l := cs)
  calc cs.drop (cs.takeWhile p).length
      = (cs.takeWhile p ++ cs.dropWhile p).drop (cs.takeWhile p).length := by rw [hsplit]
    _ = cs.dropWhile p := List.drop_left

theorem skipBlanks_head (comment : Bool) (cs : List Char) :
    ∀ c rest, (skipBlanks comment cs).source = c :: rest → c ≠ '#' := by
  intro c rest h
  induction cs generalizing comment with
  | nil => cases h
  | cons d ds ih =>
    rw [skipBlanks] at h
    split_ifs at h with hcomment hline hblank hhash
    · obtain rfl : d = c := (List.cons.inj h).1
      rw [hline]
      decide
    · exact ih true h
    · exact ih false h
    · exact ih true h
    · obtain rfl : d = c := (List.cons.inj h).1
      exact hhash

/-- The token a text begins with, behind blanks and comments. -/
theorem shortWords_token (hhash : c ≠ '#') : ShortWords .outside (c :: cs) ↔
    (Inside tokenBufSize (if c.isDigit then [] else if c.isAlpha then closeOff (nameLoop 0 c cs)
        else if c = '"' then closeOff (stringLoop false 0 cs) else []) ∧
      ∀ name, (lexToken c cs).1 = .name name → Inside tokenBufSize (copyName name)) ∧
    ShortWords .outside (lexToken c cs).2.source := by
  have hempty : Inside tokenBufSize ([] : List (Nat × Char)) := by simp [Inside]
  unfold lexToken
  by_cases hdigit : c.isDigit = true
  · obtain ⟨halpha, hno, hquote⟩ := isDigit_not_alpha hdigit
    rw [if_pos hdigit, if_pos hdigit, shortWords_outside, begin_other hno hquote halpha,
      shortWords_digits]
    refine (and_iff_right ⟨hempty, fun name h => ?_⟩).symm
    simp [lexInt] at h
  · rw [if_neg hdigit, if_neg hdigit]
    by_cases halpha : c.isAlpha = true
    · have hquote : c ≠ '"' := by
        rintro rfl
        simp at halpha
      have hbegin : TextPlace.begin c = .name 1 := by
        unfold TextPlace.begin
        rw [if_neg hhash, if_neg hquote, if_pos halpha]
      rw [if_pos halpha, if_pos halpha, shortWords_outside, hbegin,
        shortWords_name (by decide), inside_name]
      -- a name that fits is read as a whole
      have hread : 1 + (cs.takeWhile isNameChar).length ≤ lexerMaxStrLen →
          (cs.takeWhile isNameChar).take lexerMaxStrLen = cs.takeWhile isNameChar ∧
            (lexName c cs).2.source = cs.dropWhile isNameChar := by
        intro hlen
        have htake : (cs.takeWhile isNameChar).take lexerMaxStrLen = cs.takeWhile isNameChar :=
          List.take_of_length_le (by omega)
        refine ⟨htake, ?_⟩
        show cs.drop ((cs.takeWhile isNameChar).take lexerMaxStrLen).length = _
        rw [htake]
        exact drop_takeWhile_length isNameChar cs
      constructor
      · rintro ⟨hlen, hrest⟩
        obtain ⟨htake, hsource⟩ := hread hlen
        refine ⟨⟨hlen, fun name h => ?_⟩, by rwa [hsource]⟩
        obtain rfl := reservedWord_name h
        rw [inside_copyName, List.length_map, List.length_cons, htake]
        omega
      · rintro ⟨⟨hlen, -⟩, hrest⟩
        exact ⟨hlen, (hread hlen).2 ▸ hrest⟩
    · rw [if_neg halpha, if_neg halpha]
      by_cases hquote : c = '"'
      · subst hquote
        have hbegin : TextPlace.begin '"' = .string false 0 := rfl
        rw [if_pos rfl, if_pos rfl, shortWords_outside, hbegin, shortWords_string (Nat.zero_le _),
          inside_string, Nat.zero_add]
        refine and_congr_left fun _ => (and_iff_left fun name h => ?_).symm
        simp at h
      · rw [if_neg hquote, if_neg hquote, shortWords_outside,
          begin_other hhash hquote (Bool.eq_false_iff.mpr halpha)]
        refine (and_iff_right ⟨hempty, fun name h => ?_⟩).symm
        dsimp only at h
        split_ifs at h

/-- What the next token does to the rest of the text. -/
theorem shortWords_next (hopen : lexer.seenEnd = false) : ShortWords .outside lexer.source ↔
    LexerSafe lexer ∧ ShortWords .outside (configLexerNextToken lexer).2.source := by
  have hsafe : LexerSafe lexer ↔ Inside tokenBufSize (tokenWrites lexer) ∧
      ∀ name, (configLexerNextToken lexer).1 = .name name → Inside tokenBufSize (copyName name) :=
    ⟨fun h => ⟨h.token, h.copy⟩, fun h => ⟨h.1, h.2⟩⟩
  have hskip := shortWords_skip false lexer.source
  rw [if_neg (by simp)] at hskip
  rw [hskip, hsafe]
  unfold tokenWrites configLexerNextToken
  rw [if_neg (by rw [hopen]; simp), if_neg (by rw [hopen]; simp)]
  dsimp only
  have hhead := skipBlanks_head false lexer.source
  generalize hskipped : skipBlanks false lexer.source = skipped at hhead
  cases hsource : skipped.source with
  | nil =>
    dsimp only
    rw [hsource]
    refine (and_iff_right ⟨by simp [Inside], fun name h => ?_⟩).symm
    cases h
  | cons c cs =>
    dsimp only
    exact shortWords_token (hhead c cs hsource)

/-- What is left of the text gets shorter. -/
theorem next_source_lt {source' : List Char} (hopen : lexer.seenEnd = false)
    (h : (configLexerNextToken lexer).2.source = source') (hne : source' ≠ []) :
    source'.length < lexer.source.length := by
  have hsuffix := (skipBlanks_suffix false lexer.source).length_le
  unfold configLexerNextToken at h
  rw [if_neg (by rw [hopen]; simp)] at h
  dsimp only at h
  generalize skipBlanks false lexer.source = skipped at h hsuffix
  cases hskipped : skipped.source with
  | nil =>
    rw [hskipped] at h
    dsimp only at h
    exact absurd (h.symm.trans hskipped) hne
  | cons c cs =>
    rw [hskipped] at h hsuffix
    have hlen := lexToken_length c cs
    dsimp only at h
    rw [h] at hlen
    rw [List.length_cons] at hsuffix
    omega

theorem next_ended (hended : lexer.Ended) : (configLexerNextToken lexer).2.Ended := by
  unfold configLexerNextToken
  split
  · exact hended
  · dsimp only
    split
    · next hskipped => exact fun _ => hskipped
    · exact lexToken_ended _ _

theorem LexerRun.ended (h : LexerRun source lexer) : lexer.Ended := by
  induction h with
  | start =>
    intro h
    cases h
  | next _ ih => exact next_ended ih

/-- A lexer at the end writes nothing. -/
theorem lexerSafe_of_seenEnd (h : lexer.seenEnd = true) : LexerSafe lexer := by
  constructor
  · unfold tokenWrites
    rw [if_pos h]
    simp [Inside]
  · intro name hname
    unfold configLexerNextToken at hname
    rw [if_pos h] at hname
    cases hname

/-- Every token fits that is read of a text with short words. -/
theorem LexerRun.shortWords (h : LexerRun source lexer) (hshort : ShortWords .outside source) :
    ShortWords .outside lexer.source := by
  induction h with
  | start => exact hshort
  | @next lexer _ ih =>
    cases hopen : lexer.seenEnd with
    | true =>
      unfold configLexerNextToken
      rw [if_pos hopen]
      exact ih
    | false => exact ((shortWords_next hopen).mp ih).2

/-- If every token that is read fits, the words are short. -/
theorem shortWords_of_safe (hended : lexer.Ended)
    (hrun : LexerRun source lexer) (hsafe : ∀ lexer', LexerRun source lexer' → LexerSafe lexer') :
    ShortWords .outside lexer.source := by
  generalize hn : lexer.source.length = n
  induction n using Nat.strong_induction_on generalizing lexer with
  | _ n ih =>
    cases hopen : lexer.seenEnd with
    | true =>
      rw [hended hopen]
      exact trivial
    | false =>
      refine (shortWords_next hopen).mpr ⟨hsafe lexer hrun, ?_⟩
      by_cases hempty : (configLexerNextToken lexer).2.source = []
      · rw [hempty]
        exact trivial
      · exact ih _ (hn ▸ next_source_lt hopen rfl hempty) (next_ended hended) (.next hrun) rfl

/-- Over any text, the tokens and the copies of names stay in their buffers if and only if no
name and no quoted string of the text has more than 256 characters. -/
theorem token_buffers_iff (source : List Char) :
    (∀ lexer, LexerRun source lexer → LexerSafe lexer) ↔ ShortWords .outside source := by
  constructor
  · intro hsafe
    have hstart : LexerRun source (configLexerCreate source) := .start
    exact shortWords_of_safe hstart.ended hstart hsafe
  · intro hshort lexer hrun
    cases hopen : lexer.seenEnd with
    | true => exact lexerSafe_of_seenEnd hopen
    | false => exact ((shortWords_next hopen).mp (hrun.shortWords hshort)).1

end Tokens

/-- A name of 256 characters fits, with its terminator at index 256. One of 257 and a string of
257 have theirs written behind the buffer, and so has the copy of the name. -/
theorem token_too_long :
    LexerSafe (configLexerCreate (List.replicate 256 'a')) ∧
    (257, nul) ∈ tokenWrites (configLexerCreate (List.replicate 257 'a')) ∧
    (257, nul) ∈ tokenWrites (configLexerCreate ('"' :: List.replicate 257 'a')) ∧
    (configLexerNextToken (configLexerCreate (List.replicate 257 'a'))).1 =
      .name (List.replicate 257 'a') ∧
    (257, nul) ∈ copyName (List.replicate 257 'a') ∧
    ¬ ∀ lexer, LexerRun (List.replicate 257 'a') lexer → LexerSafe lexer := by
  have hname : (configLexerNextToken (configLexerCreate (List.replicate 256 'a'))).1 =
      .name (List.replicate 256 'a') := by decide +kernel
  refine ⟨⟨by decide +kernel, fun name h => ?_⟩, by decide +kernel, by decide +kernel,
    by decide +kernel, by decide +kernel, fun hsafe => ?_⟩
  · rw [hname] at h
    obtain rfl := Token.name.inj h
    decide +kernel
  · exact absurd (hsafe _ .start).token (by decide +kernel)

end Greyd
