import Mathlib.Tactic
import Greyd.FeedGrammar

/-!
# Feeds by lines

The tokens of a text are those of its lines with an end of line between them, up to the
first character that the lexer does not know: there it reports an end of file.
-/
namespace Greyd

def spamdLexerCreate (source : List Char) : Lexer := ⟨source, false⟩

/-- Nothing but blanks and comments is left. -/
def Lexer.atEnd (lexer : Lexer) : Bool :=
  lexer.seenEnd || (skipBlanks false lexer.source).source.isEmpty

/-- The tokens in front of the first end of file, and whether that is the end of the text. -/
def feedTokens : Nat → Lexer → List SpamdTok × Bool
  | 0, _ => ([], false)
  | fuel + 1, lexer =>
    let (tok, next) := spamdLexerNextToken lexer
    if tok = .eof then ([], lexer.atEnd)
    else (tok :: (feedTokens fuel next).1, (feedTokens fuel next).2)

def lexFeed (lexer : Lexer) : List SpamdTok × Bool := feedTokens (lexer.source.length + 1) lexer

/-! ## Tokens -/

theorem spamdDigits_suffix (i : Nat) (cs : List Char) : (spamdDigits i cs).2 <:+ cs := by
  induction cs generalizing i with
  | nil => exact List.suffix_rfl
  | cons c cs ih =>
    rw [spamdDigits]
    split_ifs
    · exact List.suffix_rfl
    · exact (ih _).trans (List.suffix_cons c cs)
    · exact List.suffix_rfl

theorem next_cons {lexer : Lexer} {c : Char} {cs : List Char} (hseen : lexer.seenEnd = false)
    (hsource : (skipBlanks false lexer.source).source = c :: cs) : spamdLexerNextToken lexer =
      if c.isDigit then (spamdInt (spamdDigits (digitVal c) cs).1, .reuse (spamdDigits (digitVal c) cs).2)
      else (spamdChar c, ⟨cs, false⟩) := by
  simp [spamdLexerNextToken, hseen, hsource]

theorem next_atEnd {lexer : Lexer} (h : lexer.atEnd = true) : (spamdLexerNextToken lexer).1 = .eof := by
  rw [Lexer.atEnd, Bool.or_eq_true, List.isEmpty_iff] at h
  cases hseen : lexer.seenEnd with
  | true => simp [spamdLexerNextToken, hseen]
  | false =>
    rw [hseen] at h
    simp [spamdLexerNextToken, hseen, h.resolve_left (by decide)]

theorem exists_next_cons {lexer : Lexer} (h : lexer.atEnd = false) : lexer.seenEnd = false ∧
    ∃ c cs, (skipBlanks false lexer.source).source = c :: cs := by
  rw [Lexer.atEnd, Bool.or_eq_false_iff, List.isEmpty_eq_false_iff] at h
  exact ⟨h.1, List.exists_cons_of_ne_nil h.2⟩

/-- A token takes a character. -/
theorem next_length {lexer : Lexer} (h : (spamdLexerNextToken lexer).1 ≠ .eof) :
    (spamdLexerNextToken lexer).2.source.length < lexer.source.length := by
  have hend : lexer.atEnd = false := Bool.eq_false_iff.mpr fun hend => h (next_atEnd hend)
  obtain ⟨hseen, c, cs, hsource⟩ := exists_next_cons hend
  have hskip := (skipBlanks_suffix false lexer.source).length_le
  rw [hsource, List.length_cons] at hskip
  rw [next_cons hseen hsource]
  split
  · exact Nat.lt_of_le_of_lt (spamdDigits_suffix _ _).length_le hskip
  · exact hskip

theorem feedTokens_fuel {fuel fuel' : Nat} {lexer : Lexer} (h : lexer.source.length < fuel)
    (h' : lexer.source.length < fuel') : feedTokens fuel lexer = feedTokens fuel' lexer := by
  induction fuel generalizing fuel' lexer with
  | zero => omega
  | succ fuel ih =>
    obtain ⟨fuel', rfl⟩ := Nat.exists_eq_succ_of_ne_zero (Nat.ne_of_gt (Nat.zero_lt_of_lt h'))
    rw [feedTokens, feedTokens]
    by_cases htok : (spamdLexerNextToken lexer).1 = .eof
    · simp [htok]
    · have hlt := next_length htok
      have hrec : feedTokens fuel (spamdLexerNextToken lexer).2 =
          feedTokens fuel' (spamdLexerNextToken lexer).2 := ih (by omega) (by omega)
      simp only [htok, if_false]
      rw [hrec]

theorem lexFeed_eof {lexer : Lexer} (h : (spamdLexerNextToken lexer).1 = .eof) :
    lexFeed lexer = ([], lexer.atEnd) := by
  rw [lexFeed, feedTokens]
  simp [h]

theorem lexFeed_tok {lexer : Lexer} (h : (spamdLexerNextToken lexer).1 ≠ .eof) :
    lexFeed lexer = ((spamdLexerNextToken lexer).1 :: (lexFeed (spamdLexerNextToken lexer).2).1,
      (lexFeed (spamdLexerNextToken lexer).2).2) := by
  have hlt := next_length h
  rw [lexFeed, feedTokens]
  simp only [h, if_false]
  rw [lexFeed, feedTokens_fuel hlt (Nat.lt_succ_self _)]

theorem feeds_lexFeed (lexer : Lexer) : Feeds spamdLexerNextToken lexer (lexFeed lexer).1 := by
  induction hlen : lexer.source.length using Nat.strong_induction_on generalizing lexer with
  | _ n ih =>
    by_cases h : (spamdLexerNextToken lexer).1 = .eof
    · rw [lexFeed_eof h]
      exact .done h
    · rw [lexFeed_tok h]
      exact .step rfl h (ih _ (hlen ▸ next_length h) _ rfl)

theorem lexFeed_length (lexer : Lexer) : (lexFeed lexer).1.length ≤ lexer.source.length := by
  induction hlen : lexer.source.length using Nat.strong_induction_on generalizing lexer with
  | _ n ih =>
    by_cases h : (spamdLexerNextToken lexer).1 = .eof
    · simp [lexFeed_eof h]
    · have hlt := hlen ▸ next_length h
      have := ih _ hlt _ rfl
      rw [lexFeed_tok h, List.length_cons]
      omega

/-! ## Lines -/

private theorem skipBlanks_line (comment : Bool) {cs : List Char} (h : '\n' ∉ cs) (rest : List Char) :
    skipBlanks comment (cs ++ '\n' :: rest) =
      ⟨(skipBlanks comment cs).source ++ '\n' :: rest, false⟩ := by
  induction cs generalizing comment with
  | nil => cases comment <;> rfl
  | cons c cs ih =>
    simp only [List.mem_cons, not_or] at h
    have hc : ¬ c = '\n' := fun hc => h.1 hc.symm
    rw [List.cons_append, skipBlanks, skipBlanks]
    split_ifs
    · exact ih true h.2
    · exact ih false h.2
    · exact ih true h.2
    · rfl

private theorem spamdDigits_line (i : Nat) (cs rest : List Char) :
    spamdDigits i (cs ++ '\n' :: rest) =
      ((spamdDigits i cs).1, (spamdDigits i cs).2 ++ '\n' :: rest) := by
  induction cs generalizing i with
  | nil => rfl
  | cons c cs ih =>
    rw [List.cons_append, spamdDigits, spamdDigits]
    split_ifs
    · rfl
    · exact ih _
    · rfl

/-- A lexer inside a line: what it has left, and that this is all once it has seen the end. -/
structure InLine (lexer : Lexer) : Prop where
  noEol : '\n' ∉ lexer.source
  ended : lexer.seenEnd = true → lexer.source = []

/-- The lexer with the rest of the text behind its line. -/
def Lexer.behind (lexer : Lexer) (rest : List Char) : Lexer := ⟨lexer.source ++ '\n' :: rest, false⟩

private theorem spamdInt_cases (i : Nat) : spamdInt i ≠ .eof ∧ spamdInt i ≠ .eol := by
  unfold spamdInt
  split <;> simp

private theorem spamdChar_ne_eol {c : Char} (h : c ≠ '\n') : spamdChar c ≠ .eol := by
  unfold spamdChar
  rw [if_neg h]
  split_ifs <;> simp

/-- In front of more lines, the lexer takes the same token, or the end of its line. -/
theorem next_line {lexer : Lexer} (h : InLine lexer) (rest : List Char) :
    ((spamdLexerNextToken lexer).1 ≠ .eof ∧ (spamdLexerNextToken lexer).1 ≠ .eol ∧
        InLine (spamdLexerNextToken lexer).2 ∧
        spamdLexerNextToken (lexer.behind rest) =
          ((spamdLexerNextToken lexer).1, (spamdLexerNextToken lexer).2.behind rest)) ∨
      (lexer.atEnd = true ∧ spamdLexerNextToken (lexer.behind rest) = (.eol, spamdLexerCreate rest)) ∨
      ((spamdLexerNextToken lexer).1 = .eof ∧ lexer.atEnd = false ∧
        (spamdLexerNextToken (lexer.behind rest)).1 = .eof ∧ (lexer.behind rest).atEnd = false) := by
  have hskip : (skipBlanks false (lexer.behind rest).source).source =
      (skipBlanks false lexer.source).source ++ '\n' :: rest := by
    rw [Lexer.behind, skipBlanks_line false h.noEol]
  cases hend : lexer.atEnd with
  | true =>
    have hnil : (skipBlanks false lexer.source).source = [] := by
      rw [Lexer.atEnd, Bool.or_eq_true, List.isEmpty_iff] at hend
      rcases hend with hseen | hnil
      · rw [h.ended hseen]
        rfl
      · exact hnil
    refine .inr (.inl ⟨rfl, ?_⟩)
    rw [hnil] at hskip
    rw [next_cons rfl hskip]
    rfl
  | false =>
    obtain ⟨hseen, c, cs, hsource⟩ := exists_next_cons hend
    have hmem : '\n' ∉ c :: cs := fun hmem =>
      h.noEol ((skipBlanks_suffix false lexer.source).subset (hsource ▸ hmem))
    rw [List.mem_cons, not_or] at hmem
    rw [hsource, List.cons_append] at hskip
    have hend' : (lexer.behind rest).atEnd = false := by
      rw [Lexer.atEnd, hskip]
      rfl
    rw [next_cons hseen hsource, next_cons rfl hskip]
    by_cases hdigit : c.isDigit = true
    · obtain ⟨hne, hnl⟩ := spamdInt_cases (spamdDigits (digitVal c) cs).1
      rw [if_pos hdigit, if_pos hdigit, spamdDigits_line]
      refine .inl ⟨hne, hnl, ⟨fun hin => hmem.2 ((spamdDigits_suffix _ _).subset hin), fun he => ?_⟩, ?_⟩
      · exact List.isEmpty_iff.mp he
      · simp [Lexer.behind, Lexer.reuse]
    · rw [if_neg hdigit, if_neg hdigit]
      by_cases hc : spamdChar c = .eof
      · exact .inr (.inr ⟨hc, rfl, hc, hend'⟩)
      · exact .inl ⟨hc, spamdChar_ne_eol fun h => hmem.1 h.symm, ⟨hmem.2, fun he => absurd he (by simp)⟩,
          rfl⟩

/-- A text is read line by line; behind a character the lexer does not know, nothing is. -/
theorem lexFeed_behind {lexer : Lexer} (h : InLine lexer) (rest : List Char) :
    lexFeed (lexer.behind rest) =
      if (lexFeed lexer).2 then
        ((lexFeed lexer).1 ++ .eol :: (lexFeed (spamdLexerCreate rest)).1,
          (lexFeed (spamdLexerCreate rest)).2)
      else lexFeed lexer := by
  induction hlen : lexer.source.length using Nat.strong_induction_on generalizing lexer with
  | _ n ih =>
    rcases next_line h rest with ⟨hne, hnl, hin, hnext⟩ | ⟨hend, hnext⟩ | ⟨heof, hend, heof', hend'⟩
    · have hrec := ih _ (hlen ▸ next_length hne) hin rfl
      have hne' : (spamdLexerNextToken (lexer.behind rest)).1 ≠ .eof := by
        rw [hnext]
        exact hne
      rw [lexFeed_tok hne', hnext, lexFeed_tok hne, hrec]
      dsimp only
      split <;> rfl
    · have hne' : (spamdLexerNextToken (lexer.behind rest)).1 ≠ .eof := by simp [hnext]
      rw [lexFeed_tok hne', hnext, lexFeed_eof (next_atEnd hend), hend]
      rfl
    · rw [lexFeed_eof heof', lexFeed_eof heof, hend, hend']
      rfl

theorem eol_not_mem_lexFeed {lexer : Lexer} (h : InLine lexer) : .eol ∉ (lexFeed lexer).1 := by
  induction hlen : lexer.source.length using Nat.strong_induction_on generalizing lexer with
  | _ n ih =>
    rcases next_line h [] with ⟨hne, hnl, hin, -⟩ | ⟨hend, -⟩ | ⟨heof, -⟩
    · rw [lexFeed_tok hne, List.mem_cons, not_or]
      exact ⟨fun he => hnl he.symm, ih _ (hlen ▸ next_length hne) hin rfl⟩
    · simp [lexFeed_eof (next_atEnd hend)]
    · simp [lexFeed_eof heof]

end Greyd
