import Greyd.StringLimit

/-!
# The references of the configuration parser

A section is referred to from its opening brace to its closing brace, a list from its opening
bracket to its closing bracket. What a run leaves referred to can be read off the tokens: each
grammar function keeps what the references will be at the end of them.
-/
namespace Greyd

open Parse

/-! ## The tokens of a source -/

theorem lexString_source_length (seenEsc : Bool) (len : Nat) (cs : List Char) :
    (lexString seenEsc len cs).2.source.length ≤ cs.length := by
  induction cs generalizing seenEsc len with
  | nil => simp [lexString, Lexer.reuse]
  | cons c cs ih =>
    rw [lexString]
    split_ifs
    · exact Nat.le_succ _
    · exact Nat.le_succ _
    · exact Nat.le_refl _
    · exact Nat.le_succ_of_le (ih _ _)
    · exact Nat.le_succ_of_le (ih _ _)

theorem lexToken_length (c : Char) (cs : List Char) : (lexToken c cs).2.source.length ≤ cs.length := by
  unfold lexToken
  split
  · exact (List.dropWhile_sublist _).length_le
  split
  · exact (List.drop_sublist _ _).length_le
  split
  · exact lexString_source_length _ _ _
  · exact Nat.le_refl _

/-- Every token but the end takes a character. -/
theorem configLexerNextToken_length {lexer : Lexer} (h : (configLexerNextToken lexer).1 ≠ .eof) :
    (configLexerNextToken lexer).2.source.length < lexer.source.length := by
  revert h
  unfold configLexerNextToken
  split
  · simp
  · have hskip := (skipBlanks_suffix false lexer.source).length_le
    dsimp only
    split
    · simp
    · next c cs hsource =>
      intro _
      have hlength := lexToken_length c cs
      rw [hsource, List.length_cons] at hskip
      omega

def tokensFrom : Nat → Lexer → List Token
  | 0, _ => []
  | fuel + 1, lexer =>
    if (configLexerNextToken lexer).1 = .eof then []
    else (configLexerNextToken lexer).1 :: tokensFrom fuel (configLexerNextToken lexer).2

/-- The tokens in front of the first one that ends the file. -/
def Lexer.tokens (lexer : Lexer) : List Token := tokensFrom (lexer.source.length + 1) lexer

theorem tokensFrom_eq {fuel fuel' : Nat} {lexer : Lexer} (h : lexer.source.length < fuel)
    (h' : lexer.source.length < fuel') : tokensFrom fuel lexer = tokensFrom fuel' lexer := by
  induction fuel generalizing fuel' lexer with
  | zero => omega
  | succ fuel ih =>
    obtain ⟨fuel', rfl⟩ := Nat.exists_eq_succ_of_ne_zero (by omega : fuel' ≠ 0)
    rw [tokensFrom, tokensFrom]
    by_cases hend : (configLexerNextToken lexer).1 = .eof
    · rw [if_pos hend, if_pos hend]
    · have hlength := configLexerNextToken_length hend
      rw [if_neg hend, if_neg hend]
      exact congrArg _ (ih (by omega) (by omega))

/-- The tokens the parser has before it, the current one first. -/
def ConfigParser.tokens (parser : ConfigParser) : List Token :=
  if parser.curr = .eof then [] else parser.curr :: parser.lexer.tokens

theorem tokens_advance (parser : ConfigParser) : parser.advance.tokens = parser.lexer.tokens := by
  rw [Lexer.tokens, tokensFrom, ConfigParser.tokens]
  show (if (configLexerNextToken parser.lexer).1 = .eof then [] else
    (configLexerNextToken parser.lexer).1 :: (configLexerNextToken parser.lexer).2.tokens) = _
  by_cases hend : (configLexerNextToken parser.lexer).1 = .eof
  · rw [if_pos hend, if_pos hend]
  · have hlength := configLexerNextToken_length hend
    rw [if_neg hend, if_neg hend, Lexer.tokens, tokensFrom_eq (by omega) hlength]

theorem tokens_of_curr {parser : ConfigParser} (h : parser.curr ≠ .eof) :
    parser.tokens = parser.curr :: parser.advance.tokens := by
  rw [tokens_advance, ConfigParser.tokens, if_neg h]

/-! ## What is left open -/

/-- Whether something is open behind a token, if it was in front of it. -/
def openBehind (opening closing : Token) (isOpen : Bool) (tok : Token) : Bool :=
  if tok = opening then true else if tok = closing then false else isOpen

/-- Whether something is open behind the tokens: the last opening or closing token decides. -/
def leftOpen (opening closing : Token) (isOpen : Bool) (tokens : List Token) : Bool :=
  tokens.foldl (openBehind opening closing) isOpen

def sectionLeftOpen : Bool → List Token → Bool := leftOpen .bracketL .bracketR
def listLeftOpen : Bool → List Token → Bool := leftOpen .sqbrackL .sqbrackR

/-- The parser moves over tokens that change what is open in a known way. -/
structure Moves (braces brackets : Bool → Bool) (parser parser' : ConfigParser) : Prop where
  sectionRef : parser'.section' = parser.section'
  value : parser'.value = parser.value
  braces : ∀ isOpen, sectionLeftOpen isOpen parser.tokens =
    sectionLeftOpen (braces isOpen) parser'.tokens
  brackets : ∀ isOpen, listLeftOpen isOpen parser.tokens =
    listLeftOpen (brackets isOpen) parser'.tokens

/-- A token that neither opens nor closes anything. -/
def Token.Plain (tok : Token) : Prop :=
  tok ≠ .eof ∧ tok ≠ .bracketL ∧ tok ≠ .bracketR ∧ tok ≠ .sqbrackL ∧ tok ≠ .sqbrackR

section Moves

variable {parser parser₁ parser' : ConfigParser} {tok : Token} {f g f' g' : Bool → Bool} {r : Bool}

theorem Moves.refl (parser : ConfigParser) : Moves id id parser parser := ⟨rfl, rfl, fun _ => rfl, fun _ => rfl⟩

theorem Moves.trans (h : Moves f g parser parser₁) (h' : Moves f' g' parser₁ parser') :
    Moves (f' ∘ f) (g' ∘ g) parser parser' where
  sectionRef := h'.sectionRef.trans h.sectionRef
  value := h'.value.trans h.value
  braces isOpen := (h.braces isOpen).trans (h'.braces _)
  brackets isOpen := (h.brackets isOpen).trans (h'.brackets _)

theorem Moves.advance (hcurr : parser.curr = tok) (htok : tok ≠ .eof) :
    Moves (openBehind .bracketL .bracketR · tok) (openBehind .sqbrackL .sqbrackR · tok) parser
      parser.advance := by
  have htokens := tokens_of_curr (hcurr ▸ htok)
  rw [hcurr] at htokens
  exact ⟨rfl, rfl, fun isOpen => by rw [htokens]; rfl, fun isOpen => by rw [htokens]; rfl⟩

theorem Moves.advance_plain (hcurr : parser.curr = tok) (htok : tok.Plain) :
    Moves id id parser parser.advance := by
  obtain ⟨heof, hl, hr, hsl, hsr⟩ := htok
  have h := advance hcurr heof
  have hbraces : (openBehind .bracketL .bracketR · tok) = id := by
    funext isOpen
    rw [openBehind, if_neg hl, if_neg hr, id]
  have hbrackets : (openBehind .sqbrackL .sqbrackR · tok) = id := by
    funext isOpen
    rw [openBehind, if_neg hsl, if_neg hsr, id]
  rwa [hbraces, hbrackets] at h

theorem Moves.advanceEols (hcurr : parser.curr = .eol) (fuel : Nat) :
    Moves id id parser (advanceEols fuel parser) := by
  induction fuel generalizing parser with
  | zero => exact .refl parser
  | succ fuel ih =>
    have hfirst : Moves id id parser parser.advance := advance_plain hcurr (by simp [Token.Plain])
    rw [Greyd.advanceEols]
    split
    · next heol => exact hfirst.trans (ih heol)
    · exact hfirst

theorem accept_false (hrun : accept tok parser = some (false, parser')) : parser' = parser := by
  unfold accept at hrun
  split at hrun
  · cases hrun
  · cases hrun
    rfl

theorem accept_true (htok : tok ≠ .eof) (hrun : accept tok parser = some (true, parser')) :
    Moves (openBehind .bracketL .bracketR · tok) (openBehind .sqbrackL .sqbrackR · tok) parser
      parser' := by
  unfold accept at hrun
  split at hrun
  · next hcurr =>
    obtain ⟨-, rfl⟩ := Prod.mk.inj (Option.some.inj hrun)
    by_cases heol : tok = .eol
    · subst heol
      exact .advanceEols hcurr _
    · rw [if_neg heol]
      exact .advance hcurr htok
  · cases hrun

theorem accept_plain (htok : tok.Plain) (hrun : accept tok parser = some (r, parser')) :
    Moves id id parser parser' := by
  cases r with
  | false => exact accept_false hrun ▸ .refl parser
  | true =>
    have h := accept_true htok.1 hrun
    have hbraces : (openBehind .bracketL .bracketR · tok) = id := by
      funext isOpen
      rw [openBehind, if_neg htok.2.1, if_neg htok.2.2.1, id]
    have hbrackets : (openBehind .sqbrackL .sqbrackR · tok) = id := by
      funext isOpen
      rw [openBehind, if_neg htok.2.2.2.1, if_neg htok.2.2.2.2, id]
    rwa [hbraces, hbrackets] at h

/-! ## What the references will be -/

/-- The references at the end of the tokens are the same seen from either parser. -/
structure SameEnd (parser parser' : ConfigParser) : Prop where
  sectionRef : sectionLeftOpen parser'.section'.isSome parser'.tokens =
    sectionLeftOpen parser.section'.isSome parser.tokens
  value : listLeftOpen parser'.value.isSome parser'.tokens =
    listLeftOpen parser.value.isSome parser.tokens

theorem SameEnd.refl (parser : ConfigParser) : SameEnd parser parser := ⟨rfl, rfl⟩

theorem SameEnd.trans (h : SameEnd parser parser₁) (h' : SameEnd parser₁ parser') :
    SameEnd parser parser' :=
  ⟨h'.sectionRef.trans h.sectionRef, h'.value.trans h.value⟩

theorem Moves.sameEnd (h : Moves id id parser parser') : SameEnd parser parser' :=
  ⟨by rw [h.sectionRef, h.braces]; rfl, by rw [h.value, h.brackets]; rfl⟩

def Parse.KeepsEnd (p : Parse) : Prop :=
  ∀ parser r parser', p parser = some (r, parser') → SameEnd parser parser'

theorem andThen_cases {p q : Parse} (hrun : andThen p q parser = some (r, parser')) :
    (∃ parser₁, p parser = some (true, parser₁) ∧ q parser₁ = some (r, parser')) ∨
      p parser = some (false, parser') ∧ r = false := by
  unfold andThen at hrun
  split at hrun
  · next parser₁ hfirst => exact .inl ⟨parser₁, hfirst, hrun⟩
  · next hfirst =>
    cases r with
    | true => exact absurd hrun (hfirst parser')
    | false => exact .inr ⟨hrun, rfl⟩

theorem orElse_cases {p q : Parse} (hrun : orElse p q parser = some (r, parser')) :
    (∃ parser₁, p parser = some (false, parser₁) ∧ q parser₁ = some (r, parser')) ∨
      p parser = some (true, parser') ∧ r = true := by
  unfold orElse at hrun
  split at hrun
  · next parser₁ hfirst => exact .inl ⟨parser₁, hfirst, hrun⟩
  · next hfirst =>
    cases r with
    | false => exact absurd hrun (hfirst parser')
    | true => exact .inr ⟨hrun, rfl⟩

section combinators

variable {p q : Parse}

theorem Parse.KeepsEnd.ok : ok.KeepsEnd := by
  intro parser r parser' hrun
  cases hrun
  exact .refl parser

theorem Parse.KeepsEnd.err : err.KeepsEnd := by
  intro parser r parser' hrun
  cases hrun
  exact .refl parser

theorem Parse.KeepsEnd.noResult : Parse.KeepsEnd fun _ => none := by
  intro parser r parser' hrun
  cases hrun

theorem Parse.KeepsEnd.andThen (hp : p.KeepsEnd) (hq : q.KeepsEnd) : (andThen p q).KeepsEnd := by
  intro parser r parser' hrun
  obtain ⟨parser₁, hfirst, hsecond⟩ | ⟨hfirst, -⟩ := andThen_cases hrun
  · exact (hp _ _ _ hfirst).trans (hq _ _ _ hsecond)
  · exact hp _ _ _ hfirst

theorem Parse.KeepsEnd.orElse (hp : p.KeepsEnd) (hq : q.KeepsEnd) : (orElse p q).KeepsEnd := by
  intro parser r parser' hrun
  obtain ⟨parser₁, hfirst, hsecond⟩ | ⟨hfirst, -⟩ := orElse_cases hrun
  · exact (hp _ _ _ hfirst).trans (hq _ _ _ hsecond)
  · exact hp _ _ _ hfirst

theorem Parse.KeepsEnd.accept (htok : tok.Plain) : (accept tok).KeepsEnd := by
  intro parser r parser' hrun
  exact (accept_plain htok hrun).sameEnd

end combinators

theorem acceptOptional_plain (htok : tok.Plain) (hrun : acceptOptional tok parser = some (r, parser')) :
    Moves id id parser parser' := by
  obtain ⟨parser₁, hfirst, hsecond⟩ | ⟨hfirst, -⟩ := orElse_cases hrun
  · cases hsecond
    exact accept_plain htok hfirst
  · exact accept_plain htok hfirst

theorem acceptOptional_true (hrun : acceptOptional tok parser = some (r, parser')) : r = true := by
  obtain ⟨parser₁, -, hsecond⟩ | ⟨-, htrue⟩ := orElse_cases hrun
  · cases hsecond
    rfl
  · exact htrue

/-- A closing token behind optional ends of line: it is there, or the parser has gone over plain
tokens. -/
theorem closing_cases {closing : Token}
    (hrun : orElse (andThen (accept .eol) (accept closing)) (accept closing) parser =
      some (r, parser')) :
    ∃ parser₁, Moves id id parser parser₁ ∧
      if r then accept closing parser₁ = some (true, parser') else parser' = parser₁ := by
  have heol : Token.eol.Plain := by simp [Token.Plain]
  obtain ⟨parser₁, hfirst, hsecond⟩ | ⟨hfirst, rfl⟩ := orElse_cases hrun
  · have hmoves : Moves id id parser parser₁ := by
      obtain ⟨parser₂, hmore, hnone⟩ | ⟨hnone, -⟩ := andThen_cases hfirst
      · exact accept_false hnone ▸ accept_plain heol hmore
      · exact accept_plain heol hnone
    refine ⟨parser₁, hmoves, ?_⟩
    cases r with
    | false => exact accept_false hsecond
    | true => exact hsecond
  · obtain ⟨parser₂, hmore, hclose⟩ | ⟨-, hfalse⟩ := andThen_cases hfirst
    · exact ⟨parser₂, accept_plain heol hmore, hclose⟩
    · cases hfalse

/-! ## The grammar functions -/

theorem accept_sqbrackL (hrun : accept .sqbrackL parser = some (true, parser'))
    (l : List ConfigValue) : SameEnd parser (parser'.setValue (some l)) := by
  have h := accept_true (by simp) hrun
  exact ⟨by rw [h.braces, ← h.sectionRef]; rfl, by rw [h.brackets]; rfl⟩

theorem accept_sqbrackR (hrun : accept .sqbrackR parser = some (true, parser')) :
    SameEnd parser (parser'.setValue none) := by
  have h := accept_true (by simp) hrun
  exact ⟨by rw [h.braces, ← h.sectionRef]; rfl, by rw [h.brackets]; rfl⟩

theorem accept_bracketR (hrun : accept .bracketR parser = some (true, parser')) :
    SameEnd parser { parser' with section' := none } := by
  have h := accept_true (by simp) hrun
  exact ⟨by rw [h.braces]; rfl, by rw [h.brackets, ← h.value]; rfl⟩

/-- A section is open from its brace on, whatever ends of line follow. -/
theorem open_sameEnd (hrun : accept .bracketL parser = some (true, parser₁))
    (hmoves : Moves id id parser₁ parser') (secname : CStr) :
    SameEnd parser (openSection secname parser') := by
  have h := (accept_true (by simp) hrun).trans hmoves
  exact ⟨by rw [h.braces]; rfl, by rw [h.brackets, ← h.value]; rfl⟩

theorem assign_frame {varname : CStr} {value : ConfigValue}
    (hrun : assign varname value parser = some parser') :
    ∃ config, parser' = { parser with config := config } := by
  unfold assign at hrun
  dsimp only at hrun
  split at hrun
  · cases hrun
  · cases hrun
    exact ⟨_, rfl⟩
  · cases hrun
    exact ⟨_, rfl⟩

theorem insertValue_sameEnd {value : ConfigValue} (hcurr : parser.curr = tok) (htok : tok.Plain)
    (hrun : insertValue value parser = some (r, parser')) : SameEnd parser parser' := by
  obtain ⟨l, hl, heq⟩ := Option.map_eq_some_iff.mp hrun
  cases heq
  have h := (Moves.advance_plain hcurr htok).sameEnd
  refine ⟨h.sectionRef, ?_⟩
  rw [← h.value]
  show listLeftOpen true parser.advance.tokens = listLeftOpen parser.value.isSome parser.advance.tokens
  rw [hl]
  rfl

theorem Parse.KeepsEnd.listValue : grammarListValue.KeepsEnd := by
  intro parser r parser' hrun
  unfold grammarListValue at hrun
  split at hrun
  · next i hcurr => exact insertValue_sameEnd hcurr (by simp [Token.Plain]) hrun
  · next s hcurr => exact insertValue_sameEnd hcurr (by simp [Token.Plain]) hrun
  · exact err _ _ _ hrun

theorem Parse.KeepsEnd.listValues (fuel : Nat) : (grammarListValues fuel).KeepsEnd := by
  have hplain : Token.eol.Plain ∧ Token.comma.Plain := by simp [Token.Plain]
  induction fuel with
  | zero => exact .noResult
  | succ fuel ih =>
    exact .orElse (.andThen (.accept hplain.2)
      (.orElse (.andThen (.accept hplain.1) (.andThen .listValue ih)) (.andThen .listValue ih))) .ok

/-- A complete list leaves its reference to the assignment. -/
theorem grammarList_end {fuel : Nat} (hrun : grammarList fuel parser = some (r, parser')) :
    if r then SameEnd parser (parser'.setValue none) else SameEnd parser parser' := by
  have hstatements : (grammarListStatements fuel).KeepsEnd := .andThen .listValue (.listValues fuel)
  have heol : Token.eol.Plain := by simp [Token.Plain]
  obtain ⟨parser₁, hopen, hrest⟩ | ⟨hnone, rfl⟩ := andThen_cases hrun
  · obtain ⟨parser₂, hnew, hrest⟩ | ⟨hnone, rfl⟩ := andThen_cases hrest
    · cases hnew
      have hopened := accept_sqbrackL hopen []
      obtain ⟨parser₃, hitems, hclose⟩ | ⟨hnone, rfl⟩ := andThen_cases hrest
      · have hitemsEnd := Parse.KeepsEnd.orElse (.andThen (.accept heol) hstatements) hstatements _ _ _
          hitems
        obtain ⟨parser₄, hmoves, hend⟩ := closing_cases hclose
        have hbefore := (hopened.trans hitemsEnd).trans hmoves.sameEnd
        cases r with
        | true => exact hbefore.trans (accept_sqbrackR hend)
        | false =>
          rw [if_neg Bool.false_ne_true] at hend ⊢
          exact hend ▸ hbefore
      · exact hopened.trans (Parse.KeepsEnd.orElse (.andThen (.accept heol) hstatements) hstatements
          _ _ _ hnone)
    · cases hnone
  · exact accept_false hnone ▸ .refl parser

/-- An assignment of the current token. -/
theorem assign_advance {varname : CStr} {value : ConfigValue} (hcurr : parser.curr = tok)
    (htok : tok.Plain) (hrun : (assign varname value parser).map (fun parser =>
      (true, parser.advance)) = some (r, parser')) : SameEnd parser parser' := by
  obtain ⟨parser₁, hassign, heq⟩ := Option.map_eq_some_iff.mp hrun
  obtain ⟨config, rfl⟩ := assign_frame hassign
  cases heq
  have h := (Moves.advance_plain hcurr htok).sameEnd
  exact ⟨h.sectionRef, h.value⟩

theorem Parse.KeepsEnd.assignmentValue (fuel : Nat) (varname : CStr) :
    (assignmentValue fuel varname).KeepsEnd := by
  intro parser r parser' hrun
  unfold Greyd.assignmentValue at hrun
  split at hrun
  · next i hcurr => exact assign_advance hcurr (by simp [Token.Plain]) hrun
  · next s hcurr => exact assign_advance hcurr (by simp [Token.Plain]) hrun
  · obtain ⟨parser₁, hlist, hrest⟩ | ⟨hlist, rfl⟩ := andThen_cases hrun
    · obtain ⟨l, -, hset⟩ := Option.bind_eq_some_iff.mp hrest
      obtain ⟨parser₂, hassign, heq⟩ := Option.map_eq_some_iff.mp hset
      obtain ⟨config, rfl⟩ := assign_frame hassign
      cases heq
      have h : SameEnd parser (parser₁.setValue none) := grammarList_end hlist
      exact ⟨h.sectionRef, h.value⟩
    · exact grammarList_end hlist

theorem Parse.KeepsEnd.assignment (fuel : Nat) : (grammarAssignment fuel).KeepsEnd := by
  intro parser r parser' hrun
  unfold grammarAssignment at hrun
  split at hrun
  · next varname hcurr =>
    have hname : SameEnd parser parser.advance :=
      (Moves.advance_plain hcurr (by simp [Token.Plain])).sameEnd
    exact hname.trans (andThen (accept (by simp [Token.Plain])) (assignmentValue fuel _) _ _ _ hrun)
  · exact err _ _ _ hrun

theorem Parse.KeepsEnd.sectionAssignments (fuel : Nat) : (grammarSectionAssignments fuel).KeepsEnd := by
  have hplain : Token.eol.Plain ∧ Token.comma.Plain := by simp [Token.Plain]
  induction fuel with
  | zero => exact .noResult
  | succ fuel ih =>
    exact .andThen (.orElse (.accept hplain.2) .ok)
      (.orElse (.andThen (.accept hplain.1) (.andThen (.assignment fuel) ih)) .ok)

theorem grammarSectionType_moves (hrun : grammarSectionType parser = some (r, parser')) :
    SameEnd parser parser' := by
  have hnext : ∀ sectype, parser.curr.Plain →
      SameEnd parser { parser with sectype := sectype }.advance := by
    intro sectype hplain
    have h := (Moves.advance_plain rfl hplain).sameEnd
    exact ⟨h.sectionRef, h.value⟩
  unfold grammarSectionType at hrun
  split at hrun
  · next hcurr =>
    cases hrun
    exact hnext _ (by simp [hcurr, Token.Plain])
  · next hcurr =>
    cases hrun
    exact hnext _ (by simp [hcurr, Token.Plain])
  · next hcurr =>
    cases hrun
    exact hnext _ (by simp [hcurr, Token.Plain])
  · exact Parse.KeepsEnd.err _ _ _ hrun

/-- The end of a section: its reference is dropped behind the closing brace. -/
theorem Parse.KeepsEnd.closing :
    (Parse.andThen (Parse.orElse (Parse.andThen (Greyd.accept .eol) (Greyd.accept .bracketR))
      (Greyd.accept .bracketR)) fun parser => Parse.ok { parser with section' := none }).KeepsEnd := by
  intro parser r parser' hrun
  obtain ⟨parser₁, hclose, hdrop⟩ | ⟨hnone, rfl⟩ := andThen_cases hrun
  · cases hdrop
    obtain ⟨parser₂, hmoves, hend⟩ := closing_cases hclose
    exact hmoves.sameEnd.trans (accept_bracketR hend)
  · obtain ⟨parser₂, hmoves, hend⟩ := closing_cases hnone
    rw [if_neg Bool.false_ne_true] at hend
    exact hend ▸ hmoves.sameEnd

theorem Parse.KeepsEnd.section' (fuel : Nat) : (grammarSection fuel).KeepsEnd := by
  have heol : Token.eol.Plain := by simp [Token.Plain]
  have hbody : (Parse.andThen (grammarSectionStatements fuel) _).KeepsEnd :=
    .andThen (.andThen (.assignment fuel) (.sectionAssignments fuel)) .closing
  intro parser r parser' hrun
  obtain ⟨parser₁, htype, hrest⟩ | ⟨hnone, -⟩ := andThen_cases hrun
  · refine (grammarSectionType_moves htype).trans ?_
    split at hrest
    · next secname hcurr =>
      refine (Moves.advance_plain hcurr (by simp [Token.Plain])).sameEnd.trans ?_
      obtain ⟨parser₂, hlines, hrest⟩ | ⟨hnone, -⟩ := andThen_cases hrest
      · refine (acceptOptional_plain heol hlines).sameEnd.trans ?_
        obtain ⟨parser₃, hbrace, hrest⟩ | ⟨hnone, rfl⟩ := andThen_cases hrest
        · obtain ⟨parser₄, hlines, hrest⟩ | ⟨hnone, -⟩ := andThen_cases hrest
          · obtain ⟨parser₅, hopen, hrest⟩ | ⟨hnone, -⟩ := andThen_cases hrest
            · cases hopen
              exact (open_sameEnd hbrace (acceptOptional_plain heol hlines) secname).trans
                (hbody _ _ _ hrest)
            · cases hnone
          · cases acceptOptional_true hnone
        · exact accept_false hnone ▸ .refl _
      · exact (acceptOptional_plain heol hnone).sameEnd
    · exact err _ _ _ hrest
  · exact grammarSectionType_moves hnone

theorem Parse.KeepsEnd.include' (glob : CStr → List CStr) : (grammarInclude glob).KeepsEnd := by
  refine .andThen (.accept (by simp [Token.Plain])) fun parser r parser' hrun => ?_
  split at hrun
  · next s hcurr =>
    cases hrun
    have h := (Moves.advance_plain hcurr (by simp [Token.Plain])).sameEnd
    exact ⟨h.sectionRef, h.value⟩
  · exact err _ _ _ hrun

theorem Parse.KeepsEnd.statement (glob : CStr → List CStr) (fuel : Nat) :
    (grammarStatement glob fuel).KeepsEnd :=
  .orElse (.assignment fuel) (.orElse (.section' fuel) (.include' glob))

theorem Parse.KeepsEnd.statements (glob : CStr → List CStr) (fuel : Nat) :
    (grammarStatements glob fuel).KeepsEnd := by
  induction fuel with
  | zero => exact .noResult
  | succ fuel ih =>
    exact .orElse (.andThen (.accept (by simp [Token.Plain])) (.andThen (.statement glob fuel) ih)) .ok

/-! ## A run -/

theorem accept_eof (hrun : accept .eof parser = some (true, parser')) :
    parser.tokens = [] ∧ parser' = parser.advance := by
  unfold accept at hrun
  split at hrun
  · next hcurr =>
    cases hrun
    exact ⟨if_pos hcurr, rfl⟩
  · cases hrun

/-- An accepted run ends at a parser that has no token left. -/
theorem configParserStart_end {glob : CStr → List CStr} {config : Config}
    (hok : configParserStart glob config parser = some (true, parser')) :
    ∃ parser₁, SameEnd (parserBegin config parser) parser₁ ∧ parser₁.tokens = [] ∧
      parser' = parser₁.advance := by
  generalize hfuel : (parserBegin config parser).lexer.source.length + 2 = fuel
  unfold configParserStart at hok
  simp only [hfuel] at hok
  obtain ⟨parser₁, hlines, hrest⟩ | ⟨-, hfalse⟩ := andThen_cases hok
  · have hbegin := (acceptOptional_plain (by simp [Token.Plain]) hlines).sameEnd
    obtain ⟨parser₂, hfirst, hend⟩ | ⟨hfirst, -⟩ := orElse_cases hrest
    · have hstatements : SameEnd parser₁ parser₂ := by
        obtain ⟨parser₃, hstatement, hmore⟩ | ⟨hstatement, -⟩ := andThen_cases hfirst
        · refine (Parse.KeepsEnd.statement glob fuel _ _ _ hstatement).trans ?_
          obtain ⟨parser₄, hmore, hnone⟩ | ⟨hmore, -⟩ := andThen_cases hmore
          · exact accept_false hnone ▸ Parse.KeepsEnd.statements glob fuel _ _ _ hmore
          · exact Parse.KeepsEnd.statements glob fuel _ _ _ hmore
        · exact Parse.KeepsEnd.statement glob fuel _ _ _ hstatement
      exact ⟨parser₂, hbegin.trans hstatements, accept_eof hend⟩
    · obtain ⟨parser₂, hstatement, hmore⟩ | ⟨-, hfalse⟩ := andThen_cases hfirst
      · obtain ⟨parser₃, hmore, hend⟩ | ⟨-, hfalse⟩ := andThen_cases hmore
        · exact ⟨parser₃, (hbegin.trans (Parse.KeepsEnd.statement glob fuel _ _ _ hstatement)).trans
            (Parse.KeepsEnd.statements glob fuel _ _ _ hmore), accept_eof hend⟩
        · cases hfalse
      · cases hfalse
  · cases hfalse

/-- An accepted run leaves no reference exactly when the last brace and the last bracket of its
tokens are closing ones, or there is none and no reference was left before. Then the next
message's assignments go to a section of its own. -/
theorem references_cleared_iff {glob : CStr → List CStr} {config : Config}
    (hok : configParserStart glob config parser = some (true, parser')) :
    (parser'.section' = none ∧ parser'.value = none ↔
      sectionLeftOpen parser.section'.isSome parser.lexer.tokens = false ∧
        listLeftOpen parser.value.isSome parser.lexer.tokens = false) ∧
    ∀ next, (parserBegin next parser').section' = none ↔
      sectionLeftOpen parser.section'.isSome parser.lexer.tokens = false := by
  obtain ⟨parser₁, hsame, hnone, rfl⟩ := configParserStart_end hok
  have htokens : (parserBegin config parser).tokens = parser.lexer.tokens := tokens_advance _
  have hsection : parser₁.section'.isSome =
      sectionLeftOpen parser.section'.isSome parser.lexer.tokens := by
    have h := hsame.sectionRef
    rw [hnone, htokens] at h
    simpa [parserBegin, ConfigParser.advance, sectionLeftOpen, leftOpen] using h
  have hvalue : parser₁.value.isSome = listLeftOpen parser.value.isSome parser.lexer.tokens := by
    have h := hsame.value
    rw [hnone, htokens] at h
    simpa [parserBegin, ConfigParser.advance, listLeftOpen, leftOpen] using h
  rw [← hsection, ← hvalue, Option.isSome_eq_false_iff, Option.isSome_eq_false_iff]
  constructor
  · simp [ConfigParser.advance]
  · intro next
    simp [parserBegin, ConfigParser.advance]

end Moves

def sectionText : CStr := "section a \x7b\nb = 1\n\x7d\n".toList

theorem references_cleared_section :
    ∃ parser', configParserStart (fun _ => []) configCreate
        (configParserCreate (configLexerCreate sectionText)) = some (true, parser') ∧
      ((parser'.section' = none ∧ parser'.value = none ↔
        sectionLeftOpen false (configLexerCreate sectionText).tokens = false ∧
          listLeftOpen false (configLexerCreate sectionText).tokens = false) ∧
      ∀ next, (parserBegin next parser').section' = none ↔
        sectionLeftOpen false (configLexerCreate sectionText).tokens = false) := by
  have haccepted : (configParserStart (fun _ => []) configCreate
      (configParserCreate (configLexerCreate sectionText))).map Prod.fst = some true := by
    decide +kernel
  obtain ⟨⟨_, parser'⟩, hrun, rfl⟩ := Option.map_eq_some_iff.mp haccepted
  exact ⟨parser', hrun, references_cleared_iff hrun⟩

/-- A section without its closing brace is accepted, and stays referred to. -/
theorem section_left_open :
    (configParserStart (fun _ => []) configCreate
      (configParserCreate (configLexerCreate "section a \x7b\nb = 1\n".toList))).map
        (fun r => (r.1, r.2.section'.isNone)) = some (true, false) := by
  decide +kernel

end Greyd
