import Greyd.ConfigParser

/-!
# The limit of the lexer's strings

The lexer gives up on a string that outgrows its buffer, so no string longer than the buffer
is ever bound, whatever the text is. Each grammar function keeps this of the parser.
-/
namespace Greyd

open Parse

/-- The longest string a token can carry. -/
def maxToken : Nat := lexerMaxStrLen + 1

theorem lexString_length (seenEsc : Bool) (len : Nat) (hlen : len ≤ maxToken) (cs : List Char) :
    len + (lexString seenEsc len cs).1.length ≤ maxToken := by
  induction cs generalizing seenEsc len with
  | nil => simpa [lexString] using hlen
  | cons c cs ih =>
    rw [lexString]
    split_ifs with hquote hfull _ hesc
    · simpa using hlen
    · simpa using hlen
    · simpa using hlen
    · exact ih true len hlen
    · have hnext := ih false (len + 1) (by rw [maxToken]; omega)
      simp only [List.length_cons]
      omega

def Token.Short (tok : Token) : Prop := ∀ s, tok = .str s → s.length ≤ maxToken

theorem reservedWord_short (s : CStr) : (reservedWord s).Short := by
  unfold reservedWord
  split_ifs <;> intro s h <;> simp at h

theorem lexToken_short (c : Char) (cs : List Char) : (lexToken c cs).1.Short := by
  unfold lexToken
  split
  · intro s h
    simp [lexInt] at h
  split
  · exact reservedWord_short _
  split
  · intro s h
    obtain rfl : cstr (lexString false 0 cs).1 = s := by simpa using h
    have hle := lexString_length false 0 (Nat.zero_le _) cs
    have hcut := (List.takeWhile_sublist (· ≠ nul) (l := (lexString false 0 cs).1)).length_le
    exact hcut.trans (by omega)
  · intro s h
    revert h
    dsimp only
    split_ifs <;> simp

theorem configLexerNextToken_short (lexer : Lexer) : (configLexerNextToken lexer).1.Short := by
  unfold configLexerNextToken
  split
  · intro s h
    simp at h
  · dsimp only
    split
    · intro s h
      simp at h
    · exact lexToken_short _ _

/-! ## The parser's strings -/

def ConfigValue.Short (value : ConfigValue) : Prop := ∀ s, value = .str s → s.length ≤ maxToken

def ConfigSection.Short (section' : ConfigSection) : Prop := section'.vars.All ConfigValue.Short

/-- Every string in every section is short. -/
def Config.Short (config : Config) : Prop :=
  ∀ sectype, (sectionTable sectype config).All ConfigSection.Short

structure ConfigParser.Short (parser : ConfigParser) : Prop where
  curr : parser.curr.Short
  config : parser.config.Short

theorem ConfigSection.Short.create (name : CStr) : (configSectionCreate name).Short := Hash.All.create _ _

theorem ConfigSection.Short.set {section' : ConfigSection} (h : section'.Short) (varname : CStr)
    {value : ConfigValue} (hvalue : value.Short) :
    (configSectionSet section' varname value).Short := h.insert varname hvalue

theorem Config.Short.create : configCreate.Short := by
  intro sectype
  cases sectype <;> exact .create _ _

theorem Config.Short.setTable {config : Config} (h : config.Short) (sectype : SectionType)
    {table : Hash ConfigSection} (htable : table.All ConfigSection.Short) :
    (setSectionTable sectype config table).Short := by
  intro sectype'
  have hold := h sectype'
  cases sectype <;> cases sectype' <;> first | exact htable | exact hold

theorem Config.Short.ensureDefault {config : Config} (h : config.Short) :
    (ensureDefault config).Short := by
  unfold Greyd.ensureDefault
  split
  · exact h.setTable .section ((h .section).insert _ (.create _))
  · exact h

section Keeps

variable {parser : ConfigParser} {p q : Parse}

theorem ConfigParser.Short.advance (h : parser.config.Short) : parser.advance.Short :=
  ⟨configLexerNextToken_short _, h⟩

theorem ConfigParser.Short.advanceEols (h : parser.Short) (fuel : Nat) :
    (advanceEols fuel parser).Short := by
  induction fuel generalizing parser with
  | zero => exact h
  | succ fuel ih =>
    rw [Greyd.advanceEols]
    split
    · exact ih (.advance h.config)
    · exact .advance h.config

/-- A grammar function leaves no long string, if there was none. -/
def Parse.KeepsShort (p : Parse) : Prop :=
  ∀ parser, parser.Short → ∀ result parser', p parser = some (result, parser') → parser'.Short

theorem Parse.KeepsShort.ok : ok.KeepsShort := by
  rintro parser h _ _ ⟨⟩
  exact h

theorem Parse.KeepsShort.err : err.KeepsShort := by
  rintro parser h _ _ ⟨⟩
  exact h

theorem Parse.KeepsShort.andThen (hp : p.KeepsShort) (hq : q.KeepsShort) : (andThen p q).KeepsShort := by
  intro parser h result parser' hrun
  unfold Parse.andThen at hrun
  split at hrun
  · next parser₁ hfirst => exact hq parser₁ (hp parser h _ _ hfirst) _ _ hrun
  · exact hp parser h _ _ hrun

theorem Parse.KeepsShort.orElse (hp : p.KeepsShort) (hq : q.KeepsShort) : (orElse p q).KeepsShort := by
  intro parser h result parser' hrun
  unfold Parse.orElse at hrun
  split at hrun
  · next parser₁ hfirst => exact hq parser₁ (hp parser h _ _ hfirst) _ _ hrun
  · exact hp parser h _ _ hrun

theorem Parse.KeepsShort.noResult : Parse.KeepsShort fun _ => none := by
  rintro parser h _ _ ⟨⟩

theorem Parse.KeepsShort.accept (tok : Token) : (accept tok).KeepsShort := by
  intro parser h result parser' hrun
  unfold Greyd.accept at hrun
  split at hrun
  · obtain ⟨-, rfl⟩ := Prod.mk.inj (Option.some.inj hrun)
    split
    · exact h.advanceEols _
    · exact .advance h.config
  · obtain ⟨-, rfl⟩ := Prod.mk.inj (Option.some.inj hrun)
    exact h

theorem Parse.KeepsShort.acceptOptional (tok : Token) : (acceptOptional tok).KeepsShort :=
  .orElse (.accept tok) .ok

theorem Parse.KeepsShort.assign {varname : CStr} {value : ConfigValue} (hvalue : value.Short)
    (h : parser.Short) {parser' : ConfigParser}
    (hrun : Greyd.assign varname value parser = some parser') : parser'.Short := by
  have hset : ∀ (sectype : SectionType) (i : Nat), (updateSection parser.config sectype i
      (configSectionSet · varname value)).Short := fun sectype i =>
    h.config.setTable sectype ((h.config sectype).update i fun _ hv => hv.set varname hvalue)
  unfold Greyd.assign at hrun
  dsimp only at hrun
  split at hrun
  · simp at hrun
  · obtain rfl := Option.some.inj hrun
    exact ⟨h.curr, hset _ _⟩
  · obtain rfl := Option.some.inj hrun
    exact ⟨h.curr, hset _ _⟩

/-- The value in an assignment is the token that has been read, or a list. -/
theorem Parse.KeepsShort.assignValue {varname : CStr} {value : ConfigValue} (hvalue : value.Short)
    {g : ConfigParser → ConfigParser} (hg : ∀ parser, parser.Short → (g parser).Short)
    (h : parser.Short) {result : Bool} {parser' : ConfigParser}
    (hrun : (Greyd.assign varname value parser).map (fun parser => (true, g parser)) =
      some (result, parser')) : parser'.Short := by
  obtain ⟨parser₁, hassign, heq⟩ := Option.map_eq_some_iff.mp hrun
  obtain ⟨-, rfl⟩ := Prod.mk.inj heq
  exact hg _ (assign hvalue h hassign)

theorem Parse.KeepsShort.insertValue (value : ConfigValue) : (insertValue value).KeepsShort := by
  intro parser h result parser' hrun
  obtain ⟨l, -, heq⟩ := Option.map_eq_some_iff.mp hrun
  obtain ⟨-, rfl⟩ := Prod.mk.inj heq
  exact ⟨configLexerNextToken_short _, h.config⟩

theorem Parse.KeepsShort.listValue : grammarListValue.KeepsShort := by
  intro parser h result parser' hrun
  unfold grammarListValue at hrun
  split at hrun
  · exact insertValue _ parser h _ _ hrun
  · exact insertValue _ parser h _ _ hrun
  · exact err parser h _ _ hrun

theorem Parse.KeepsShort.listValues (fuel : Nat) : (grammarListValues fuel).KeepsShort := by
  induction fuel with
  | zero => exact .noResult
  | succ fuel ih =>
    exact .orElse (.andThen (.accept _) (.orElse (.andThen (.accept _) (.andThen .listValue ih))
      (.andThen .listValue ih))) .ok

theorem Parse.KeepsShort.list (fuel : Nat) : (grammarList fuel).KeepsShort := by
  have hstatements : (grammarListStatements fuel).KeepsShort := .andThen .listValue (.listValues fuel)
  have hnew : newList.KeepsShort := by
    rintro parser h _ _ ⟨⟩
    exact ⟨h.curr, h.config⟩
  exact .andThen (.accept _) (.andThen hnew (.andThen
    (.orElse (.andThen (.accept _) hstatements) hstatements)
    (.orElse (.andThen (.accept _) (.accept _)) (.accept _))))

theorem Parse.KeepsShort.assignmentValue (fuel : Nat) (varname : CStr) :
    (assignmentValue fuel varname).KeepsShort := by
  have hadvance : ∀ parser : ConfigParser, parser.Short → parser.advance.Short :=
    fun _ h => .advance h.config
  intro parser h result parser' hrun
  unfold Greyd.assignmentValue at hrun
  split at hrun
  · exact assignValue (by simp [ConfigValue.Short]) hadvance h hrun
  · next s hcurr =>
    have hshort := h.curr s hcurr
    exact assignValue (by simpa [ConfigValue.Short] using hshort) hadvance h hrun
  · refine andThen (list fuel) (fun parser h _ _ hrun => ?_) parser h _ _ hrun
    obtain ⟨l, -, hassign⟩ := Option.bind_eq_some_iff.mp hrun
    have hlist : (ConfigValue.list l).Short := by simp [ConfigValue.Short]
    exact assignValue (g := fun parser => parser.setValue none) hlist
      (fun _ h => ⟨h.curr, h.config⟩) h hassign

theorem Parse.KeepsShort.assignment (fuel : Nat) : (grammarAssignment fuel).KeepsShort := by
  intro parser h result parser' hrun
  unfold grammarAssignment at hrun
  split at hrun
  · exact andThen (accept _) (assignmentValue fuel _) _ (.advance h.config) _ _ hrun
  · exact err parser h _ _ hrun

theorem Parse.KeepsShort.sectionType : grammarSectionType.KeepsShort := by
  intro parser h result parser' hrun
  unfold grammarSectionType at hrun
  split at hrun
  all_goals obtain ⟨-, rfl⟩ := Prod.mk.inj (Option.some.inj hrun)
  all_goals first | exact h | exact ⟨configLexerNextToken_short _, h.config⟩

theorem Parse.KeepsShort.sectionAssignments (fuel : Nat) : (grammarSectionAssignments fuel).KeepsShort := by
  induction fuel with
  | zero => exact .noResult
  | succ fuel ih =>
    exact .andThen (.acceptOptional _)
      (.orElse (.andThen (.accept _) (.andThen (.assignment fuel) ih)) .ok)

theorem Parse.KeepsShort.section' (fuel : Nat) : (grammarSection fuel).KeepsShort := by
  refine andThen sectionType fun parser h result parser' hrun => ?_
  have hopen : ∀ secname, Parse.KeepsShort fun parser => Parse.ok (openSection secname parser) := by
    rintro secname parser h _ _ ⟨⟩
    exact ⟨h.curr, h.config.setTable _ ((h.config _).insert _ (.create _))⟩
  have hclose : Parse.KeepsShort fun parser => Parse.ok { parser with section' := none } := by
    rintro parser h _ _ ⟨⟩
    exact ⟨h.curr, h.config⟩
  split at hrun
  · next secname hcurr =>
    have hbody := andThen (acceptOptional .eol) (andThen (accept .bracketL)
      (andThen (acceptOptional .eol) (andThen (hopen secname)
        (andThen (andThen (assignment fuel) (sectionAssignments fuel))
          (andThen (orElse (andThen (accept .eol) (accept .bracketR)) (accept .bracketR)) hclose)))))
    exact hbody _ (.advance h.config) _ _ hrun
  · exact err parser h _ _ hrun

theorem Parse.KeepsShort.include' (glob : CStr → List CStr) : (grammarInclude glob).KeepsShort := by
  refine andThen (accept _) fun parser h result parser' hrun => ?_
  split at hrun
  · next s hcurr =>
    obtain ⟨-, rfl⟩ := Prod.mk.inj (Option.some.inj hrun)
    have hconfig : (configAddInclude glob parser.config s).Short := by
      intro sectype
      have hold := h.config sectype
      cases sectype <;> exact hold
    exact .advance hconfig
  · exact err parser h _ _ hrun

theorem Parse.KeepsShort.statement (glob : CStr → List CStr) (fuel : Nat) :
    (grammarStatement glob fuel).KeepsShort :=
  .orElse (.assignment fuel) (.orElse (.section' fuel) (.include' glob))

theorem Parse.KeepsShort.statements (glob : CStr → List CStr) (fuel : Nat) :
    (grammarStatements glob fuel).KeepsShort := by
  induction fuel with
  | zero => exact .noResult
  | succ fuel ih => exact .orElse (.andThen (.accept _) (.andThen (.statement glob fuel) ih)) .ok

/-- Whatever the text is, the configuration that is read from it has no long string. -/
theorem configParserStart_short (glob : CStr → List CStr) (parser : ConfigParser) {result : Bool}
    {parser' : ConfigParser} (hrun : configParserStart glob configCreate parser = some (result, parser')) :
    parser'.config.Short := by
  have hbegin : (parserBegin configCreate parser).Short :=
    .advance (Config.Short.create.ensureDefault)
  have hkeeps : ∀ fuel, (andThen (acceptOptional .eol) (orElse (andThen
      (grammarStatement glob fuel) (andThen (grammarStatements glob fuel) (accept .eof)))
      (accept .eof))).KeepsShort := fun fuel =>
    .andThen (.acceptOptional _) (.orElse (.andThen (.statement glob fuel)
      (.andThen (.statements glob fuel) (.accept _))) (.accept _))
  exact (hkeeps _ _ hbegin _ _ hrun).config

end Keeps

theorem configGetStr_short {config : Config} (h : config.Short) {varname : CStr}
    {sectionName : Option CStr} {s : CStr}
    (hget : configGetStr config varname sectionName none = some s) : s.length ≤ maxToken := by
  unfold configGetStr at hget
  split at hget
  · simp at hget
  · next section' hsection =>
    have hsec : section'.Short := (h .section).get hsection
    unfold configSectionGetStr at hget
    split at hget
    · next s' hvar =>
      obtain rfl := Option.some.inj hget
      exact hsec.get hvar _ rfl
    · simp at hget

end Greyd
