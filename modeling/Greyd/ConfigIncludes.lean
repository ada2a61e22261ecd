import Greyd.ParserReferences

/-!
# Included files (greyd_config.c)

A file is parsed into the configuration that is already there, and the files its include
statements match are queued behind it. `parse` runs do not depend on the configuration, so the
include statements of a file are those of a run of their own.
-/
namespace Greyd

open Parse

section
variable (files : CStr → Option (List Char)) (glob : CStr → List CStr)

/-- The first part of `Config_load_file`; `none`: the program exits, as it does when there is no
such file or when the file has a syntax error. -/
def configParseFile (config : Config) (file : CStr) : Option Config :=
  (files file).bind fun source =>
    (configParserStart glob config (configParserCreate (configLexerCreate source))).bind fun r =>
      if r.1 then some { r.2.config with
        processedIncludes := hashInsert r.2.config.processedIncludes file () }
      else none

mutual

/-- `Config_load_file`, with the files that are parsed, in order. `none` also when it is still
running after `fuel` calls and rounds. -/
def configLoadFile : Nat → Config → Option CStr → Option (List CStr × Config)
  | 0, _, _ => none
  | fuel + 1, config, none => configLoadIncludes fuel config
  | fuel + 1, config, some file =>
    (configParseFile files glob config file).bind fun config =>
      (configLoadIncludes fuel config).map fun r => (file :: r.1, r.2)

/-- The loop over the queue. -/
def configLoadIncludes : Nat → Config → Option (List CStr × Config)
  | 0, _ => none
  | fuel + 1, config =>
    match config.includes with
    | [] => some ([], config)
    | path :: rest =>
      let config := { config with includes := rest }
      if (hashGet config.processedIncludes path).isNone then
        (configLoadFile fuel config (some path)).bind fun r =>
          (configLoadIncludes fuel r.2).map fun more => (r.1 ++ more.1, more.2)
      else configLoadIncludes fuel config

end

end

/-- What the include statements of a text name; `none` when it has a syntax error. -/
def includeStatements (source : List Char) : Option (List CStr) :=
  (configParserStart (fun s => [s]) configCreate
    (configParserCreate (configLexerCreate source))).bind fun r =>
      if r.1 then some r.2.config.includes else none

/-- A file, as far as it concerns what is loaded. -/
def includedBy (files : CStr → Option (List Char)) (glob : CStr → List CStr) (file : CStr) :
    Option (List CStr) :=
  (files file).bind fun source => (includeStatements source).map (·.flatMap glob)

/-- A file that include statements lead to. -/
inductive Included (files : CStr → Option (List Char)) (glob : CStr → List CStr) (root : CStr) :
    CStr → Prop
  | root : Included files glob root root
  | step {file path : CStr} {paths : List CStr} : Included files glob root file →
      includedBy files glob file = some paths → path ∈ paths → Included files glob root path

/-! ## Two runs over one text -/

/-- A run into some configuration next to one that gathers the include statements. -/
structure Alongside (glob : CStr → List CStr) (table : Hash Unit) (queued : List CStr)
    (parser gather : ConfigParser) : Prop where
  lexer : parser.lexer = gather.lexer
  curr : parser.curr = gather.curr
  sectype : parser.sectype = gather.sectype
  value : parser.value = gather.value
  sectionRef : parser.section' = none ∧ gather.section' = none ∨
    ∃ sectype i sectype' i', parser.section' = some (.slot sectype i) ∧
      gather.section' = some (.slot sectype' i')
  processed : parser.config.processedIncludes = table
  nothing : gather.config.processedIncludes.entries = []
  includes : parser.config.includes = queued ++
    (gather.config.includes.flatMap glob).filter fun path => (hashGet table path).isNone

section Along

variable {glob : CStr → List CStr} {table : Hash Unit} {queued : List CStr}
  {parser gather gather' : ConfigParser} {p q p' q' : Parse}

theorem Alongside.advance (h : Alongside glob table queued parser gather) :
    Alongside glob table queued parser.advance gather.advance where
  lexer := by simp only [ConfigParser.advance, h.lexer]
  curr := by simp only [ConfigParser.advance, h.lexer]
  sectype := h.sectype
  value := h.value
  sectionRef := h.sectionRef
  processed := h.processed
  nothing := h.nothing
  includes := h.includes

theorem Alongside.setValue (h : Alongside glob table queued parser gather)
    (value : Option (List ConfigValue)) :
    Alongside glob table queued (parser.setValue value) (gather.setValue value) :=
  ⟨h.lexer, h.curr, h.sectype, rfl, h.sectionRef, h.processed, h.nothing, h.includes⟩

theorem Alongside.advanceEols (h : Alongside glob table queued parser gather) (fuel : Nat) :
    Alongside glob table queued (advanceEols fuel parser) (advanceEols fuel gather) := by
  induction fuel generalizing parser gather with
  | zero => exact h
  | succ fuel ih =>
    have hnext := h.advance
    rw [Greyd.advanceEols, Greyd.advanceEols, hnext.curr]
    split
    · exact ih hnext
    · exact hnext

/-- Where the second function has a result, the first has the same one. -/
def Parse.Follows (glob : CStr → List CStr) (table : Hash Unit) (queued : List CStr)
    (p q : Parse) : Prop :=
  ∀ parser gather r gather', Alongside glob table queued parser gather →
    q gather = some (r, gather') →
      ∃ parser', p parser = some (r, parser') ∧ Alongside glob table queued parser' gather'

theorem Parse.Follows.ok : Parse.Follows glob table queued ok ok := by
  intro parser gather r gather' h hrun
  cases hrun
  exact ⟨parser, rfl, h⟩

theorem Parse.Follows.err : Parse.Follows glob table queued err err := by
  intro parser gather r gather' h hrun
  cases hrun
  exact ⟨parser, rfl, h⟩

theorem Parse.Follows.noResult : Parse.Follows glob table queued p fun _ => none := by
  intro parser gather r gather' h hrun
  cases hrun

theorem Parse.Follows.andThen (hp : Parse.Follows glob table queued p p')
    (hq : Parse.Follows glob table queued q q') :
    Parse.Follows glob table queued (andThen p q) (andThen p' q') := by
  intro parser gather r gather' h hrun
  obtain ⟨gather₁, hfirst, hsecond⟩ | ⟨hfirst, rfl⟩ := andThen_cases hrun
  · obtain ⟨parser₁, hparser, h₁⟩ := hp _ _ _ _ h hfirst
    obtain ⟨parser', hparser', h'⟩ := hq _ _ _ _ h₁ hsecond
    exact ⟨parser', by rw [Parse.andThen, hparser]; exact hparser', h'⟩
  · obtain ⟨parser', hparser, h'⟩ := hp _ _ _ _ h hfirst
    exact ⟨parser', by rw [Parse.andThen, hparser], h'⟩

theorem Parse.Follows.orElse (hp : Parse.Follows glob table queued p p')
    (hq : Parse.Follows glob table queued q q') :
    Parse.Follows glob table queued (orElse p q) (orElse p' q') := by
  intro parser gather r gather' h hrun
  obtain ⟨gather₁, hfirst, hsecond⟩ | ⟨hfirst, rfl⟩ := orElse_cases hrun
  · obtain ⟨parser₁, hparser, h₁⟩ := hp _ _ _ _ h hfirst
    obtain ⟨parser', hparser', h'⟩ := hq _ _ _ _ h₁ hsecond
    exact ⟨parser', by rw [Parse.orElse, hparser]; exact hparser', h'⟩
  · obtain ⟨parser', hparser, h'⟩ := hp _ _ _ _ h hfirst
    exact ⟨parser', by rw [Parse.orElse, hparser], h'⟩

theorem Parse.Follows.accept (tok : Token) :
    Parse.Follows glob table queued (accept tok) (accept tok) := by
  intro parser gather r gather' h hrun
  unfold Greyd.accept at hrun ⊢
  rw [h.curr, h.lexer]
  split at hrun
  · next hcurr =>
    cases hrun
    rw [if_pos hcurr]
    refine ⟨_, rfl, ?_⟩
    split
    · exact h.advanceEols _
    · exact h.advance
  · next hcurr =>
    cases hrun
    rw [if_neg hcurr]
    exact ⟨parser, rfl, h⟩

theorem Parse.Follows.insertValue (value : ConfigValue) :
    Parse.Follows glob table queued (insertValue value) (insertValue value) := by
  intro parser gather r gather' h hrun
  obtain ⟨l, hl, heq⟩ := Option.map_eq_some_iff.mp hrun
  cases heq
  exact ⟨parser.advance.setValue (some (l ++ [value])),
    by rw [Greyd.insertValue, h.value, hl, Option.map_some], h.advance.setValue _⟩

theorem Parse.Follows.listValue :
    Parse.Follows glob table queued grammarListValue grammarListValue := by
  intro parser gather r gather' h hrun
  unfold grammarListValue at hrun ⊢
  rw [h.curr]
  split at hrun
  · exact insertValue _ _ _ _ _ h hrun
  · exact insertValue _ _ _ _ _ h hrun
  · exact err _ _ _ _ h hrun

theorem Parse.Follows.listValues (fuel : Nat) :
    Parse.Follows glob table queued (grammarListValues fuel) (grammarListValues fuel) := by
  induction fuel with
  | zero => exact .noResult
  | succ fuel ih =>
    exact .orElse (.andThen (.accept _) (.orElse (.andThen (.accept _) (.andThen .listValue ih))
      (.andThen .listValue ih))) .ok

theorem Parse.Follows.list (fuel : Nat) :
    Parse.Follows glob table queued (grammarList fuel) (grammarList fuel) := by
  have hstatements : Parse.Follows glob table queued (grammarListStatements fuel)
      (grammarListStatements fuel) := .andThen .listValue (.listValues fuel)
  have hnew : Parse.Follows glob table queued newList newList := by
    intro parser gather r gather' h hrun
    cases hrun
    exact ⟨_, rfl, h.setValue _⟩
  exact .andThen (.accept _) (.andThen hnew (.andThen
    (.orElse (.andThen (.accept _) hstatements) hstatements)
    (.orElse (.andThen (.accept _) (.accept _)) (.accept _))))

theorem setSectionTable_processed (sectype : SectionType) (config : Config)
    (sections : Hash ConfigSection) :
    (setSectionTable sectype config sections).processedIncludes = config.processedIncludes := by
  cases sectype <;> rfl

theorem setSectionTable_includes (sectype : SectionType) (config : Config)
    (sections : Hash ConfigSection) :
    (setSectionTable sectype config sections).includes = config.includes := by
  cases sectype <;> rfl

theorem Alongside.update (h : Alongside glob table queued parser gather)
    (sectype sectype' : SectionType) (i i' : Nat) (g : ConfigSection → ConfigSection) :
    Alongside glob table queued { parser with config := updateSection parser.config sectype i g }
      { gather with config := updateSection gather.config sectype' i' g } where
  lexer := h.lexer
  curr := h.curr
  sectype := h.sectype
  value := h.value
  sectionRef := h.sectionRef
  processed := (setSectionTable_processed _ _ _).trans h.processed
  nothing := (congrArg Hash.entries (setSectionTable_processed _ _ _)).trans h.nothing
  includes := by simpa only [updateSection, setSectionTable_includes] using h.includes

theorem assign_none {varname : CStr} {value : ConfigValue} (h : parser.section' = none) :
    assign varname value parser = some { parser with
      config := updateSection parser.config SectionType.section
        (hashFindEntry parser.config.sections configDefaultSection)
        (configSectionSet · varname value) } := by
  unfold assign
  simp only [h]

theorem assign_slot {varname : CStr} {value : ConfigValue} {sectype : SectionType} {i : Nat}
    (h : parser.section' = some (.slot sectype i)) :
    assign varname value parser = some { parser with
      config := updateSection parser.config sectype i (configSectionSet · varname value) } := by
  unfold assign
  simp only [h]

/-- An assignment changes neither the queue nor the table of files. -/
theorem Alongside.assign (h : Alongside glob table queued parser gather) {varname : CStr}
    {value : ConfigValue} (hrun : assign varname value gather = some gather') :
    ∃ parser', assign varname value parser = some parser' ∧
      Alongside glob table queued parser' gather' := by
  obtain ⟨hparser, hgather⟩ | ⟨sectype, i, sectype', i', hparser, hgather⟩ := h.sectionRef
  · rw [assign_none hgather] at hrun
    cases hrun
    exact ⟨_, assign_none hparser, h.update _ _ _ _ _⟩
  · rw [assign_slot hgather] at hrun
    cases hrun
    exact ⟨_, assign_slot hparser, h.update _ _ _ _ _⟩

theorem Alongside.assignThen (h : Alongside glob table queued parser gather) {varname : CStr}
    {value : ConfigValue} {g : ConfigParser → ConfigParser}
    (hg : ∀ parser gather, Alongside glob table queued parser gather →
      Alongside glob table queued (g parser) (g gather)) {r : Bool}
    (hrun : (Greyd.assign varname value gather).map (fun parser => (true, g parser)) =
      some (r, gather')) :
    ∃ parser', (Greyd.assign varname value parser).map (fun parser => (true, g parser)) =
      some (r, parser') ∧ Alongside glob table queued parser' gather' := by
  obtain ⟨gather₁, hassign, heq⟩ := Option.map_eq_some_iff.mp hrun
  cases heq
  obtain ⟨parser₁, hparser, h₁⟩ := h.assign hassign
  exact ⟨g parser₁, by rw [hparser, Option.map_some], hg _ _ h₁⟩

theorem Parse.Follows.assignmentValue (fuel : Nat) (varname : CStr) :
    Parse.Follows glob table queued (assignmentValue fuel varname) (assignmentValue fuel varname) := by
  intro parser gather r gather' h hrun
  unfold Greyd.assignmentValue at hrun ⊢
  rw [h.curr]
  split at hrun
  · exact h.assignThen (fun _ _ h => h.advance) hrun
  · exact h.assignThen (fun _ _ h => h.advance) hrun
  · refine andThen (list fuel) (fun parser gather r gather' h hrun => ?_) _ _ _ _ h hrun
    obtain ⟨l, hl, hset⟩ := Option.bind_eq_some_iff.mp hrun
    obtain ⟨parser', hparser, h'⟩ :=
      h.assignThen (g := fun parser => parser.setValue none) (fun _ _ h => h.setValue none) hset
    exact ⟨parser', by rw [h.value, hl]; exact hparser, h'⟩

theorem Parse.Follows.assignment (fuel : Nat) :
    Parse.Follows glob table queued (grammarAssignment fuel) (grammarAssignment fuel) := by
  intro parser gather r gather' h hrun
  unfold grammarAssignment at hrun ⊢
  rw [h.curr]
  split at hrun
  · exact andThen (accept _) (assignmentValue fuel _) _ _ _ _ h.advance hrun
  · exact err _ _ _ _ h hrun

theorem Alongside.setSectype (h : Alongside glob table queued parser gather) (sectype : SectionType) :
    Alongside glob table queued { parser with sectype := sectype } { gather with sectype := sectype } :=
  ⟨h.lexer, h.curr, rfl, h.value, h.sectionRef, h.processed, h.nothing, h.includes⟩

theorem Parse.Follows.sectionType :
    Parse.Follows glob table queued grammarSectionType grammarSectionType := by
  intro parser gather r gather' h hrun
  unfold grammarSectionType at hrun ⊢
  rw [h.curr]
  split at hrun
  · cases hrun
    exact ⟨_, rfl, (h.setSectype .section).advance⟩
  · cases hrun
    exact ⟨_, rfl, (h.setSectype .blacklist).advance⟩
  · cases hrun
    exact ⟨_, rfl, (h.setSectype .whitelist).advance⟩
  · exact err _ _ _ _ h hrun

theorem Parse.Follows.sectionAssignments (fuel : Nat) :
    Parse.Follows glob table queued (grammarSectionAssignments fuel)
      (grammarSectionAssignments fuel) := by
  induction fuel with
  | zero => exact .noResult
  | succ fuel ih =>
    exact .andThen (.orElse (.accept _) .ok)
      (.orElse (.andThen (.accept _) (.andThen (.assignment fuel) ih)) .ok)

theorem Alongside.openSection (h : Alongside glob table queued parser gather) (secname : CStr) :
    Alongside glob table queued (openSection secname parser) (openSection secname gather) where
  lexer := h.lexer
  curr := h.curr
  sectype := h.sectype
  value := h.value
  sectionRef := .inr ⟨_, _, _, _, rfl, rfl⟩
  processed := (setSectionTable_processed _ _ _).trans h.processed
  nothing := (congrArg Hash.entries (setSectionTable_processed _ _ _)).trans h.nothing
  includes := by simpa only [Greyd.openSection, setSectionTable_includes] using h.includes

theorem Parse.Follows.section' (fuel : Nat) :
    Parse.Follows glob table queued (grammarSection fuel) (grammarSection fuel) := by
  have hopen (secname : CStr) : Parse.Follows glob table queued
      (fun parser => Parse.ok (Greyd.openSection secname parser))
      (fun parser => Parse.ok (Greyd.openSection secname parser)) := by
    intro parser gather r gather' h hrun
    cases hrun
    exact ⟨_, rfl, h.openSection secname⟩
  have hclose : Parse.Follows glob table queued
      (fun parser => Parse.ok { parser with section' := none })
      (fun parser => Parse.ok { parser with section' := none }) := by
    intro parser gather r gather' h hrun
    cases hrun
    exact ⟨_, rfl, h.lexer, h.curr, h.sectype, h.value, .inl ⟨rfl, rfl⟩, h.processed, h.nothing,
      h.includes⟩
  refine andThen sectionType fun parser gather r gather' h hrun => ?_
  rw [h.curr]
  split at hrun
  · next secname hcurr =>
    have hbody := andThen (.orElse (accept .eol) ok) (andThen (accept .bracketL)
      (andThen (.orElse (accept .eol) ok) (andThen (hopen secname)
        (andThen (andThen (assignment fuel) (sectionAssignments fuel))
          (andThen (orElse (andThen (accept .eol) (accept .bracketR)) (accept .bracketR)) hclose)))))
    exact hbody _ _ _ _ h.advance hrun
  · exact err _ _ _ _ h hrun

/-- An include statement queues what its name matches and has not been parsed. -/
theorem Alongside.addInclude (h : Alongside glob table queued parser gather) (s : CStr) :
    Alongside glob table queued { parser with config := configAddInclude glob parser.config s }
      { gather with config := configAddInclude (fun s => [s]) gather.config s } where
  lexer := h.lexer
  curr := h.curr
  sectype := h.sectype
  value := h.value
  sectionRef := h.sectionRef
  processed := h.processed
  nothing := h.nothing
  includes := by
    have hnew : hashGet gather.config.processedIncludes s = none := by
      simp [hashGet, h.nothing]
    simp [configAddInclude, h.includes, h.processed, hnew]

theorem Parse.Follows.include' :
    Parse.Follows glob table queued (grammarInclude glob) (grammarInclude fun s => [s]) := by
  refine andThen (accept _) fun parser gather r gather' h hrun => ?_
  rw [h.curr]
  split at hrun
  · next s hcurr =>
    cases hrun
    exact ⟨_, rfl, (h.addInclude s).advance⟩
  · exact err _ _ _ _ h hrun

theorem Parse.Follows.statement (fuel : Nat) :
    Parse.Follows glob table queued (grammarStatement glob fuel)
      (grammarStatement (fun s => [s]) fuel) :=
  .orElse (.assignment fuel) (.orElse (.section' fuel) .include')

theorem Parse.Follows.statements (fuel : Nat) :
    Parse.Follows glob table queued (grammarStatements glob fuel)
      (grammarStatements (fun s => [s]) fuel) := by
  induction fuel with
  | zero => exact .noResult
  | succ fuel ih => exact .orElse (.andThen (.accept _) (.andThen (.statement fuel) ih)) .ok

/-- Parsing a file records it and queues what its include statements match, apart from the
files that have been parsed. -/
theorem configParseFile_includes {files : CStr → Option (List Char)} {file : CStr} {paths : List CStr}
    (hpaths : includedBy files glob file = some paths) (config : Config) :
    ∃ config', configParseFile files glob config file = some config' ∧
      config'.processedIncludes = hashInsert config.processedIncludes file () ∧
      config'.includes = config.includes ++
        paths.filter fun path => (hashGet config.processedIncludes path).isNone := by
  obtain ⟨source, hsource, hstatements⟩ := Option.bind_eq_some_iff.mp hpaths
  obtain ⟨statements, hgather, rfl⟩ := Option.map_eq_some_iff.mp hstatements
  obtain ⟨⟨r, gather'⟩, hrun, hok⟩ := Option.bind_eq_some_iff.mp hgather
  rw [Option.ite_none_right_eq_some] at hok
  obtain ⟨rfl, hincludes⟩ := hok
  cases hincludes
  have hensure (config : Config) : (ensureDefault config).processedIncludes = config.processedIncludes ∧
      (ensureDefault config).includes = config.includes := by
    unfold ensureDefault
    split
    · exact ⟨rfl, rfl⟩
    · exact ⟨rfl, rfl⟩
  have hbegin : Alongside glob config.processedIncludes config.includes
      (parserBegin config (configParserCreate (configLexerCreate source)))
      (parserBegin configCreate (configParserCreate (configLexerCreate source))) :=
    Alongside.advance ⟨rfl, rfl, rfl, rfl, .inl ⟨rfl, rfl⟩, (hensure config).1,
      congrArg Hash.entries (hensure configCreate).1, by
        show (ensureDefault config).includes = config.includes ++
          ((ensureDefault configCreate).includes.flatMap glob).filter _
        rw [(hensure config).2, (hensure configCreate).2, configCreate, List.flatMap_nil,
          List.filter_nil, List.append_nil]⟩
  have hfollows (fuel : Nat) : Parse.Follows glob config.processedIncludes config.includes
      (andThen (acceptOptional .eol) (orElse (andThen (grammarStatement glob fuel)
        (andThen (grammarStatements glob fuel) (accept .eof))) (accept .eof)))
      (andThen (acceptOptional .eol) (orElse (andThen (grammarStatement (fun s => [s]) fuel)
        (andThen (grammarStatements (fun s => [s]) fuel) (accept .eof))) (accept .eof))) :=
    .andThen (.orElse (.accept .eol) .ok) (.orElse
      (.andThen (.statement fuel) (.andThen (.statements fuel) (.accept .eof))) (.accept .eof))
  obtain ⟨parser', hparser, h'⟩ := hfollows _ _ _ _ _ hbegin hrun
  have hstart : configParserStart glob config (configParserCreate (configLexerCreate source)) =
      some (true, parser') := hparser
  refine ⟨{ parser'.config with
    processedIncludes := hashInsert parser'.config.processedIncludes file () }, ?_, ?_, h'.includes⟩
  · rw [configParseFile, hsource, Option.bind_some, hstart]
    rfl
  · rw [h'.processed]

end Along

end Greyd
