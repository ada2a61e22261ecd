import Greyd.MessageText

/-!
# The messages between the daemon's processes

A writer sends lines `name=<int>`, `name="<str>"` or `name=["<str>",...]` and ends each
message with a line `%`. A reader calls the configuration parser once for every message,
each time with a new configuration.
-/
namespace Greyd

/-- A string that a writer can put between quotes as it is. -/
structure QuotedStr where
  text : CStr
  length_le : text.length ≤ lexerMaxStrLen
  no_quote : '"' ∉ text
  no_backslash : '\\' ∉ text
  no_nul : nul ∉ text

/-- The value of a field, as the writer has it. The integers have no sign. -/
inductive Field
  | int (n : Nat) (lt : n < 2 ^ 31)
  | str (s : QuotedStr)
  | list (first : QuotedStr) (others : List QuotedStr)

def QuotedStr.render (s : QuotedStr) : CStr := '"' :: s.text ++ ['"']

def Field.render : Field → CStr
  | .int n _ => decimal n
  | .str s => s.render
  | .list first others => '[' :: first.render ++ commaText (others.map QuotedStr.render) ++ [']']

/-- The same value, as the parser stores it. -/
def Field.value : Field → ConfigValue
  | .int n _ => .int n
  | .str s => .str s.text
  | .list first others => .list ((first :: others).map fun s => .str s.text)

structure Binding where
  name : CStr
  isName : IsName name
  field : Field

structure Message where
  bindings : List Binding
  ne_nil : bindings ≠ []

def Binding.render (b : Binding) : CStr := b.name ++ '=' :: b.field.render ++ ['\n']

def Message.render (m : Message) : CStr := m.bindings.flatMap Binding.render ++ ['%', '\n']

/-- The last value that the message gives to a name. -/
def Message.lookup (m : Message) (name : CStr) : Option ConfigValue :=
  (m.bindings.filter (·.name = name)).getLast?.map (·.field.value)

/-- Calls of `Config_parser_start`, each with a new configuration: their results and the
parser after each. -/
def parserRun (glob : CStr → List CStr) : Nat → ConfigParser → Option (List (Bool × ConfigParser))
  | 0, _ => some []
  | calls + 1, parser =>
    match configParserStart glob configCreate parser with
    | none => none
    | some (result, parser) => (parserRun glob calls parser).map ((result, parser) :: ·)

/-! ## Messages as lines -/

theorem QuotedStr.itemText (s : QuotedStr) : ItemText s.render (.str s.text) := by
  have h := ItemText.str (unescape_eq_self s.no_quote s.no_backslash) (Nat.le_succ_of_le s.length_le)
  rwa [cstr_eq_self s.no_nul] at h

def Field.items : Field → Nat
  | .list _ others => others.length
  | _ => 0

theorem Field.valueText (field : Field) : ValueText field.render field.value field.items := by
  cases field with
  | int n lt => exact .item (.int lt)
  | str s => exact .item s.itemText
  | list first others =>
    have hothers : ∀ e ∈ others.map fun s => (s.render, ConfigValue.str s.text), ItemText e.1 e.2 := by
      intro e he
      obtain ⟨s, -, rfl⟩ := List.mem_map.mp he
      exact s.itemText
    have hlist := ValueText.list first.itemText hothers
    simp only [List.map_map, List.length_map] at hlist
    exact hlist

def Binding.line (b : Binding) : Line :=
  ⟨b.name, b.field.render, b.field.value, b.field.items, b.isName, b.field.valueText⟩

theorem Message.render_eq (m : Message) :
    m.render = renderMessage "=".toList (m.bindings.map Binding.line) := by
  have hline : Binding.render = fun b : Binding => b.line.render "=".toList ++ ['\n'] := by
    funext b
    simp [Binding.render, Binding.line, Line.render]
  rw [Message.render, renderMessage, renderLines, List.flatMap_map, hline]

theorem Message.lookup_eq (m : Message) (name : CStr) :
    bindLines (fun _ => none) (m.bindings.map Binding.line) name = m.lookup name := by
  rw [Message.lookup]
  induction m.bindings using List.reverseRecOn with
  | nil => rfl
  | append_singleton bs b ih =>
    rw [List.map_append, bindLines, List.foldl_append]
    rw [bindLines] at ih
    by_cases hname : name = b.name
    · subst hname
      simp [Binding.line]
    · have hname' : ¬ b.name = name := fun h => hname h.symm
      simp [Binding.line, hname, hname', ih]

/-- The default section is the only section of the configuration, and its variables are
exactly the message's bindings. -/
structure Message.HeldBy (m : Message) (config : Config) (section' : ConfigSection) : Prop where
  found : configGetSection config configDefaultSection = some section'
  only : ∀ name s, some (name, s) ∈ config.sections.entries ↔
    name = configDefaultSection ∧ s = section'
  vars : ∀ name value, some (name, value) ∈ section'.vars.entries ↔ m.lookup name = some value
  get : ∀ name value, m.lookup name = some value → configSectionGet section' name = some value
  /-- A table that is full finds a wrong value for a name that it does not hold. -/
  get_eq : m.bindings.length < configSecInitEntries →
    ∀ name, configSectionGet section' name = m.lookup name

theorem Message.heldBy_of_binds {m : Message} {config : Config} {section' : ConfigSection}
    (h : Binds config section' (bindLines (fun _ => none) (m.bindings.map Binding.line))) :
    m.HeldBy config section' := by
  refine ⟨h.getSection, fun name s => ?_, fun name value => ?_, fun name value hv => ?_,
    fun hlt name => ?_⟩
  · have hholds : Holds config.sections (onlyDefault section') := Or.inl h.sections
    rw [hholds.content_iff, onlyDefault]
    by_cases hname : name = configDefaultSection
    · subst hname
      simp [eq_comm]
    · simp [hname]
  · rw [h.vars.content_iff, m.lookup_eq]
  · exact h.get (by rw [m.lookup_eq, hv])
  · rw [← m.lookup_eq]
    refine h.get_eq (fun k hk => bindLines_ne_none hk) ?_ name
    simpa using hlt

section lookups

variable {m : Message} {config : Config} {section' : ConfigSection} {name : CStr}

theorem Message.HeldBy.getInt (h : m.HeldBy config section') {n : Int}
    (hn : m.lookup name = some (.int n)) (d : Int) : configGetInt config name none d = n := by
  unfold configGetInt configSectionGetInt
  rw [Option.getD_none, h.found]
  dsimp only
  rw [h.get _ _ hn]

theorem Message.HeldBy.getStr (h : m.HeldBy config section') {s : CStr}
    (hs : m.lookup name = some (.str s)) (d : Option CStr) : configGetStr config name none d = some s := by
  unfold configGetStr configSectionGetStr
  rw [Option.getD_none, h.found]
  dsimp only
  rw [h.get _ _ hs]

theorem Message.HeldBy.getList (h : m.HeldBy config section') {l : List ConfigValue}
    (hl : m.lookup name = some (.list l)) : configGetList config name none = some l := by
  unfold configGetList configSectionGetList
  rw [Option.getD_none, h.found]
  dsimp only
  rw [h.get _ _ hl]

end lookups

/-- One call reads one message. -/
theorem configParserStart_of_message (glob : CStr → List CStr) (m : Message) {parser : ConfigParser}
    {rest : List Char} (hsection : parser.section' = none)
    (hlexer : parser.lexer = ⟨m.render ++ rest, false⟩) :
    ∃ parser' section', configParserStart glob configCreate parser = some (true, parser') ∧
      parser'.lexer = ⟨rest, false⟩ ∧ parser'.section' = none ∧ m.HeldBy parser'.config section' := by
  obtain ⟨b, bs, hbs⟩ := List.exists_cons_of_ne_nil m.ne_nil
  rw [m.render_eq, hbs, List.map_cons] at hlexer
  obtain ⟨parser', hstart, hrest, hsection', hbinds⟩ :=
    configParserStart_of_lines glob (Or.inl rfl) b.line (bs.map Binding.line) hsection hlexer
  rw [← List.map_cons, ← hbs] at hbinds
  exact ⟨parser', _, hstart, hrest, hsection', Message.heldBy_of_binds hbinds⟩

/-- Calls on any parser that is not in a section. -/
theorem parserRun_of_messages (glob : CStr → List CStr) (msgs : List Message) {parser : ConfigParser}
    {rest : List Char} (hsection : parser.section' = none)
    (hlexer : parser.lexer = ⟨msgs.flatMap Message.render ++ rest, false⟩) :
    ∃ results, parserRun glob msgs.length parser = some results ∧ results.length = msgs.length ∧
      ∀ i (hi : i < msgs.length), ∃ parser' section', results[i]? = some (true, parser') ∧
        parser'.lexer.source = (msgs.drop (i + 1)).flatMap Message.render ++ rest ∧
        msgs[i].HeldBy parser'.config section' := by
  induction msgs generalizing parser with
  | nil => exact ⟨[], rfl, rfl, fun i hi => absurd hi (Nat.not_lt_zero i)⟩
  | cons m msgs ih =>
    rw [List.flatMap_cons, List.append_assoc] at hlexer
    obtain ⟨parser', section', hstart, hrest, hsection', hheld⟩ :=
      configParserStart_of_message glob m hsection hlexer
    obtain ⟨results, hrun, hlen, hall⟩ := ih hsection' hrest
    refine ⟨(true, parser') :: results, by simp [parserRun, hstart, hrun], by simp [hlen], ?_⟩
    intro i hi
    cases i with
    | zero => exact ⟨parser', section', rfl, by simp [hrest], hheld⟩
    | succ i =>
      obtain ⟨parser'', section'', hget, hsource, hheld'⟩ := hall i (Nat.lt_of_succ_lt_succ hi)
      exact ⟨parser'', section'', by simpa using hget, by simpa using hsource, by simpa using hheld'⟩

/-- Framing round trip: reading a sequence of messages gives each of them once, in order,
and never reads into the next one. -/
theorem framing_round_trip (glob : CStr → List CStr) (msgs : List Message) (rest : List Char) :
    ∃ results, parserRun glob msgs.length (configParserCreate
        (configLexerCreate (msgs.flatMap Message.render ++ rest))) = some results ∧
      results.length = msgs.length ∧
      ∀ i (hi : i < msgs.length), ∃ parser' section', results[i]? = some (true, parser') ∧
        parser'.lexer.source = (msgs.drop (i + 1)).flatMap Message.render ++ rest ∧
        msgs[i].HeldBy parser'.config section' := by
  apply parserRun_of_messages
  · rfl
  · rfl

end Greyd
