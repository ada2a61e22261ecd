import Greyd.ConfigParser

/-!
# One message through the parser

The parser is always one token ahead. `At parser text` says that it has just read the
first token of `text`, which is all that the grammar functions can see of it. Each lemma
about a piece of a message starts with the parser at the text of that piece and ends with
the parser at the text behind it.
-/
namespace Greyd

open Parse

/-- The parser has read the first token of the text. -/
def At (parser : ConfigParser) (text : List Char) : Prop :=
  (parser.curr, parser.lexer) = configLexerNextToken ⟨text, false⟩

section
variable {parser : ConfigParser} {text rest : List Char} {tok : Token}

@[simp] theorem advance_config : parser.advance.config = parser.config := rfl
@[simp] theorem advance_section : parser.advance.section' = parser.section' := rfl
@[simp] theorem advance_value : parser.advance.value = parser.value := rfl
@[simp] theorem setValue_curr (l : Option (List ConfigValue)) :
    (parser.setValue l).curr = parser.curr := rfl
@[simp] theorem setValue_config (l : Option (List ConfigValue)) :
    (parser.setValue l).config = parser.config := rfl
@[simp] theorem setValue_section (l : Option (List ConfigValue)) :
    (parser.setValue l).section' = parser.section' := rfl
@[simp] theorem setValue_value (l : Option (List ConfigValue)) : (parser.setValue l).value = l := rfl
@[simp] theorem setValue_advance (l : Option (List ConfigValue)) :
    (parser.setValue l).advance = parser.advance.setValue l := rfl
@[simp] theorem setValue_setValue (l l' : Option (List ConfigValue)) :
    (parser.setValue l).setValue l' = parser.setValue l' := rfl

theorem At.curr {lexer : Lexer} (h : At parser text)
    (hlex : configLexerNextToken ⟨text, false⟩ = (tok, lexer)) : parser.curr = tok := by
  rw [At, hlex] at h
  exact congrArg Prod.fst h

theorem At.lexer {lexer : Lexer} (h : At parser text)
    (hlex : configLexerNextToken ⟨text, false⟩ = (tok, lexer)) : parser.lexer = lexer := by
  rw [At, hlex] at h
  exact congrArg Prod.snd h

theorem At.advance (h : At parser text)
    (hlex : configLexerNextToken ⟨text, false⟩ = (tok, ⟨rest, false⟩)) : At parser.advance rest := by
  rw [At, ConfigParser.advance, h.lexer hlex]

theorem At.accepts (h : At parser text)
    (hlex : configLexerNextToken ⟨text, false⟩ = (tok, ⟨rest, false⟩)) (htok : tok ≠ .eol) :
    accept tok parser = some (true, parser.advance) := by
  rw [accept, if_pos (h.curr hlex), if_neg htok]

/-- The end of a line that another token follows. -/
theorem At.accepts_eol (h : At parser ('\n' :: rest)) (hnext : parser.advance.curr ≠ .eol) :
    accept .eol parser = some (true, parser.advance) := by
  rw [accept, if_pos (h.curr (lex_eol rest)), if_pos rfl, advanceEols, if_neg hnext]

theorem accept_of_ne (h : parser.curr ≠ tok) : accept tok parser = some (false, parser) := by
  rw [accept, if_neg h]

theorem orElse_true {p q : Parse} {parser' : ConfigParser} (h : p parser = some (true, parser')) :
    orElse p q parser = some (true, parser') := by
  rw [orElse, h]

theorem orElse_false {p q : Parse} {parser' : ConfigParser} (h : p parser = some (false, parser')) :
    orElse p q parser = q parser' := by
  rw [orElse, h]

theorem andThen_true {p q : Parse} {parser' : ConfigParser} (h : p parser = some (true, parser')) :
    andThen p q parser = q parser' := by
  rw [andThen, h]

theorem andThen_false {p q : Parse} {parser' : ConfigParser} (h : p parser = some (false, parser')) :
    andThen p q parser = some (false, parser') := by
  rw [andThen, h]

end

theorem newList_eq (parser : ConfigParser) :
    newList parser = some (true, parser.setValue (some [])) := rfl

/-! ## Values -/

/-- The text of a value that can stand in a list, up to the quotes' escapes. -/
inductive ItemText : CStr → ConfigValue → Prop
  | int {n : Nat} : n < 2 ^ 31 → ItemText (decimal n) (.int n)
  | str {s u : CStr} : unescape false s = some u → u.length ≤ lexerMaxStrLen + 1 →
      ItemText ('"' :: s ++ ['"']) (.str (cstr u))

def commaText (texts : List CStr) : CStr := texts.flatMap (',' :: ·)

/-- The text of a value, and the number of its list items. -/
inductive ValueText : CStr → ConfigValue → Nat → Prop
  | item {text : CStr} {value : ConfigValue} : ItemText text value → ValueText text value 0
  | list {text : CStr} {value : ConfigValue} {items : List (CStr × ConfigValue)} :
      ItemText text value → (∀ e ∈ items, ItemText e.1 e.2) →
      ValueText ('[' :: text ++ commaText (items.map Prod.fst) ++ [']'])
        (.list (value :: items.map Prod.snd)) items.length

/-- What the parser sees of an item. -/
def itemToken : ConfigValue → Token
  | .int i => .int i
  | .str s => .str s
  | .list _ => .eof

theorem ItemText.token_ne_eol {text : CStr} {value : ConfigValue} (h : ItemText text value) :
    itemToken value ≠ .eol := by
  cases h <;> simp [itemToken]

theorem ItemText.lex {text : CStr} {value : ConfigValue} (h : ItemText text value) {c : Char}
    (hc : c.isDigit = false) (rest : List Char) :
    configLexerNextToken ⟨text ++ c :: rest, false⟩ = (itemToken value, ⟨c :: rest, false⟩) := by
  cases h with
  | int hn => exact lex_int hn hc rest
  | str hs hlen =>
    rw [itemToken, ← lex_str (c :: rest) hs hlen]
    simp

theorem ItemText.listValue {text : CStr} {value : ConfigValue} (h : ItemText text value)
    {parser : ConfigParser} (hcurr : parser.curr = itemToken value) {l : List ConfigValue}
    (hlist : parser.value = some l) :
    grammarListValue parser = some (true, parser.advance.setValue (some (l ++ [value]))) := by
  cases h with
  | int hn =>
    rw [grammarListValue, hcurr]
    simp only [itemToken, insertValue, hlist, Option.map_some]
  | str hs hlen =>
    rw [grammarListValue, hcurr]
    simp only [itemToken, insertValue, hlist, Option.map_some]

/-- A value of a list is followed by a comma or by the closing bracket. -/
theorem commaText_head (texts : List CStr) (rest : List Char) :
    ∃ c tail, commaText texts ++ ']' :: rest = c :: tail ∧ c.isDigit = false := by
  cases texts with
  | nil => exact ⟨']', rest, rfl, by decide⟩
  | cons text texts => exact ⟨',', _, rfl, by decide⟩

/-- The other items of a list, up to its closing bracket. -/
theorem grammarListValues_of_text {items : List (CStr × ConfigValue)}
    (hitems : ∀ e ∈ items, ItemText e.1 e.2) {fuel : Nat} (hfuel : items.length < fuel)
    (parser : ConfigParser) {l : List ConfigValue} (hlist : parser.value = some l)
    {rest : List Char} (hat : At parser (commaText (items.map Prod.fst) ++ ']' :: rest)) :
    ∃ parser', grammarListValues fuel parser = some (true, parser') ∧ At parser' (']' :: rest) ∧
      parser'.value = some (l ++ items.map Prod.snd) ∧ parser'.config = parser.config ∧
      parser'.section' = parser.section' := by
  induction items generalizing fuel parser l with
  | nil =>
    obtain ⟨fuel, rfl⟩ := Nat.exists_eq_succ_of_ne_zero (by omega : fuel ≠ 0)
    have hcurr : parser.curr = .sqbrackR := hat.curr (lex_sqbrackR rest)
    refine ⟨parser, ?_, hat, by simpa using hlist, rfl, rfl⟩
    rw [grammarListValues, orElse_false (andThen_false (accept_of_ne (by simp [hcurr])))]
    rfl
  | cons e items ih =>
    obtain ⟨fuel, rfl⟩ := Nat.exists_eq_succ_of_ne_zero (by omega : fuel ≠ 0)
    have he := hitems e List.mem_cons_self
    obtain ⟨c, tail, htail, hc⟩ := commaText_head (items.map Prod.fst) rest
    have hat' : At parser (',' :: (e.1 ++ c :: tail)) := by
      simpa [commaText, ← htail] using hat
    have hnext := hat'.advance (lex_comma _)
    have hcurr := hnext.curr (he.lex hc tail)
    obtain ⟨parser', hparse, hend, hvalue, hconfig, hsection⟩ := ih
      (fun e' he' => hitems e' (List.mem_cons_of_mem _ he')) (Nat.lt_of_succ_lt_succ hfuel)
      (parser.advance.advance.setValue (some (l ++ [e.2]))) rfl
      (by rw [htail]; exact hnext.advance (he.lex hc tail))
    refine ⟨parser', ?_, hend, by simp [hvalue], hconfig, hsection⟩
    have hnoteol : parser.advance.curr ≠ .eol := by
      rw [hcurr]
      exact he.token_ne_eol
    rw [grammarListValues]
    apply orElse_true
    rw [andThen_true (hat'.accepts (lex_comma _) (by simp)),
      orElse_false (andThen_false (accept_of_ne hnoteol)), andThen_true (he.listValue hcurr hlist)]
    exact hparse

theorem grammarList_of_text {text : CStr} {value : ConfigValue} (hfirst : ItemText text value)
    {items : List (CStr × ConfigValue)} (hitems : ∀ e ∈ items, ItemText e.1 e.2) {fuel : Nat}
    (hfuel : items.length < fuel) {parser : ConfigParser} {rest : List Char}
    (hat : At parser ('[' :: (text ++ (commaText (items.map Prod.fst) ++ ']' :: rest)))) :
    ∃ parser', grammarList fuel parser = some (true, parser') ∧ At parser' rest ∧
      parser'.value = some (value :: items.map Prod.snd) ∧ parser'.config = parser.config ∧
      parser'.section' = parser.section' := by
  obtain ⟨c, tail, htail, hc⟩ := commaText_head (items.map Prod.fst) rest
  rw [htail] at hat
  have hnext := hat.advance (lex_sqbrackL _)
  have hlex := hfirst.lex hc tail
  have hcurr := hnext.curr hlex
  obtain ⟨parser', hparse, hend, hvalue, hconfig, hsection⟩ := grammarListValues_of_text hitems hfuel
    (parser.advance.advance.setValue (some [value])) rfl
    (by rw [htail]; exact hnext.advance hlex)
  have hnoteol : parser'.curr ≠ .eol := by simp [hend.curr (lex_sqbrackR rest)]
  have hfirsteol : (parser.advance.setValue (some [])).curr ≠ .eol := by
    rw [setValue_curr, hcurr]
    exact hfirst.token_ne_eol
  refine ⟨parser'.advance, ?_, hend.advance (lex_sqbrackR rest), by simpa using hvalue, hconfig,
    hsection⟩
  have hstatements : grammarListStatements fuel (parser.advance.setValue (some [])) =
      some (true, parser') := by
    rw [grammarListStatements, andThen_true (hfirst.listValue (by rw [setValue_curr, hcurr]) rfl)]
    exact hparse
  rw [grammarList, andThen_true (hat.accepts (lex_sqbrackL _) (by simp)),
    andThen_true (newList_eq parser.advance),
    andThen_true ((orElse_false (andThen_false (accept_of_ne hfirsteol))).trans hstatements),
    orElse_false (andThen_false (accept_of_ne hnoteol))]
  exact hend.accepts (lex_sqbrackR rest) (by simp)

/-! ## Lines -/

/-- The map that a default section alone gives rise to. -/
def onlyDefault (section' : ConfigSection) : CStr → Option ConfigSection :=
  Function.update (fun _ => none) configDefaultSection (some section')

/-- The default section is the only one, and its variables are these. -/
structure Binds (config : Config) (section' : ConfigSection) (f : CStr → Option ConfigValue) : Prop where
  sections : HoldsTable config.sections (onlyDefault section')
  vars : Holds section'.vars f
  size_le : configSecInitEntries ≤ section'.vars.size

theorem Binds.assign {parser : ConfigParser} {section' : ConfigSection} {f : CStr → Option ConfigValue}
    (h : Binds parser.config section' f) (hsection : parser.section' = none) {varname : CStr}
    (hname : varname.length ≤ maxKeyLen) (value : ConfigValue) :
    ∃ config', assign varname value parser = some { parser with config := config' } ∧
      Binds config' (configSectionSet section' varname value)
        (Function.update f varname (some value)) := by
  refine ⟨_, by rw [Greyd.assign, hsection], ?_, Or.inl (h.vars.insert hname value),
    h.size_le.trans (hashInsert_size _ _ _)⟩
  have hdefault : onlyDefault section' configDefaultSection = some section' := by simp [onlyDefault]
  have hupdate := h.sections.update hdefault (configSectionSet · varname value)
  rw [onlyDefault, Function.update_idem] at hupdate
  exact hupdate

/-- How the equals sign of a line is written. -/
def EqSign (sign : CStr) : Prop := sign = "=".toList ∨ sign = " = ".toList

theorem EqSign.head {sign : CStr} (h : EqSign sign) : ∃ c cs, sign = c :: cs ∧ isNameChar c = false := by
  rcases h with rfl | rfl
  · exact ⟨'=', [], rfl, by decide⟩
  · exact ⟨' ', ['=', ' '], rfl, by decide⟩

theorem EqSign.accepts {sign : CStr} (h : EqSign sign) {parser : ConfigParser} {text : List Char}
    (hat : At parser (sign ++ text)) :
    accept .eq parser = some (true, parser.advance) ∧ At parser.advance text := by
  rcases h with rfl | rfl
  · exact ⟨hat.accepts (lex_eq text) (by simp), hat.advance (lex_eq text)⟩
  · have hlex : configLexerNextToken ⟨' ' :: '=' :: ' ' :: text, false⟩ = (.eq, ⟨' ' :: text, false⟩) :=
      lex_eq (' ' :: text)
    refine ⟨hat.accepts hlex (by simp), ?_⟩
    have hnext := hat.advance hlex
    rwa [At, lex_blank] at hnext

/-- One assignment of a message: the name, the text of the value and what it stands for. -/
structure Line where
  name : CStr
  text : CStr
  value : ConfigValue
  items : Nat
  isName : IsName name
  isText : ValueText text value items

/-- The text of a line, without its end. -/
def Line.render (sign : CStr) (line : Line) : CStr := line.name ++ (sign ++ line.text)

/-- The name of a line is its first token. -/
theorem Line.lex_render (line : Line) {sign : CStr} (hsign : EqSign sign) (rest : List Char) :
    configLexerNextToken ⟨line.render sign ++ rest, false⟩ =
      (.name line.name, ⟨sign ++ (line.text ++ rest), false⟩) := by
  obtain ⟨c, cs, hsignc, hc⟩ := hsign.head
  simpa [Line.render, hsignc] using lex_name line.isName hc (cs ++ (line.text ++ rest))

theorem Line.name_length_le (line : Line) : line.name.length ≤ maxKeyLen := line.isName.length_le

section
variable {sign : CStr} {parser : ConfigParser} {section' : ConfigSection}
  {f : CStr → Option ConfigValue}

private theorem assignmentValue_of_text {text : CStr} {value : ConfigValue} {items : Nat}
    (htext : ValueText text value items) {fuel : Nat} (hfuel : items < fuel) {rest : List Char}
    (hat : At parser (text ++ '\n' :: rest)) (hsection : parser.section' = none)
    (hbinds : Binds parser.config section' f) {varname : CStr} (hname : varname.length ≤ maxKeyLen) :
    ∃ parser', assignmentValue fuel varname parser = some (true, parser') ∧
      At parser' ('\n' :: rest) ∧ parser'.section' = none ∧
      Binds parser'.config (configSectionSet section' varname value)
        (Function.update f varname (some value)) := by
  cases htext with
  | item hitem =>
    have hlex := hitem.lex (by decide : '\n'.isDigit = false) rest
    have hcurr := hat.curr hlex
    obtain ⟨config', hassign, hnew⟩ := hbinds.assign hsection hname value
    refine ⟨{ parser with config := config' }.advance, ?_, hat.advance hlex, hsection, hnew⟩
    cases hitem <;> rw [assignmentValue, hcurr] <;> simp only [itemToken, hassign] <;> rfl
  | list hfirst hitems =>
    rename_i first firstValue entries
    have hopen : At parser ('[' :: (first ++ (commaText (entries.map Prod.fst) ++ ']' :: '\n' :: rest))) := by
      simpa using hat
    obtain ⟨parser', hlist, hend, hvalue, hconfig, hsection'⟩ :=
      grammarList_of_text hfirst hitems hfuel hopen
    obtain ⟨config', hassign, hnew⟩ := (hconfig ▸ hbinds).assign (hsection'.trans hsection) hname
      (.list (firstValue :: entries.map Prod.snd))
    refine ⟨{ parser' with config := config' }.setValue none, ?_, hend, hsection'.trans hsection, hnew⟩
    rw [assignmentValue, hopen.curr (lex_sqbrackL _)]
    simp only
    rw [andThen_true hlist, hvalue, Option.bind_some, hassign]
    rfl

theorem grammarAssignment_of_line (hsign : EqSign sign) (line : Line) {fuel : Nat}
    (hfuel : line.items < fuel) {rest : List Char}
    (hat : At parser (line.render sign ++ '\n' :: rest)) (hsection : parser.section' = none)
    (hbinds : Binds parser.config section' f) :
    ∃ parser', grammarAssignment fuel parser = some (true, parser') ∧ At parser' ('\n' :: rest) ∧
      parser'.section' = none ∧ Binds parser'.config (configSectionSet section' line.name line.value)
        (Function.update f line.name (some line.value)) := by
  have hname := line.lex_render hsign ('\n' :: rest)
  obtain ⟨heq, hat'⟩ := hsign.accepts (hat.advance hname)
  rw [grammarAssignment, hat.curr hname]
  simp only
  rw [andThen_true heq]
  exact assignmentValue_of_text line.isText hfuel hat' hsection hbinds line.name_length_le

/-- The lines of a message, each with its end. -/
def renderLines (sign : CStr) (lines : List Line) : CStr :=
  lines.flatMap fun line => line.render sign ++ ['\n']

def renderMessage (sign : CStr) (lines : List Line) : CStr := renderLines sign lines ++ ['%', '\n']

/-- The bindings after the lines, the last of each name. -/
def bindLines (f : CStr → Option ConfigValue) (lines : List Line) : CStr → Option ConfigValue :=
  lines.foldl (fun f line => Function.update f line.name (some line.value)) f

def setLines (section' : ConfigSection) (lines : List Line) : ConfigSection :=
  lines.foldl (fun s line => configSectionSet s line.name line.value) section'

/-- What the recursive rules need, for the lines and for the items of their lists. -/
def weight (lines : List Line) : Nat := (lines.map fun line => line.items + 1).sum

private theorem curr_of_lines {lines : List Line} {rest : List Char} (hsign : EqSign sign)
    (hat : At parser (renderMessage sign lines ++ rest)) :
    parser.curr ≠ .eol := by
  cases lines with
  | nil =>
    have := hat.curr (lex_percent ('\n' :: rest))
    simp [this]
  | cons line lines =>
    have hline : At parser (line.render sign ++ '\n' :: (renderMessage sign lines ++ rest)) := by
      simpa [renderMessage, renderLines] using hat
    have := hline.curr (line.lex_render hsign _)
    simp [this]

theorem grammarStatements_of_lines (glob : CStr → List CStr) (hsign : EqSign sign) (lines : List Line)
    {fuel : Nat} (hfuel : weight lines < fuel) {rest : List Char}
    (hat : At parser ('\n' :: (renderMessage sign lines ++ rest))) (hsection : parser.section' = none)
    (hbinds : Binds parser.config section' f) :
    ∃ parser', grammarStatements glob fuel parser = some (true, parser') ∧
      At parser' ('%' :: '\n' :: rest) ∧ parser'.section' = none ∧
      Binds parser'.config (setLines section' lines) (bindLines f lines) := by
  induction lines generalizing fuel parser section' f with
  | nil =>
    obtain ⟨fuel, rfl⟩ := Nat.exists_eq_succ_of_ne_zero (by omega : fuel ≠ 0)
    have hnext : At parser.advance ('%' :: '\n' :: rest) := hat.advance (lex_eol _)
    have hcurr := hnext.curr (lex_percent ('\n' :: rest))
    have hnone : grammarStatement glob fuel parser.advance = some (false, parser.advance) := by
      simp [grammarStatement, grammarAssignment, grammarSection, grammarSectionType, grammarInclude,
        orElse, andThen, accept, hcurr, err]
    refine ⟨parser.advance, ?_, hnext, hsection, hbinds⟩
    rw [grammarStatements, orElse_false]
    · rfl
    · rw [andThen_true (hat.accepts_eol (by simp [hcurr])), andThen_false hnone]
  | cons line lines ih =>
    obtain ⟨fuel, rfl⟩ := Nat.exists_eq_succ_of_ne_zero (by omega : fuel ≠ 0)
    have hweight : weight (line :: lines) = line.items + 1 + weight lines := by simp [weight]
    have hnext := hat.advance (lex_eol _)
    have hcurr := curr_of_lines hsign hnext
    have hline : At parser.advance
        (line.render sign ++ '\n' :: (renderMessage sign lines ++ rest)) := by
      simpa [renderMessage, renderLines] using hnext
    obtain ⟨parser', hassign, hat', hsection', hbinds'⟩ := grammarAssignment_of_line hsign line
      (by omega : line.items < fuel) hline hsection hbinds
    obtain ⟨parser'', hparse, hend⟩ := ih (by omega : weight lines < fuel) hat' hsection' hbinds'
    refine ⟨parser'', ?_, hend⟩
    have hstatement : grammarStatement glob fuel parser.advance = some (true, parser') :=
      orElse_true hassign
    rw [grammarStatements]
    apply orElse_true
    rw [andThen_true (hat.accepts_eol hcurr), andThen_true hstatement]
    exact hparse

theorem binds_start : Binds (ensureDefault configCreate) (configSectionCreate configDefaultSection)
    fun _ => none := by
  have hempty : Holds (configCreate.sections) fun _ => none := holds_create (by decide)
  have hshort : configDefaultSection.length ≤ maxKeyLen := by decide
  exact ⟨hempty.insert hshort _, holds_create (by decide), le_refl _⟩

private theorem ValueText.items_le {text : CStr} {value : ConfigValue} {items : Nat}
    (h : ValueText text value items) : items ≤ text.length := by
  have hcomma : ∀ texts : List CStr, texts.length ≤ (commaText texts).length := by
    intro texts
    induction texts with
    | nil => exact le_refl _
    | cons t texts ih =>
      have : commaText (t :: texts) = ',' :: t ++ commaText texts := rfl
      simp only [this, List.length_append, List.length_cons]
      omega
  cases h with
  | item => exact Nat.zero_le _
  | list hfirst hitems =>
    rename_i first firstValue entries
    have := hcomma (entries.map Prod.fst)
    rw [List.length_map] at this
    simp only [List.length_append, List.length_cons]
    omega

private theorem weight_le (sign : CStr) (lines : List Line) :
    weight lines ≤ (renderLines sign lines).length := by
  induction lines with
  | nil => exact le_refl _
  | cons line lines ih =>
    have hline := line.isText.items_le
    simp only [weight, renderLines, Line.render, List.map_cons, List.sum_cons, List.flatMap_cons,
      List.length_append, List.length_singleton] at ih ⊢
    omega

/-- `Config_parser_start` reads one message, and the text behind it stays unread. -/
theorem configParserStart_of_lines (glob : CStr → List CStr) (hsign : EqSign sign) (line : Line)
    (lines : List Line) {rest : List Char} (hsection : parser.section' = none)
    (hlexer : parser.lexer = ⟨renderMessage sign (line :: lines) ++ rest, false⟩) :
    ∃ parser', configParserStart glob configCreate parser = some (true, parser') ∧
      parser'.lexer = ⟨rest, false⟩ ∧ parser'.section' = none ∧
      Binds parser'.config (setLines (configSectionCreate configDefaultSection) (line :: lines))
        (bindLines (fun _ => none) (line :: lines)) := by
  have hat : At (parserBegin configCreate parser) (renderMessage sign (line :: lines) ++ rest) := by
    show configLexerNextToken parser.lexer = _
    rw [hlexer]
  have hnoteol := curr_of_lines hsign hat
  have hline : At (parserBegin configCreate parser)
      (line.render sign ++ '\n' :: (renderMessage sign lines ++ rest)) := by
    simpa [renderMessage, renderLines] using hat
  have hsource := congrArg Lexer.source (hline.lexer (line.lex_render hsign _))
  have hitems := line.isText.items_le
  have hweight := weight_le sign lines
  have hfuel : line.items + weight lines < (parserBegin configCreate parser).lexer.source.length + 2 := by
    rw [hsource]
    simp only [renderMessage, List.length_append, List.length_cons]
    omega
  obtain ⟨parser', hfirst, hat', hsection', hbinds'⟩ := grammarAssignment_of_line hsign line
    (by omega : line.items < (parserBegin configCreate parser).lexer.source.length + 2) hline
    (by simp [parserBegin, hsection]) binds_start
  obtain ⟨parser'', hmore, hend, hsection'', hbinds''⟩ := grammarStatements_of_lines glob hsign lines
    (by omega : weight lines < (parserBegin configCreate parser).lexer.source.length + 2) hat' hsection' hbinds'
  refine ⟨parser''.advance, ?_, (hend.advance (lex_percent _)).lexer (lex_eol _), hsection'', hbinds''⟩
  have hskip : acceptOptional .eol (parserBegin configCreate parser) =
      some (true, parserBegin configCreate parser) := orElse_false (accept_of_ne hnoteol)
  have hstatement : grammarStatement glob ((parserBegin configCreate parser).lexer.source.length + 2)
      (parserBegin configCreate parser) = some (true, parser') := orElse_true hfirst
  rw [configParserStart, andThen_true hskip]
  apply orElse_true
  rw [andThen_true hstatement, andThen_true hmore]
  exact hend.accepts (lex_percent _) (by simp)

end

/-! ## Reading the bindings back -/

theorem bindLines_ne_none {lines : List Line} {k : CStr} (h : bindLines (fun _ => none) lines k ≠ none) :
    k ∈ lines.map Line.name := by
  have hgen : ∀ (lines : List Line) (f : CStr → Option ConfigValue), bindLines f lines k ≠ none →
      f k ≠ none ∨ k ∈ lines.map Line.name := by
    intro lines
    induction lines with
    | nil => exact fun f h => Or.inl h
    | cons line lines ih =>
      intro f h
      rw [List.map_cons, List.mem_cons]
      rcases ih _ h with h | h
      · by_cases hk : k = line.name
        · exact Or.inr (Or.inl hk)
        · exact Or.inl (by simpa [hk] using h)
      · exact Or.inr (Or.inr h)
  rcases hgen lines _ h with h | h
  · exact absurd rfl h
  · exact h

section
variable {config : Config} {section' : ConfigSection} {f : CStr → Option ConfigValue}

theorem Binds.getSection (h : Binds config section' f) :
    configGetSection config configDefaultSection = some section' := by
  have hholds : Holds config.sections (onlyDefault section') := Or.inl h.sections
  exact hholds.get (by simp [onlyDefault])

theorem Binds.get (h : Binds config section' f) {k : CStr} {v : ConfigValue} (hk : f k = some v) :
    configSectionGet section' k = some v := h.vars.get hk

/-- As long as the section's first table is not full, an unbound name is not found. -/
theorem Binds.get_eq (h : Binds config section' f) {keys : List CStr} (hkeys : ∀ k, f k ≠ none → k ∈ keys)
    (hlt : keys.length < configSecInitEntries) (k : CStr) : configSectionGet section' k = f k :=
  h.vars.get_eq hkeys (hlt.trans_le h.size_le) k

end

end Greyd
