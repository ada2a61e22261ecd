import Greyd.Config
import Greyd.ConfigLexer

/-!
# The configuration parser (config_parser.c)

The parser refers to an open section by the slot it has in one of the tables of the
configuration. The reference that a section with a syntax error leaves behind does not
survive the configuration: a later assignment through it has no result.
-/
namespace Greyd

inductive SectionType
  | section
  | blacklist
  | whitelist
  deriving DecidableEq

inductive SectionRef
  | slot (sectype : SectionType) (i : Nat)
  | dangling

structure ConfigParser where
  lexer : Lexer
  config : Config
  (section' : Option SectionRef)
  /-- The list that is being read, or NULL. -/
  value : Option (List ConfigValue)
  curr : Token
  sectype : SectionType

def configParserCreate (lexer : Lexer) : ConfigParser :=
  ⟨lexer, configCreate, none, none, .eof, .section⟩

/-- `none` is no result: a write through a dangling reference or through NULL, or a recursion
without end. -/
abbrev Parse := ConfigParser → Option (Bool × ConfigParser)

namespace Parse

def ok : Parse := fun parser => some (true, parser)
def err : Parse := fun parser => some (false, parser)

/-- `p && q` -/
def andThen (p q : Parse) : Parse := fun parser =>
  match p parser with
  | some (true, parser) => q parser
  | r => r

/-- `p || q` -/
def orElse (p q : Parse) : Parse := fun parser =>
  match p parser with
  | some (false, parser) => q parser
  | r => r

end Parse

open Parse

def ConfigParser.advance (parser : ConfigParser) : ConfigParser :=
  let (tok, lexer) := configLexerNextToken parser.lexer
  { parser with curr := tok, lexer := lexer }

def ConfigParser.setValue (parser : ConfigParser) (value : Option (List ConfigValue)) : ConfigParser :=
  { parser with value := value }

/-- Advances to the first token that is no end of line. Each takes a character at least. -/
def advanceEols : Nat → ConfigParser → ConfigParser
  | 0, parser => parser
  | fuel + 1, parser =>
    if parser.advance.curr = .eol then advanceEols fuel parser.advance else parser.advance

def accept (tok : Token) : Parse := fun parser =>
  if parser.curr = tok then
    some (true, if tok = .eol then advanceEols (parser.lexer.source.length + 1) parser
      else parser.advance)
  else some (false, parser)

def sectionTable (sectype : SectionType) (config : Config) : Hash ConfigSection :=
  match sectype with
  | .section => config.sections
  | .blacklist => config.blacklists
  | .whitelist => config.whitelists

def setSectionTable (sectype : SectionType) (config : Config) (table : Hash ConfigSection) : Config :=
  match sectype with
  | .section => { config with sections := table }
  | .blacklist => { config with blacklists := table }
  | .whitelist => { config with whitelists := table }

/-- A write to the section a reference points to. -/
def updateSection (config : Config) (sectype : SectionType) (i : Nat)
    (g : ConfigSection → ConfigSection) : Config :=
  setSectionTable sectype config (hashUpdate (sectionTable sectype config) i g)

/-- The end of `grammar_assignment`: the variable goes into the open section, or else into
the default section. -/
def assign (varname : CStr) (value : ConfigValue) (parser : ConfigParser) : Option ConfigParser :=
  let set (sectype : SectionType) (i : Nat) : ConfigParser :=
    { parser with config := updateSection parser.config sectype i (configSectionSet · varname value) }
  match parser.section' with
  | some .dangling => none
  | some (.slot sectype i) => some (set sectype i)
  | none => some (set .section (hashFindEntry parser.config.sections configDefaultSection))

/-- A value goes to the end of the list, behind which the token stream goes on. -/
def insertValue (value : ConfigValue) : Parse := fun parser =>
  parser.value.map fun l => (true, parser.advance.setValue (some (l ++ [value])))

def grammarListValue : Parse := fun parser =>
  match parser.curr with
  | .int i => insertValue (.int i) parser
  | .str s => insertValue (.str s) parser
  | _ => err parser

/-- `grammar_list_values`. Every call of it takes a token, so a fuel of one more than the
characters that are left is enough here and in the other recursive rules. -/
def grammarListValues : Nat → Parse
  | 0 => fun _ => none
  | fuel + 1 =>
    orElse (andThen (accept .comma)
      (orElse (andThen (accept .eol) (andThen grammarListValue (grammarListValues fuel)))
        (andThen grammarListValue (grammarListValues fuel)))) ok

def grammarListStatements (fuel : Nat) : Parse :=
  andThen grammarListValue (grammarListValues fuel)

/-- `grammar_list` starts on a new list. -/
def newList : Parse := fun parser => ok (parser.setValue (some []))

def grammarList (fuel : Nat) : Parse :=
  andThen (accept .sqbrackL) (andThen newList
    (andThen
      (orElse (andThen (accept .eol) (grammarListStatements fuel)) (grammarListStatements fuel))
      (orElse (andThen (accept .eol) (accept .sqbrackR)) (accept .sqbrackR))))

/-- The right-hand side of an assignment. -/
def assignmentValue (fuel : Nat) (varname : CStr) : Parse := fun parser =>
  match parser.curr with
  | .int i => (assign varname (.int i) parser).map fun parser => (true, parser.advance)
  | .str s => (assign varname (.str s) parser).map fun parser => (true, parser.advance)
  | _ => andThen (grammarList fuel) (fun parser => parser.value.bind fun l =>
      (assign varname (.list l) parser).map fun parser => (true, parser.setValue none)) parser

def grammarAssignment (fuel : Nat) : Parse := fun parser =>
  match parser.curr with
  | .name varname => andThen (accept .eq) (assignmentValue fuel varname) parser.advance
  | _ => err parser

def grammarSectionType : Parse := fun parser =>
  match parser.curr with
  | .section => ok { parser with sectype := .section }.advance
  | .blacklist => ok { parser with sectype := .blacklist }.advance
  | .whitelist => ok { parser with sectype := .whitelist }.advance
  | _ => err parser

/-- Optional ends of line, or an optional comma. -/
def acceptOptional (tok : Token) : Parse := orElse (accept tok) ok

def grammarSectionAssignments : Nat → Parse
  | 0 => fun _ => none
  | fuel + 1 =>
    andThen (acceptOptional .comma)
      (orElse (andThen (accept .eol) (andThen (grammarAssignment fuel)
        (grammarSectionAssignments fuel))) ok)

def grammarSectionStatements (fuel : Nat) : Parse :=
  andThen (grammarAssignment fuel) (grammarSectionAssignments fuel)

/-- A new section under the name, in place of one that is there. -/
def openSection (secname : CStr) (parser : ConfigParser) : ConfigParser :=
  let table := sectionTable parser.sectype parser.config
  { parser with section' := some (.slot parser.sectype (hashFindEntry (hashRoom table) secname))
                config := setSectionTable parser.sectype parser.config
                  (hashInsert table secname (configSectionCreate secname)) }

def grammarSection (fuel : Nat) : Parse :=
  andThen grammarSectionType fun parser =>
    match parser.curr with
    | .name secname =>
      andThen (acceptOptional .eol) (andThen (accept .bracketL) (andThen (acceptOptional .eol)
        (andThen (fun parser => ok (openSection secname parser))
          (andThen (grammarSectionStatements fuel)
            (andThen (orElse (andThen (accept .eol) (accept .bracketR)) (accept .bracketR))
              (fun parser => ok { parser with section' := none })))))) parser.advance
    | _ => err parser

def grammarInclude (glob : CStr → List CStr) : Parse :=
  andThen (accept .include) fun parser =>
    match parser.curr with
    | .str s => ok { parser with config := configAddInclude glob parser.config s }.advance
    | _ => err parser

def grammarStatement (glob : CStr → List CStr) (fuel : Nat) : Parse :=
  orElse (grammarAssignment fuel) (orElse (grammarSection fuel) (grammarInclude glob))

def grammarStatements (glob : CStr → List CStr) : Nat → Parse
  | 0 => fun _ => none
  | fuel + 1 =>
    orElse (andThen (accept .eol) (andThen (grammarStatement glob fuel)
      (grammarStatements glob fuel))) ok

/-- The configuration with a default section. -/
def ensureDefault (config : Config) : Config :=
  match configGetSection config configDefaultSection with
  | none => configAddSection config (configSectionCreate configDefaultSection)
  | some _ => config

/-- The first lines of `Config_parser_start`: the token that was read ahead is dropped. -/
def parserBegin (config : Config) (parser : ConfigParser) : ConfigParser :=
  { parser with config := ensureDefault config, section' := parser.section'.map fun _ => .dangling }.advance

/-- `Config_parser_start` with a new configuration; `true` is `CONFIG_PARSER_OK`. -/
def configParserStart (glob : CStr → List CStr) (config : Config) : Parse := fun parser =>
  let parser := parserBegin config parser
  let fuel := parser.lexer.source.length + 2
  andThen (acceptOptional .eol)
    (orElse (andThen (grammarStatement glob fuel) (andThen (grammarStatements glob fuel)
      (accept .eof))) (accept .eof)) parser

end Greyd
