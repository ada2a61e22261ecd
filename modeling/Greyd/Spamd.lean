import Greyd.Blacklist
import Greyd.ConfigLexer

/-!
# Feeds (spamd_lexer.c, spamd_parser.c)

The lexer skips blanks and comments like the configuration lexer. The parser takes its
tokens from the `next_token` function of whatever lexer it is given.
-/
namespace Greyd

def spamdLexerMaxInt6 : Nat := 32
def spamdLexerMaxInt8 : Nat := 255

inductive SpamdTok
  | dot
  | int6 (i : Nat)
  | int8 (i : Nat)
  | dash
  | slash
  | eof
  | eol
  deriving DecidableEq, Repr

/-- The loop over the digits of a number: it ends before the number passes 255. -/
def spamdDigits (i : Nat) : List Char → Nat × List Char
  | [] => (i, [])
  | c :: cs =>
    if c.isDigit then
      if i * 10 + digitVal c > spamdLexerMaxInt8 then (i, c :: cs)
      else spamdDigits (i * 10 + digitVal c) cs
    else (i, c :: cs)

def spamdInt (i : Nat) : SpamdTok := if i ≤ spamdLexerMaxInt6 then .int6 i else .int8 i

/-- The token of a character that is neither blank nor a digit. -/
def spamdChar (c : Char) : SpamdTok :=
  if c = '\n' then .eol
  else if c = '.' then .dot
  else if c = '-' then .dash
  else if c = '/' then .slash
  else .eof

def spamdLexerNextToken (lexer : Lexer) : SpamdTok × Lexer :=
  if lexer.seenEnd then (.eof, lexer)
  else
    let skipped := skipBlanks false lexer.source
    match skipped.source with
    | [] => (.eof, skipped)
    | c :: cs =>
      if c.isDigit then
        let (i, rest) := spamdDigits (digitVal c) cs
        (spamdInt i, .reuse rest)
      else (spamdChar c, ⟨cs, false⟩)

def spamdParserIpv4Quads : Nat := 4

structure SpamdParser (σ : Type) where
  lexer : σ
  curr : SpamdTok
  start : List Nat
  end_ : List Nat
  blacklist : Blacklist
  type : BlType

def spamdParserCreate {σ : Type} (lexer : σ) (blacklist : Blacklist) (type : BlType) : SpamdParser σ :=
  ⟨lexer, .eof, List.replicate spamdParserIpv4Quads 0, List.replicate spamdParserIpv4Quads 0, blacklist,
    type⟩

/-- `ntohl` of the four bytes read as a word. -/
def quadAddr (quads : List Nat) : BitVec 32 :=
  quads.foldl (fun w q => w <<< 8 ||| BitVec.ofNat 32 q) 0

/-- `IP_cidr_to_range`. The shift count of the processor is taken modulo 32. -/
def ipCidrToRange (cidr : IpCidr) : BitVec 32 × BitVec 32 :=
  (cidr.addr, cidr.addr + (1#32 <<< ((32 - cidr.bits) % 32)) - 1)

namespace SpamdParser

variable {σ : Type} (next : σ → SpamdTok × σ)

def advance (parser : SpamdParser σ) : SpamdParser σ :=
  { parser with curr := (next parser.lexer).1, lexer := (next parser.lexer).2 }

/-- The loop that takes all ends of line; `fuel` is more than there are of them. -/
def advanceEols : Nat → SpamdParser σ → SpamdParser σ
  | 0, parser => parser
  | fuel + 1, parser =>
    if (parser.advance next).curr = .eol then advanceEols fuel (parser.advance next)
    else parser.advance next

/-- `tok_accept` -/
def tokAccept (fuel : Nat) (tok : SpamdTok) (parser : SpamdParser σ) : Bool × SpamdParser σ :=
  if parser.curr = tok then
    (true, if tok = .eol then advanceEols next fuel parser else parser.advance next)
  else (false, parser)

/-- `parser->start[i]` or `parser->end[i]`. -/
def setQuad (start : Bool) (i v : Nat) (parser : SpamdParser σ) : SpamdParser σ :=
  if start then { parser with start := parser.start.set i v }
  else { parser with end_ := parser.end_.set i v }

/-- The loop of `grammar_address`, with the number of quads that are still to come. -/
def addressLoop (start : Bool) : Nat → SpamdParser σ → Bool × SpamdParser σ
  | 0, parser => (true, parser)
  | left + 1, parser =>
    let quad (v : Nat) : Bool × SpamdParser σ :=
      let parser := (parser.setQuad start (spamdParserIpv4Quads - 1 - left) v).advance next
      if left = 0 then addressLoop start left parser
      else if parser.curr = .dot then addressLoop start left (parser.advance next)
      else (false, parser)
    match parser.curr with
    | .int6 v => quad v
    | .int8 v => quad v
    | _ => (false, parser)

def grammarAddress (start : Bool) (parser : SpamdParser σ) : Bool × SpamdParser σ :=
  addressLoop next start spamdParserIpv4Quads parser

/-- The end of `grammar_entry`: the range goes onto the blacklist. -/
def addRange (start end_ : BitVec 32) (parser : SpamdParser σ) : Option (Bool × SpamdParser σ) :=
  (blacklistAddRange parser.blacklist start end_ parser.type).map fun blacklist =>
    (true, { parser with blacklist := blacklist })

def grammarEntry (parser : SpamdParser σ) : Option (Bool × SpamdParser σ) :=
  match grammarAddress next true parser with
  | (false, parser) => some (false, parser)
  | (true, parser) =>
    if parser.curr = .slash then
      let parser := parser.advance next
      match parser.curr with
      | .int6 bits =>
        let range := ipCidrToRange ⟨quadAddr parser.start, bits⟩
        (parser.advance next).addRange range.1 (range.2 + 1)
      | _ => some (false, parser)
    else if parser.curr = .dash then
      match grammarAddress next false (parser.advance next) with
      | (false, parser) => some (false, parser)
      | (true, parser) => parser.addRange (quadAddr parser.start) (quadAddr parser.end_ + 1)
    else parser.addRange (quadAddr parser.start) (quadAddr parser.start + 1)

/-- `grammar_entries`; `none` also when there are more lines than `fuel`. -/
def grammarEntries : Nat → SpamdParser σ → Option (Bool × SpamdParser σ)
  | 0, _ => none
  | fuel + 1, parser =>
    match tokAccept next fuel .eol parser with
    | (false, parser) => some (true, parser)
    | (true, parser) =>
      match grammarEntry next parser with
      | none => none
      | some (false, parser) => some (true, parser)
      | some (true, parser) =>
        (grammarEntries fuel parser).map fun r => (true, r.2)

/-- `Spamd_parser_start`; `true` is `SPAMD_PARSER_OK`. -/
def run (fuel : Nat) (parser : SpamdParser σ) : Option (Bool × SpamdParser σ) :=
  let parser := (tokAccept next fuel .eol (parser.advance next)).2
  match grammarEntry next parser with
  | none => none
  | some (false, parser) => some (tokAccept next fuel .eof parser)
  | some (true, parser) =>
    match grammarEntries next fuel parser with
    | none => none
    | some (false, parser) => some (tokAccept next fuel .eof parser)
    | some (true, parser) =>
      match tokAccept next fuel .eof parser with
      | (true, parser) => some (true, parser)
      | (false, parser) => some (tokAccept next fuel .eof parser)

end SpamdParser

/-- `Spamd_parser_start` on a new parser; there is less than `fuel` to read. -/
def spamdParserStart {σ : Type} (next : σ → SpamdTok × σ) (fuel : Nat) (lexer : σ)
    (blacklist : Blacklist) (type : BlType) : Option (Bool × SpamdParser σ) :=
  (spamdParserCreate lexer blacklist type).run next fuel

end Greyd
