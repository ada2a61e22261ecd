import Greyd.Envelope
import Greyd.Grey
import Greyd.MessageText
import Greyd.StringLimit

/-!
# Grey messages on the pipe (con.c, grey.c)

`Con_next_state` prints the fields of a grey message between quotes as they are, and the
reader of the greylister parses them back. Both sides have limits of their own.
-/
namespace Greyd

/-- A text between quotes that the lexer reads as a whole, and what it makes of it. -/
structure Reads (s u : CStr) : Prop where
  unescaped : unescape false s = some u
  short : u.length ≤ maxToken

theorem Reads.self {s : CStr} (hq : '"' ∉ s) (hb : '\\' ∉ s) (hlen : s.length ≤ maxToken) :
    Reads s s := ⟨unescape_eq_self hq hb, hlen⟩

structure GreyMessage.Reads (m u : GreyMessage) : Prop where
  dstIp : Greyd.Reads m.dstIp u.dstIp
  ip : Greyd.Reads m.ip u.ip
  helo : Greyd.Reads m.helo u.helo
  from_ : Greyd.Reads m.from_ u.from_
  to_ : Greyd.Reads m.to_ u.to_

/-! ## The lines of a grey message -/

def Reads.line {s u : CStr} (h : Reads s u) (name : CStr) (hname : IsName name) : Line :=
  ⟨name, '"' :: s ++ ['"'], .str (cstr u), 0, hname, .item (.str h.unescaped h.short)⟩

def typeLine : Line where
  name := "type".toList
  text := decimal 1
  value := .int (1 : Nat)
  items := 0
  isName := isName_of (by decide) (by decide) (by decide) (by decide)
  isText := .item (.int (by decide))

section Lines

variable {m u : GreyMessage}

def GreyMessage.Reads.lines (h : m.Reads u) : List Line :=
  [h.dstIp.line "dst_ip".toList (isName_of (by decide) (by decide) (by decide) (by decide)),
    h.ip.line "ip".toList (isName_of (by decide) (by decide) (by decide) (by decide)),
    h.helo.line "helo".toList (isName_of (by decide) (by decide) (by decide) (by decide)),
    h.from_.line "from".toList (isName_of (by decide) (by decide) (by decide) (by decide)),
    h.to_.line "to".toList (isName_of (by decide) (by decide) (by decide) (by decide))]

theorem GreyMessage.Reads.render (h : m.Reads u) :
    m.text = renderMessage " = ".toList (typeLine :: h.lines) := by
  have htype : typeLine.render " = ".toList = "type = 1".toList := rfl
  have hline : ∀ {s u : CStr} (h : Greyd.Reads s u) {name : CStr} (hname : IsName name),
      (h.line name hname).render " = ".toList = name ++ (" = ".toList ++ ('"' :: s ++ ['"'])) :=
    fun _ _ _ => rfl
  have hfirst : "type = 1\ndst_ip = \"".toList =
      "type = 1".toList ++ '\n' :: ("dst_ip".toList ++ (" = ".toList ++ ['"'])) := rfl
  have hip : "\"\nip = \"".toList = '"' :: '\n' :: ("ip".toList ++ (" = ".toList ++ ['"'])) := rfl
  have hhelo : "\"\nhelo = \"".toList = '"' :: '\n' :: ("helo".toList ++ (" = ".toList ++ ['"'])) := rfl
  have hfrom : "\"\nfrom = \"".toList = '"' :: '\n' :: ("from".toList ++ (" = ".toList ++ ['"'])) := rfl
  have hto : "\"\nto = \"".toList = '"' :: '\n' :: ("to".toList ++ (" = ".toList ++ ['"'])) := rfl
  have hlast : "\"\n%\n".toList = '"' :: '\n' :: ['%', '\n'] := rfl
  unfold renderMessage renderLines GreyMessage.Reads.lines GreyMessage.text
  rw [hfirst, hip, hhelo, hfrom, hto, hlast]
  simp only [List.flatMap_cons, List.flatMap_nil, htype, hline, List.append_assoc,
    List.cons_append, List.nil_append]

/-- The variables a grey message binds, and no others. -/
def GreyMessage.vars (u : GreyMessage) (k : CStr) : Option ConfigValue :=
  if k = "to".toList then some (.str (cstr u.to_))
  else if k = "from".toList then some (.str (cstr u.from_))
  else if k = "helo".toList then some (.str (cstr u.helo))
  else if k = "ip".toList then some (.str (cstr u.ip))
  else if k = "dst_ip".toList then some (.str (cstr u.dstIp))
  else if k = "type".toList then some (.int greyMsgGrey)
  else none

theorem GreyMessage.Reads.bindLines (h : m.Reads u) :
    bindLines (fun _ => none) (typeLine :: h.lines) = u.vars := by
  funext k
  simp only [Greyd.bindLines, GreyMessage.Reads.lines, List.foldl_cons, List.foldl_nil,
    Greyd.Reads.line, typeLine, Function.update_apply, GreyMessage.vars]
  rfl

/-- The variables of the configuration are those of the grey message. -/
def GreyMessage.HeldBy (u : GreyMessage) (config : Config) : Prop :=
  ∃ section', configGetSection config configDefaultSection = some section' ∧
    ∀ k, configSectionGet section' k = u.vars k

theorem GreyMessage.heldBy {config : Config} {section' : ConfigSection}
    (h : Binds config section' u.vars) : u.HeldBy config := by
  have hkeys : ∀ k, u.vars k ≠ none →
      k ∈ ["to", "from", "helo", "ip", "dst_ip", "type"].map String.toList := by
    intro k hk
    by_contra hnot
    simp only [List.map_cons, List.map_nil, List.mem_cons, List.not_mem_nil, or_false,
      not_or] at hnot
    obtain ⟨hto, hfrom, hhelo, hip, hdst, htype⟩ := hnot
    exact hk (by rw [GreyMessage.vars, if_neg hto, if_neg hfrom, if_neg hhelo, if_neg hip,
      if_neg hdst, if_neg htype])
  exact ⟨section', h.getSection, h.get_eq hkeys (by decide)⟩

theorem GreyMessage.HeldBy.type {config : Config} (h : u.HeldBy config) (d : Int) :
    configGetInt config "type".toList none d = greyMsgGrey := by
  obtain ⟨section', hsection, hget⟩ := h
  unfold configGetInt
  rw [Option.getD_none, hsection]
  show configSectionGetInt section' "type".toList d = _
  unfold configSectionGetInt
  rw [hget]
  rfl

theorem GreyMessage.HeldBy.get {config : Config} (h : u.HeldBy config) (k : CStr) (d : Option CStr) :
    configGetStr config k none d =
      match u.vars k with
      | some (.str s) => some s
      | _ => d := by
  obtain ⟨section', hsection, hget⟩ := h
  unfold configGetStr
  rw [Option.getD_none, hsection]
  show (match configSectionGet section' k with
    | some (.str s) => some s
    | _ => d) = _
  rw [hget]

/-- The reader finds the fields of a grey message whose texts it reads as a whole, and what
follows the message stays in the pipe. -/
theorem configParserStart_of_grey (glob : CStr → List CStr) (h : m.Reads u) {parser : ConfigParser}
    {rest : List Char} (hsection : parser.section' = none)
    (hlexer : parser.lexer = ⟨m.text ++ rest, false⟩) :
    ∃ parser', configParserStart glob configCreate parser = some (true, parser') ∧
      parser'.lexer = ⟨rest, false⟩ ∧ parser'.section' = none ∧ u.HeldBy parser'.config := by
  rw [h.render] at hlexer
  obtain ⟨parser', hstart, hrest, hsection', hbinds⟩ :=
    configParserStart_of_lines glob (.inr rfl) typeLine h.lines hsection hlexer
  rw [h.bindLines] at hbinds
  exact ⟨parser', hstart, hrest, hsection', GreyMessage.heldBy hbinds⟩

theorem GreyMessage.HeldBy.messageTuple {config : Config} (h : u.HeldBy config) :
    messageTuple config = some ⟨cstr u.ip, cstr u.helo, cstr u.from_, cstr u.to_⟩ := by
  unfold Greyd.messageTuple
  rw [h.get, h.get, h.get, h.get]
  rfl

theorem GreyMessage.HeldBy.processed {config : Config} (h : u.HeldBy config) (g : Greylister)
    (f : DbFaults) (now : Int) (b : Bdb) : processMessage g f now config b ≠ none := by
  unfold processMessage
  rw [h.type]
  dsimp only
  rw [if_pos rfl, h.messageTuple]
  simp

end Lines

/-! ## Texts that the buffers of a connection hold -/

/-- The texts of a grey message, as the buffers of a connection hold them, if there is no
quote and no backslash in them. -/
structure GreyMessage.Plain (m : GreyMessage) : Prop where
  texts : ∀ s ∈ [m.helo, m.from_, m.to_], s.length < greyMaxMail
  addresses : ∀ s ∈ [m.dstIp, m.ip], s.length < inet6AddrStrlen
  clean : ∀ s ∈ [m.dstIp, m.ip, m.helo, m.from_, m.to_], '"' ∉ s ∧ '\\' ∉ s ∧ nul ∉ s

/-- The next message of the pipe is accepted, does not stop the reader, and has these texts. -/
def GreyMessage.ReadBack (m : GreyMessage) (glob : CStr → List CStr) (parser : ConfigParser) : Prop :=
  ∃ parser', configParserStart glob configCreate parser = some (true, parser') ∧
    (∀ g f now b, processMessage g f now parser'.config b ≠ none) ∧
    messageTuple parser'.config = some ⟨m.ip, m.helo, m.from_, m.to_⟩

/-- No reader gets a longer text out of a message than the lexer keeps. -/
theorem messageTuple_short {glob : CStr → List CStr} {parser parser' : ConfigParser} {gt : GreyTuple}
    (hstart : configParserStart glob configCreate parser = some (true, parser'))
    (htuple : messageTuple parser'.config = some gt) :
    gt.helo.length ≤ maxToken ∧ gt.from_.length ≤ maxToken ∧ gt.to_.length ≤ maxToken := by
  have hshort := configParserStart_short glob parser hstart
  unfold messageTuple at htuple
  simp only [Option.pure_def, Option.bind_eq_bind, Option.bind_eq_some_iff, Option.some.injEq] at htuple
  obtain ⟨_, -, helo, hhelo, from_, hfrom, to_, hto, rfl⟩ := htuple
  exact ⟨configGetStr_short hshort hhelo, configGetStr_short hshort hfrom,
    configGetStr_short hshort hto⟩

/-- The reader accepts a grey message, and finds the same texts in it, exactly when none of
them outgrows the lexer's buffer. -/
theorem grey_message_read_back_iff (glob : CStr → List CStr) (m : GreyMessage) (h : m.Plain)
    (parser : ConfigParser) (rest : List Char) (hsection : parser.section' = none)
    (hlexer : parser.lexer = ⟨m.text ++ rest, false⟩) :
    m.ReadBack glob parser ↔
      m.helo.length ≤ maxToken ∧ m.from_.length ≤ maxToken ∧ m.to_.length ≤ maxToken := by
  constructor
  · rintro ⟨parser', hstart, -, htuple⟩
    exact messageTuple_short hstart htuple
  · rintro ⟨hhelo, hfrom, hto⟩
    have hclean := h.clean
    have haddresses := h.addresses
    simp only [List.forall_mem_cons, List.not_mem_nil, false_implies, implies_true, and_true,
      inet6AddrStrlen] at hclean haddresses
    obtain ⟨⟨hdstq, hdstb, -⟩, ⟨hipq, hipb, hip⟩, ⟨hheloq, hhelob, hhelo0⟩,
      ⟨hfromq, hfromb, hfrom0⟩, htoq, htob, hto0⟩ := hclean
    have hreads : m.Reads m := ⟨.self hdstq hdstb (by rw [maxToken, lexerMaxStrLen]; omega),
      .self hipq hipb (by rw [maxToken, lexerMaxStrLen]; omega), .self hheloq hhelob hhelo,
      .self hfromq hfromb hfrom, .self htoq htob hto⟩
    obtain ⟨parser', hstart, -, -, hheld⟩ := configParserStart_of_grey glob hreads hsection hlexer
    refine ⟨parser', hstart, hheld.processed, ?_⟩
    rw [hheld.messageTuple, cstr_eq_self hip, cstr_eq_self hhelo0, cstr_eq_self hfrom0,
      cstr_eq_self hto0]

def greeting (helo : CStr) : GreyMessage :=
  ⟨"192.0.2.1".toList, "192.0.2.1".toList, helo, "a@b.example".toList, "c@d.example".toList⟩

theorem grey_message_read_back_iff_longest :
    (greeting (List.replicate 257 'a')).ReadBack (fun _ => [])
      (configParserCreate (configLexerCreate (greeting (List.replicate 257 'a')).text)) ↔
      (List.replicate 257 'a').length ≤ maxToken ∧ "a@b.example".toList.length ≤ maxToken ∧
        "c@d.example".toList.length ≤ maxToken :=
  grey_message_read_back_iff (fun _ => []) (greeting (List.replicate 257 'a'))
    ⟨by decide +kernel, by decide +kernel, by decide +kernel⟩ _ [] rfl (by rw [List.append_nil]; rfl)

/-- A client that greets, and names a sender and a recipient. -/
def heloSession (helo : CStr) : List (Int × ConAct) :=
  let line (s : CStr) : ConAct := .read (.data (s ++ "\r\n".toList))
  let ok : ConAct := .write ⟨1, 8⟩
  [(2, .write ⟨1, 48⟩), (2, line ("HELO ".toList ++ helo)), (3, .write ⟨1, 12⟩),
    (3, line "MAIL FROM:<a@b.example>".toList), (4, ok), (4, line "RCPT TO:<c@d.example>".toList)]

/-- The reader does not accept the message that a client with a long greeting causes. -/
theorem long_greeting_not_accepted :
    ∃ t before p, ConLife plainEnv (fun _ _ => True) (t :: before) p ∧
      t.emitted plainEnv = [greeting (List.replicate 300 'a')] ∧
      (greeting (List.replicate 300 'a')).Plain ∧ (configParserStart (fun _ => []) configCreate
        (configParserCreate (configLexerCreate (greeting (List.replicate 300 'a')).text))).map
          Prod.fst = some false := by
  have hstart : ConLife plainEnv (fun _ _ => True) [] plainStart := .accept trivial
  have hlife := @ConLife.play _ _ (some "192.0.2.1".toList) (heloSession (List.replicate 300 'a')) _ _
    hstart (by decide +kernel)
  exact ⟨_, _, _, hlife, by decide +kernel, ⟨by decide +kernel, by decide +kernel,
    by decide +kernel⟩, by decide +kernel⟩

end Greyd
