import Greyd.BlacklistRuns
import Greyd.MessageFraming

/-!
# Configuration messages on their way into the daemon (greyd.c, lexer_source.c)

The daemon reads each message through a stream of its own over the same pipe. What the
stream has read ahead when it is closed is lost.
-/
namespace Greyd

/-! ## Greyd_send_config, Greyd_process_config -/

def cvStr : ConfigValue → Option CStr
  | .str s => some s
  | _ => none

/-- One address of the list, as a block; `checkAddr` is `IP_check_addr`. -/
def sentAddress (checkAddr : CStr → Option SaFamily) (ip : CStr) : CStr :=
  if '/' ∈ ip then ip
  else ip ++ '/' :: decimal (if checkAddr ip = some afInet then 32 else 128)

def quoted (s : CStr) : CStr := '"' :: s ++ ['"']

/-- What `Greyd_send_config` writes. -/
def greydSendConfig (checkAddr : CStr → Option SaFamily) (blName blMsg : CStr) : List CStr → CStr
  | [] => []
  | first :: others =>
    "name=\"".toList ++ blName ++ "\"\nmessage=\"".toList ++ blMsg ++ "\"\nips=[".toList ++
      quoted (sentAddress checkAddr first) ++
      commaText (others.map fun ip => quoted (sentAddress checkAddr ip)) ++ "]\n%\n".toList

/-- What a configuration message asks for. -/
structure ListConfig where
  name : CStr
  message : CStr
  ips : List CStr
  deriving DecidableEq

def listConfig (message : Config) : Option ListConfig := do
  let blName ← configGetStr message "name".toList none none
  let blMsg ← configGetStr message "message".toList none none
  let ips ← configGetList message "ips".toList none
  pure ⟨blName, blMsg, ips.filterMap cvStr⟩

/-- A new blacklist, in place of one of the same name. -/
def ListConfig.apply (c : ListConfig) (blacklists : Hash Blacklist) : Option (Hash Blacklist) :=
  (blacklistAddAll (blacklistCreate c.name c.message .trie) c.ips).map
    (hashInsert blacklists c.name)

/-- `state->blacklists`, with all that is written to the pipe and not read from it, and with
the messages that have been applied. -/
structure ConfigPipe where
  unread : List Char
  blacklists : Hash Blacklist
  applied : List ListConfig

/-- `Config_parser_start` on a new stream. -/
def parseUnread (glob : CStr → List CStr) (unread : List Char) : Option (Bool × ConfigParser) :=
  configParserStart glob configCreate (configParserCreate (configLexerCreate unread))

/-- How many characters the parser asks the stream for. -/
def needed (glob : CStr → List CStr) (unread : List Char) : Nat :=
  match parseUnread glob unread with
  | some (_, parser) => unread.length - parser.lexer.source.length
  | none => unread.length

/-- `Greyd_process_config`, with the number of characters that its stream has taken from the
pipe when it is closed. -/
def greydProcessConfig (glob : CStr → List CStr) (taken : Nat) (pipe : ConfigPipe) :
    Option ConfigPipe :=
  match parseUnread glob pipe.unread with
  | none => none
  | some (ok, parser) =>
    match if ok then listConfig parser.config else none with
    | none => some { pipe with unread := pipe.unread.drop taken }
    | some c => (c.apply pipe.blacklists).map fun blacklists =>
        ⟨pipe.unread.drop taken, blacklists, pipe.applied ++ [c]⟩

/-- Calls of `Greyd_process_config`. For each there is the number of characters that arrive in
the pipe only after it: the stream takes what the parser needs, and behind that what is there
and fits into its buffer. -/
inductive ConfigCalls (glob : CStr → List CStr) (bufSize : Nat) :
    List Nat → ConfigPipe → ConfigPipe → Prop
  | done {pipe} : ConfigCalls glob bufSize [] pipe pipe
  | call {late lates pipe next last taken} : needed glob pipe.unread ≤ taken →
      taken < needed glob pipe.unread + bufSize → taken + late ≤ pipe.unread.length →
      greydProcessConfig glob taken pipe = some next → ConfigCalls glob bufSize lates next last →
      ConfigCalls glob bufSize (late :: lates) pipe last

/-! ## Well-formed messages -/

/-- A message with texts that can be quoted, and with addresses that a blacklist takes. -/
structure ConfigMessage where
  name : QuotedStr
  message : QuotedStr
  first : QuotedStr
  others : List QuotedStr
  accepted : ∀ ip ∈ first :: others, (ipStrToAddrMask ip.text afUnspec).ret = 0

namespace ConfigMessage

/-- The message, with the given name for its first line. -/
def lines (m : ConfigMessage) (first : CStr) (hfirst : IsName first) : Message where
  bindings := [⟨first, hfirst, .str m.name⟩,
    ⟨"message".toList, isName_of (by decide) (by decide) (by decide) (by decide), .str m.message⟩,
    ⟨"ips".toList, isName_of (by decide) (by decide) (by decide) (by decide),
      .list m.first m.others⟩]
  ne_nil := by simp

theorem isName_name : IsName "name".toList :=
  isName_of (by decide) (by decide) (by decide) (by decide)

theorem isName_ame : IsName "ame".toList :=
  isName_of (by decide) (by decide) (by decide) (by decide)

def text (m : ConfigMessage) : CStr := (m.lines "name".toList isName_name).render

/-- What is left of the message when its first character is lost. -/
def clipped (m : ConfigMessage) : CStr := (m.lines "ame".toList isName_ame).render

def config (m : ConfigMessage) : ListConfig :=
  ⟨m.name.text, m.message.text, (m.first :: m.others).map QuotedStr.text⟩

variable (m : ConfigMessage)

theorem lines_render (first : CStr) (hfirst : IsName first) :
    (m.lines first hfirst).render = first ++ '=' :: (m.name.render ++ '\n' ::
      ("message=".toList ++ (m.message.render ++ '\n' :: ("ips=[".toList ++ (m.first.render ++
        (commaText (m.others.map QuotedStr.render) ++ "]\n%\n".toList)))))) := by
  simp only [lines, Message.render, Binding.render, Field.render, List.flatMap_cons,
    List.flatMap_nil, List.append_assoc, List.cons_append, List.nil_append]
  rfl

theorem text_eq : m.text = 'n' :: m.clipped := by
  rw [text, clipped, lines_render, lines_render]
  rfl

/-- `Greyd_send_config` writes such messages. -/
theorem greydSendConfig_eq {checkAddr : CStr → Option SaFamily} {ips : List CStr}
    (hips : ips.map (sentAddress checkAddr) = (m.first :: m.others).map QuotedStr.text) :
    greydSendConfig checkAddr m.name.text m.message.text ips = m.text := by
  cases ips with
  | nil => simp at hips
  | cons ip ips =>
    rw [List.map_cons, List.map_cons, List.cons.injEq] at hips
    have hothers : ips.map (fun ip => quoted (sentAddress checkAddr ip)) =
        m.others.map QuotedStr.render := by
      have h := congrArg (List.map quoted) hips.2
      rw [List.map_map, List.map_map] at h
      exact h
    have hname : "name=\"".toList = "name".toList ++ ['=', '"'] := rfl
    have hmessage : "\"\nmessage=\"".toList = '"' :: '\n' :: ("message=".toList ++ ['"']) := rfl
    have hlist : "\"\nips=[".toList = '"' :: '\n' :: "ips=[".toList := rfl
    unfold greydSendConfig text
    dsimp only
    rw [lines_render, hothers, hips.1, hname, hmessage, hlist]
    simp only [quoted, QuotedStr.render, List.append_assoc, List.cons_append, List.nil_append]

theorem lines_lookup {first : CStr} (hfirst : IsName first) (hne : first ≠ "message".toList)
    (hne' : first ≠ "ips".toList) :
    (m.lines first hfirst).lookup "message".toList = some (.str m.message.text) ∧
      (m.lines first hfirst).lookup "ips".toList =
        some (.list ((m.first :: m.others).map fun s => .str s.text)) := by
  have hmessage : ("message".toList = "ips".toList) = False := eq_false (by decide)
  have hips : ("ips".toList = "message".toList) = False := eq_false (by decide)
  unfold lines Message.lookup
  constructor
  · simp only [List.filter_cons, List.filter_nil, hne, hips, decide_false, decide_true,
      Bool.false_eq_true, ↓reduceIte, List.getLast?_singleton, Option.map_some, Field.value]
  · simp only [List.filter_cons, List.filter_nil, hne', hmessage, decide_false, decide_true,
      Bool.false_eq_true, ↓reduceIte, List.getLast?_singleton, Option.map_some, Field.value]

theorem filterMap_cvStr (texts : List QuotedStr) :
    (texts.map fun s => ConfigValue.str s.text).filterMap cvStr = texts.map QuotedStr.text := by
  rw [List.filterMap_map]
  exact congrFun List.filterMap_eq_map texts

section Parse

variable (glob : CStr → List CStr) (rest : List Char)

/-- A stream on a well-formed message gives its configuration, and the parser does not ask for
what follows it. -/
theorem parseUnread_text :
    ∃ parser, parseUnread glob (m.text ++ rest) = some (true, parser) ∧
      parser.lexer.source = rest ∧ listConfig parser.config = some m.config := by
  obtain ⟨parser, section', hstart, hlexer, -, hheld⟩ := @configParserStart_of_message glob
    (m.lines "name".toList isName_name) (configParserCreate ⟨m.text ++ rest, false⟩) rest rfl rfl
  obtain ⟨hmessage, hips⟩ := m.lines_lookup isName_name (by decide) (by decide)
  have hname : (m.lines "name".toList isName_name).lookup "name".toList =
      some (.str m.name.text) := by
    simp [lines, Message.lookup, Field.value]
  refine ⟨parser, hstart, by rw [hlexer], ?_⟩
  unfold listConfig
  rw [hheld.getStr hname, hheld.getStr hmessage, hheld.getList hips]
  show some (ListConfig.mk _ _ _) = _
  rw [filterMap_cvStr]
  rfl

/-- Without its first character it gives none, and the parser still reads to its end. -/
theorem parseUnread_clipped :
    ∃ parser, parseUnread glob (m.clipped ++ rest) = some (true, parser) ∧
      parser.lexer.source = rest ∧ listConfig parser.config = none := by
  obtain ⟨parser, section', hstart, hlexer, -, hheld⟩ := @configParserStart_of_message glob
    (m.lines "ame".toList isName_ame) (configParserCreate ⟨m.clipped ++ rest, false⟩) rest rfl rfl
  have hname : (m.lines "ame".toList isName_ame).lookup "name".toList = none := by
    simp [lines, Message.lookup]
  refine ⟨parser, hstart, by rw [hlexer], ?_⟩
  unfold listConfig configGetStr configSectionGetStr
  rw [Option.getD_none, hheld.found]
  dsimp only
  rw [hheld.get_eq (by simp [lines, configSecInitEntries]), hname]
  rfl

end Parse

/-- A blacklist takes the addresses of a well-formed message. -/
theorem exists_apply (blacklists : Hash Blacklist) :
    ∃ blacklists', m.config.apply blacklists = some blacklists' := by
  let cidrs : List Cidr := (m.first :: m.others).attach.map fun ip => ⟨ip.1.text, m.accepted ip.1 ip.2⟩
  have hcidrs : cidrs.map Cidr.text = m.config.ips := by
    simp [cidrs, config]
  obtain ⟨t, hall, -⟩ := @addAll_trie (blacklistCreate m.config.name m.config.message .trie) rfl []
    cidrs [] (Trie.realises_create 288) (by simp [Keyed])
  rw [hcidrs] at hall
  exact ⟨_, by rw [ListConfig.apply, hall]; rfl⟩

end ConfigMessage

/-! ## Sequences of messages -/

def configTexts (msgs : List ConfigMessage) : List Char := msgs.flatMap ConfigMessage.text

/-- There is a call for each message at least, and the message has arrived at its end. -/
def Arrives : List Nat → List ConfigMessage → Prop
  | lates, [] => ∀ late ∈ lates, late = 0
  | [], _ :: _ => False
  | late :: lates, _ :: msgs => late ≤ (configTexts msgs).length ∧ Arrives lates msgs

/-- Nothing of the messages behind it has arrived at the end of a message's call. -/
def OneByOne : List Nat → List ConfigMessage → Prop
  | late :: lates, _ :: msgs => (configTexts msgs).length ≤ late ∧ OneByOne lates msgs
  | _, _ => True

/-- The configurations have been applied, each once and in order. -/
def Applied (configs : List ListConfig) (start last : ConfigPipe) : Prop :=
  last.applied = start.applied ++ configs ∧
    configs.foldlM (fun blacklists c => c.apply blacklists) start.blacklists = some last.blacklists

section Calls

variable {glob : CStr → List CStr} {bufSize : Nat} {pipe last : ConfigPipe} {lates : List Nat}

theorem needed_of_parse {text rest : List Char} {ok : Bool} {parser : ConfigParser}
    (h : parseUnread glob (text ++ rest) = some (ok, parser)) (hrest : parser.lexer.source = rest) :
    needed glob (text ++ rest) = text.length := by
  unfold needed
  rw [h]
  dsimp only
  rw [hrest, List.length_append, Nat.add_sub_cancel]

/-- A call on a whole message. -/
theorem greydProcessConfig_text {m : ConfigMessage} {rest : List Char}
    (hunread : pipe.unread = m.text ++ rest) (taken : Nat) :
    needed glob pipe.unread = m.text.length ∧
      ∃ blacklists, m.config.apply pipe.blacklists = some blacklists ∧
        greydProcessConfig glob taken pipe =
          some ⟨pipe.unread.drop taken, blacklists, pipe.applied ++ [m.config]⟩ := by
  obtain ⟨parser, hparse, hrest, hconfig⟩ := m.parseUnread_text glob rest
  obtain ⟨blacklists, happly⟩ := m.exists_apply pipe.blacklists
  refine ⟨hunread ▸ needed_of_parse hparse hrest, blacklists, happly, ?_⟩
  unfold greydProcessConfig
  rw [hunread, hparse]
  dsimp only
  rw [if_pos rfl, hconfig]
  dsimp only
  rw [happly]
  rfl

/-- A call on a message that has lost its first character. -/
theorem greydProcessConfig_clipped {m : ConfigMessage} {rest : List Char}
    (hunread : pipe.unread = m.clipped ++ rest) (taken : Nat) :
    needed glob pipe.unread = m.clipped.length ∧
      greydProcessConfig glob taken pipe = some { pipe with unread := pipe.unread.drop taken } := by
  obtain ⟨parser, hparse, hrest, hconfig⟩ := m.parseUnread_clipped glob rest
  refine ⟨hunread ▸ needed_of_parse hparse hrest, ?_⟩
  unfold greydProcessConfig
  rw [hunread, hparse]
  dsimp only
  rw [if_pos rfl, hconfig]

/-- A call that finds the end of the file. -/
theorem greydProcessConfig_nil (hunread : pipe.unread = []) (taken : Nat) :
    needed glob pipe.unread = 0 ∧ greydProcessConfig glob taken pipe = some pipe := by
  have hparse : ∃ parser, parseUnread glob [] = some (true, parser) ∧
      parser.config = ensureDefault configCreate := ⟨_, rfl, rfl⟩
  obtain ⟨parser, hparse, hempty⟩ := hparse
  have hconfig : listConfig parser.config = none := by
    rw [hempty]
    rfl
  refine ⟨by rw [hunread, needed, hparse]; simp, ?_⟩
  unfold greydProcessConfig
  rw [hunread, hparse]
  dsimp only
  rw [if_pos rfl, hconfig, List.drop_nil, ← hunread]

/-- Streams that read nothing ahead apply every message. -/
theorem exists_calls (glob : CStr → List CStr) (hbuf : 0 < bufSize) {msgs : List ConfigMessage}
    (harrives : Arrives lates msgs) (hunread : pipe.unread = configTexts msgs) :
    ∃ last, ConfigCalls glob bufSize lates pipe last ∧
      last.applied.length = pipe.applied.length + msgs.length := by
  induction msgs generalizing lates pipe with
  | nil =>
    induction lates with
    | nil => exact ⟨pipe, .done, rfl⟩
    | cons late lates ih =>
      obtain ⟨hneeded, hcall⟩ := @greydProcessConfig_nil glob pipe hunread 0
      rw [Arrives] at harrives
      have hlate := harrives late List.mem_cons_self
      obtain ⟨last, hcalls, happlied⟩ := ih (by
        rw [Arrives]
        exact fun l hl => harrives l (List.mem_cons_of_mem _ hl))
      exact ⟨last, .call hneeded.le (by omega) (by omega) hcall hcalls, happlied⟩
  | cons m msgs ih =>
    cases lates with
    | nil => exact absurd harrives id
    | cons late lates =>
      rw [configTexts, List.flatMap_cons] at hunread
      obtain ⟨hneeded, blacklists, -, hcall⟩ := @greydProcessConfig_text glob pipe m _ hunread
        m.text.length
      rw [hunread, List.drop_left] at hcall
      obtain ⟨last, hcalls, happlied⟩ := @ih
        ⟨configTexts msgs, blacklists, pipe.applied ++ [m.config]⟩ lates harrives.2 rfl
      refine ⟨last, .call hneeded.le (by omega) ?_ hcall hcalls, ?_⟩
      · rw [hunread, List.length_append]
        exact Nat.add_le_add_left harrives.1 _
      · rw [happlied, List.length_append, List.length_cons, List.length_cons]
        simp only [List.length_nil]
        omega

/-- Once something of a later message has arrived in time, a stream can read its first
character ahead, and then the message is not applied. -/
theorem exists_lossy_calls (glob : CStr → List CStr) (hbuf : 1 < bufSize)
    {msgs : List ConfigMessage} (harrives : Arrives lates msgs) (hmore : ¬ OneByOne lates msgs)
    (hunread : pipe.unread = configTexts msgs) :
    ∃ last, ConfigCalls glob bufSize lates pipe last ∧
      last.applied.length < pipe.applied.length + msgs.length := by
  induction msgs generalizing lates pipe with
  | nil => cases lates <;> exact absurd trivial hmore
  | cons m msgs ih =>
    cases lates with
    | nil => exact absurd harrives id
    | cons late lates =>
      rw [configTexts, List.flatMap_cons] at hunread
      have hlen : pipe.unread.length = m.text.length + (configTexts msgs).length := by
        rw [hunread, List.length_append]
        rfl
      by_cases hlate : (configTexts msgs).length ≤ late
      · -- nothing has arrived too early for this call
        obtain ⟨hneeded, blacklists, -, hcall⟩ := @greydProcessConfig_text glob pipe m _ hunread
          m.text.length
        rw [hunread, List.drop_left] at hcall
        obtain ⟨last, hcalls, happlied⟩ := @ih
          ⟨configTexts msgs, blacklists, pipe.applied ++ [m.config]⟩ lates harrives.2
          (fun h => hmore ⟨hlate, h⟩) rfl
        refine ⟨last, .call hneeded.le (by omega) ?_ hcall hcalls, ?_⟩
        · have := harrives.1
          omega
        · rw [List.length_append, List.length_singleton] at happlied
          rw [List.length_cons]
          omega
      · cases msgs with
        | nil => exact absurd (Nat.zero_le late) hlate
        | cons m' msgs =>
          have htexts : configTexts (m' :: msgs) = 'n' :: (m'.clipped ++ configTexts msgs) := by
            rw [configTexts, List.flatMap_cons, m'.text_eq]
            rfl
          obtain ⟨hneeded, blacklists, -, hcall⟩ := @greydProcessConfig_text glob pipe m _ hunread
            (m.text.length + 1)
          rw [hunread, show m.text ++ (m' :: msgs).flatMap ConfigMessage.text =
            m.text ++ configTexts (m' :: msgs) from rfl, htexts, List.drop_length_add_append,
            List.drop_one, List.tail_cons] at hcall
          cases lates with
          | nil => exact absurd harrives.2 id
          | cons late' lates =>
            obtain ⟨hneeded', hcall'⟩ := @greydProcessConfig_clipped glob
              ⟨m'.clipped ++ configTexts msgs, blacklists, pipe.applied ++ [m.config]⟩ m' _ rfl
              m'.clipped.length
            rw [List.drop_left] at hcall'
            obtain ⟨last, hcalls, happlied⟩ := @exists_calls bufSize
              ⟨configTexts msgs, blacklists, pipe.applied ++ [m.config]⟩ lates glob (by omega) msgs
              harrives.2.2 rfl
            refine ⟨last, @ConfigCalls.call glob bufSize late (late' :: lates) pipe _ last
              (m.text.length + 1) (by omega) (by omega) (by omega) hcall
              (.call hneeded'.le (by omega) ?_ hcall' hcalls), ?_⟩
            · rw [List.length_append]
              exact Nat.add_le_add_left harrives.2.1 _
            · rw [happlied]
              simp only [List.length_append, List.length_cons, List.length_nil]
              omega

/-- Calls behind the last message change nothing. -/
theorem ConfigCalls.idle (h : ConfigCalls glob bufSize lates pipe last) (hunread : pipe.unread = []) :
    last = pipe := by
  induction h with
  | done => rfl
  | call _ _ _ hcall _ ih =>
    rw [(greydProcessConfig_nil hunread _).2, Option.some.injEq] at hcall
    subst hcall
    exact ih hunread

/-- Calls with nothing to read ahead apply every message. -/
theorem ConfigCalls.applied {msgs : List ConfigMessage}
    (h : ConfigCalls glob bufSize lates pipe last) (harrives : Arrives lates msgs)
    (hone : OneByOne lates msgs) (hunread : pipe.unread = configTexts msgs) :
    Applied (msgs.map ConfigMessage.config) pipe last := by
  induction msgs generalizing lates pipe with
  | nil =>
    rw [h.idle hunread]
    exact ⟨by simp, rfl⟩
  | cons m msgs ih =>
    cases h with
    | done => exact absurd harrives id
    | @call late lates _ next _ taken hmin _ hmax hcall hcalls =>
      rw [configTexts, List.flatMap_cons] at hunread
      obtain ⟨hneeded, blacklists, happly, hcall'⟩ := @greydProcessConfig_text glob pipe m _ hunread
        taken
      have hlen : pipe.unread.length = m.text.length + (configTexts msgs).length := by
        rw [hunread, List.length_append]
        rfl
      have hlate := hone.1
      have htaken : taken = m.text.length := by omega
      rw [hcall', htaken, hunread, List.drop_left, Option.some.injEq] at hcall
      subst hcall
      obtain ⟨happlied, hfold⟩ := ih hcalls harrives.2 hone.2 rfl
      refine ⟨by rw [happlied]; simp, ?_⟩
      rw [List.map_cons, List.foldlM_cons, happly]
      exact hfold

end Calls

/-- Whatever the streams read ahead, every message is applied, once and in order, exactly when
at the end of each message's call nothing has arrived of the messages behind it. -/
theorem no_message_lost_iff (glob : CStr → List CStr) {bufSize : Nat} (hbuf : 1 < bufSize)
    (msgs : List ConfigMessage) (blacklists : Hash Blacklist) {lates : List Nat}
    (harrives : Arrives lates msgs) :
    ((∃ last, ConfigCalls glob bufSize lates ⟨configTexts msgs, blacklists, []⟩ last) ∧
      ∀ last, ConfigCalls glob bufSize lates ⟨configTexts msgs, blacklists, []⟩ last →
        Applied (msgs.map ConfigMessage.config) ⟨configTexts msgs, blacklists, []⟩ last) ↔
      OneByOne lates msgs := by
  constructor
  · rintro ⟨-, happlied⟩
    by_contra hmore
    obtain ⟨last, hcalls, hless⟩ := @exists_lossy_calls bufSize
      ⟨configTexts msgs, blacklists, []⟩ lates glob hbuf msgs harrives hmore rfl
    rw [(happlied last hcalls).1, List.length_append, List.length_map] at hless
    exact lt_irrefl _ hless
  · intro hone
    obtain ⟨last, hcalls, -⟩ := @exists_calls bufSize ⟨configTexts msgs, blacklists, []⟩
      lates glob (Nat.lt_of_succ_lt hbuf) msgs harrives rfl
    exact ⟨⟨last, hcalls⟩, fun last hcalls => hcalls.applied harrives hone rfl⟩

/-- A message with a list of one address. -/
def oneAddress (ip : QuotedStr) (h : (ipStrToAddrMask ip.text afUnspec).ret = 0) : ConfigMessage where
  name := ⟨"test_bl".toList, by decide, by decide, by decide, by decide⟩
  message := ⟨"you are blacklisted".toList, by decide, by decide, by decide, by decide⟩
  first := ip
  others := []
  accepted := by
    intro ip' hip'
    rw [List.mem_singleton] at hip'
    exact hip' ▸ h

def firstMessage : ConfigMessage :=
  oneAddress ⟨"10.9.9.9/12".toList, by decide, by decide, by decide, by decide⟩ (by decide +kernel)

def secondMessage : ConfigMessage :=
  oneAddress ⟨"2.2.2.2/12".toList, by decide, by decide, by decide, by decide⟩ (by decide +kernel)

/-- The second message arrives when the first one has been read. -/
theorem no_message_lost_iff_apart :
    ((∃ last, ConfigCalls (fun _ => []) 4096 [secondMessage.text.length, 0]
        ⟨configTexts [firstMessage, secondMessage], hashCreate 10, []⟩ last) ∧
      ∀ last, ConfigCalls (fun _ => []) 4096 [secondMessage.text.length, 0]
        ⟨configTexts [firstMessage, secondMessage], hashCreate 10, []⟩ last →
        Applied ([firstMessage, secondMessage].map ConfigMessage.config)
          ⟨configTexts [firstMessage, secondMessage], hashCreate 10, []⟩ last) ↔
      OneByOne [secondMessage.text.length, 0] [firstMessage, secondMessage] :=
  no_message_lost_iff (fun _ => []) (by decide) [firstMessage, secondMessage] (hashCreate 10)
    ⟨by decide +kernel, Nat.zero_le _, by simp [Arrives]⟩

/-- Both messages are there when the first one is read, and the stream takes both of them. -/
theorem queued_message_lost :
    ∃ last, ConfigCalls (fun _ => []) 4096 [0, 0]
      ⟨configTexts [firstMessage, secondMessage], hashCreate 10, []⟩ last ∧
      last.applied = [firstMessage.config] ∧ last.unread = [] := by
  obtain ⟨hneeded, blacklists, -, hcall⟩ := @greydProcessConfig_text (fun _ => [])
    ⟨configTexts [firstMessage, secondMessage], hashCreate 10, []⟩ firstMessage
    (secondMessage.text ++ []) rfl (configTexts [firstMessage, secondMessage]).length
  rw [List.drop_length] at hcall
  obtain ⟨hneeded', hcall'⟩ := @greydProcessConfig_nil (fun _ => [])
    ⟨[], blacklists, [firstMessage.config]⟩ rfl 0
  refine ⟨_, .call ?_ ?_ le_rfl hcall (.call hneeded'.le (by omega) le_rfl hcall' .done),
    rfl, rfl⟩
  · rw [hneeded]
    decide +kernel
  · rw [hneeded]
    decide +kernel

end Greyd
