import Mathlib.Tactic
import Greyd.ConDialogue
import Greyd.ConfigPipe
import Greyd.GreyText

/-!
# Looking up the original destination (con.c, greyd.c)

The SMTP side asks the firewall process for the destination that a client's connection had
before it was redirected, and waits for one second. Neither the request nor the reply says to
which call it belongs. Requests are told apart here by the number of the call.
-/
namespace Greyd

/-! ## The messages -/

/-- What `Con_get_orig_dst` asks with: two texts of `getnameinfo` with NI_NUMERICHOST, and ports
in network order. -/
structure NatRequest where
  src : QuotedStr
  srcPort : BitVec 16
  proxy : QuotedStr
  proxyPort : BitVec 16

def NatRequest.text (req : NatRequest) : CStr :=
  "type=\"nat\"\nsrc=\"".toList ++ req.src.text ++ "\"\nsrc_port=".toList ++
    decimal req.srcPort.toNat ++ "\nproxy=\"".toList ++ req.proxy.text ++
    "\"\nproxy_port=".toList ++ decimal req.proxyPort.toNat ++ "\n%\n".toList

def natReplyText (dst : CStr) : CStr := "dst=\"".toList ++ dst ++ "\"\n%\n".toList

/-- What `getnameinfo` writes with NI_NUMERICHOST into a buffer for an address. -/
structure NumericHost where
  host : QuotedStr
  short : host.text.length < inet6AddrStrlen

/-- The firewall and the library: whether `getaddrinfo` takes a text as an address, and
`FW_lookup_orig_dst` with the text of what it finds, empty where there is no text for it;
`none` where it fails. -/
structure FwView where
  numeric : CStr → Bool
  origDst : CStr → Nat → CStr → Nat → Option NumericHost

/-- `Greyd_process_fw_message` on a request for a lookup: what is written as the reply. -/
def greydProcessNat (fw : FwView) (message : Config) : Option NumericHost :=
  match configGetStr message "type".toList none none with
  | none => none
  | some type =>
    if type = "nat".toList then
      let src := (configGetStr message "src".toList none (some [])).getD []
      let proxy := (configGetStr message "proxy".toList none (some [])).getD []
      let srcPort := (configGetInt message "src_port".toList none 0 % 2 ^ 16).toNat
      let proxyPort := (configGetInt message "proxy_port".toList none 0 % 2 ^ 16).toNat
      if srcPort = 0 ∨ proxyPort = 0 then none
      else if !fw.numeric src || !fw.numeric proxy then none
      else fw.origDst src srcPort proxy proxyPort
    else none

/-- The answer of the firewall process to the text of a request. -/
def natAnswer (fw : FwView) (req : NatRequest) : Option NumericHost :=
  match parseUnread (fun _ => []) req.text with
  | some (true, parser) => greydProcessNat fw parser.config
  | _ => none

/-- What `Con_get_orig_dst` stores of the replies that are in the pipe. -/
def natStored (replies : List Char) : CStr :=
  match parseUnread (fun _ => []) replies with
  | some (true, parser) =>
    sstrncpy ((configGetStr parser.config "dst".toList none (some [])).getD []) inet6AddrStrlen
  | _ => []

/-! ## Runs -/

structure NatCall where
  call : Nat
  con : Nat
  req : NatRequest

/-- The pipes between the processes, the destinations that are stored, and for the record
the last request of each connection and what has been answered. The firewall process reads
through one stream, which may hold requests that it has not processed. -/
structure NatState where
  unread : List NatCall
  buffered : List NatCall
  replies : List Char
  waiting : Option NatCall
  calls : Nat
  dstAddr : Nat → CStr
  asked : Nat → Option Nat
  answers : List (Nat × CStr)

def natInit : NatState := ⟨[], [], [], none, 0, fun _ => [], fun _ => none, []⟩

/-- What happens next. A call may come back before it asks, or fail to flush its request,
which may or may not be in the pipe then. The firewall process is woken by what is in the pipe,
takes some of it into its stream, and processes one request. The call that waits reads a reply,
or comes back without one: in time there was none, or poll failed. -/
inductive NatEvent
  | unasked (con : Nat)
  | ask (con : Nat) (req : NatRequest)
  | unflushed (con : Nat) (req : NatRequest) (written : Bool)
  | serve (taken : Nat) (fw : FwView)
  | read (taken : Nat)
  | timeout
  | pollFailed

def NatState.pending (s : NatState) : List NatCall := s.buffered ++ s.unread

def natStep (s : NatState) : NatEvent → Option NatState
  | .unasked _ => if s.waiting.isSome then none else some s
  | .ask con req =>
    if s.waiting.isSome then none
    else
      let call : NatCall := ⟨s.calls, con, req⟩
      some { s with
        unread := s.unread ++ [call]
        waiting := some call
        calls := s.calls + 1
        dstAddr := Function.update s.dstAddr con []
        asked := Function.update s.asked con (some s.calls) }
  | .unflushed con req written =>
    if s.waiting.isSome then none
    else some { s with
      unread := if written then s.unread ++ [⟨s.calls, con, req⟩] else s.unread
      calls := s.calls + 1 }
  | .serve taken fw =>
    if s.unread = [] ∨ s.unread.length < taken then none
    else
      match s.buffered ++ s.unread.take taken with
      | [] => none
      | call :: buffered =>
        let answer := natAnswer fw call.req
        some { s with
          unread := s.unread.drop taken
          buffered := buffered
          replies := s.replies ++ (answer.map fun dst => natReplyText dst.host.text).getD []
          answers := s.answers ++ (answer.map fun dst => (call.call, dst.host.text)).toList }
  | .read taken =>
    match s.waiting with
    | none => none
    | some call =>
      if s.replies = [] ∨ taken < needed (fun _ => []) s.replies ∨ s.replies.length < taken then none
      else some { s with
        replies := s.replies.drop taken
        waiting := none
        dstAddr := Function.update s.dstAddr call.con (natStored s.replies) }
  | .timeout => if s.waiting.isSome ∧ s.replies = [] then some { s with waiting := none } else none
  | .pollFailed => if s.waiting.isSome then some { s with waiting := none } else none

def natRun : List NatEvent → NatState → Option NatState
  | [], s => some s
  | e :: events, s => (natStep s e).bind (natRun events)

/-- The destination stored for a connection is empty, or what was answered to its request. -/
def NatAgreement (s : NatState) : Prop :=
  ∀ con, s.dstAddr con = [] ∨ ∃ call, s.asked con = some call ∧ (call, s.dstAddr con) ∈ s.answers

/-- A request is answered while its caller waits, or not at all; and poll does not fail with a
reply in the pipe. -/
def inTime (s : NatState) : NatEvent → Bool
  | .serve _ fw => s.pending.head?.all fun call =>
      (natAnswer fw call.req).isNone || s.waiting.map (·.call) = some call.call
  | .pollFailed => s.replies.isEmpty
  | _ => true

def promptRun : List NatEvent → NatState → Bool
  | [], _ => true
  | e :: events, s => inTime s e && (natStep s e).all (promptRun events)

/-! ## What is read of the messages -/

namespace NatRequest

theorem port_lt (p : BitVec 16) : p.toNat < 2 ^ 31 := p.isLt.trans (by decide)

def nat : QuotedStr := ⟨"nat".toList, by decide, by decide, by decide, by decide⟩

theorem isName_type : IsName "type".toList :=
  isName_of (by decide) (by decide) (by decide) (by decide)

variable (req : NatRequest)

def lines : Message where
  bindings := [
    ⟨"type".toList, isName_type, .str nat⟩,
    ⟨"src".toList, isName_of (by decide) (by decide) (by decide) (by decide), .str req.src⟩,
    ⟨"src_port".toList, isName_of (by decide) (by decide) (by decide) (by decide),
      .int req.srcPort.toNat (port_lt _)⟩,
    ⟨"proxy".toList, isName_of (by decide) (by decide) (by decide) (by decide), .str req.proxy⟩,
    ⟨"proxy_port".toList, isName_of (by decide) (by decide) (by decide) (by decide),
      .int req.proxyPort.toNat (port_lt _)⟩]
  ne_nil := by simp

theorem lines_render : req.lines.render = req.text := by
  have htype : "type=\"nat\"\nsrc=\"".toList =
      "type".toList ++ '=' :: ("\"nat\"".toList ++ '\n' :: ("src".toList ++ ['=', '"'])) := rfl
  have hsrcPort : "\"\nsrc_port=".toList = '"' :: '\n' :: ("src_port".toList ++ ['=']) := rfl
  have hproxy : "\nproxy=\"".toList = '\n' :: ("proxy".toList ++ ['=', '"']) := rfl
  have hproxyPort : "\"\nproxy_port=".toList = '"' :: '\n' :: ("proxy_port".toList ++ ['=']) := rfl
  have hend : "\n%\n".toList = '\n' :: ['%', '\n'] := rfl
  have hnat : nat.render = "\"nat\"".toList := rfl
  unfold text
  rw [htype, hsrcPort, hproxy, hproxyPort, hend, ← hnat]
  simp only [lines, Message.render, Binding.render, Field.render, List.flatMap_cons,
    List.flatMap_nil, List.append_assoc, List.cons_append, List.nil_append]
  simp only [QuotedStr.render, List.append_assoc, List.cons_append, List.nil_append]

theorem lines_lookup :
    req.lines.lookup "type".toList = some (.str "nat".toList) ∧
      req.lines.lookup "src".toList = some (.str req.src.text) ∧
      req.lines.lookup "src_port".toList = some (.int req.srcPort.toNat) ∧
      req.lines.lookup "proxy".toList = some (.str req.proxy.text) ∧
      req.lines.lookup "proxy_port".toList = some (.int req.proxyPort.toNat) :=
  ⟨rfl, rfl, rfl, rfl, rfl⟩

end NatRequest

/-- The firewall process looks up what the request asks for. -/
theorem natAnswer_eq (fw : FwView) (req : NatRequest) : natAnswer fw req =
    if req.srcPort = 0 ∨ req.proxyPort = 0 then none
    else if !fw.numeric req.src.text || !fw.numeric req.proxy.text then none
    else fw.origDst req.src.text req.srcPort.toNat req.proxy.text req.proxyPort.toNat := by
  obtain ⟨parser, section', hstart, -, -, hheld⟩ := @configParserStart_of_message (fun _ => [])
    req.lines (configParserCreate ⟨req.lines.render ++ [], false⟩) [] rfl rfl
  rw [List.append_nil, req.lines_render] at hstart
  have hparse : parseUnread (fun _ => []) req.text = some (true, parser) := hstart
  obtain ⟨htype, hsrc, hsrcPort, hproxy, hproxyPort⟩ := req.lines_lookup
  have hmod (p : BitVec 16) : ((p.toNat : Int) % 2 ^ 16).toNat = p.toNat := by
    have := p.isLt
    omega
  have hzero (p : BitVec 16) : p.toNat = 0 ↔ p = 0 := (BitVec.toNat_eq (y := 0#16)).symm
  unfold natAnswer
  rw [hparse]
  show greydProcessNat fw parser.config = _
  unfold greydProcessNat
  rw [hheld.getStr htype, hheld.getStr hsrc, hheld.getStr hproxy, hheld.getInt hsrcPort,
    hheld.getInt hproxyPort]
  dsimp only
  rw [if_pos rfl, Option.getD_some, Option.getD_some, hmod, hmod]
  simp only [hzero]

/-- The caller stores the destination that the reply holds, and takes all of it. -/
theorem natStored_reply (dst : NumericHost) :
    natStored (natReplyText dst.host.text) = dst.host.text ∧
      needed (fun _ => []) (natReplyText dst.host.text) = (natReplyText dst.host.text).length := by
  let m : Message := ⟨[⟨"dst".toList, isName_of (by decide) (by decide) (by decide) (by decide),
    .str dst.host⟩], by simp⟩
  have hrender : m.render = natReplyText dst.host.text := by
    simp [m, Message.render, Binding.render, Field.render, QuotedStr.render, natReplyText]
  obtain ⟨parser, section', hstart, hlexer, -, hheld⟩ := @configParserStart_of_message (fun _ => [])
    m (configParserCreate ⟨m.render ++ [], false⟩) [] rfl rfl
  rw [List.append_nil, hrender] at hstart
  have hparse : parseUnread (fun _ => []) (natReplyText dst.host.text) = some (true, parser) := hstart
  have hlookup : m.lookup "dst".toList = some (.str dst.host.text) := rfl
  have hdst := hheld.getStr hlookup (some [])
  rw [natStored, needed, hparse]
  constructor
  · dsimp only
    rw [hdst, Option.getD_some, sstrncpy, List.take_of_length_le (Nat.le_sub_one_of_lt dst.short)]
  · dsimp only
    rw [hlexer, List.length_nil, Nat.sub_zero]

/-! ## One step -/

/-- Calls that are not answered yet are new ones, each asked once; a reply in the pipe is for
the call that waits; and the connection of that call has asked for nothing since. -/
structure NatInv (s : NatState) : Prop where
  agreement : NatAgreement s
  fresh : ∀ c ∈ s.pending, c.call < s.calls
  answered : ∀ a ∈ s.answers, a.1 < s.calls
  distinct : (s.pending.map NatCall.call).Nodup
  unanswered : ∀ c ∈ s.pending, ∀ a ∈ s.answers, a.1 ≠ c.call
  replies : s.replies = [] ∨ ∃ call, ∃ dst : NumericHost, s.waiting = some call ∧
    s.replies = natReplyText dst.host.text ∧ (call.call, dst.host.text) ∈ s.answers
  waiting : ∀ call, s.waiting = some call → s.asked call.con = some call.call

theorem natInv_init : NatInv natInit where
  agreement _ := Or.inl rfl
  fresh _ hc := absurd hc List.not_mem_nil
  answered _ ha := absurd ha List.not_mem_nil
  distinct := List.nodup_nil
  unanswered _ hc := absurd hc List.not_mem_nil
  replies := Or.inl rfl
  waiting _ h := by simp [natInit] at h

namespace NatInv

variable {s s' : NatState}

/-- A request with a new number is written, whether or not its call waits then. -/
theorem pending_append (h : NatInv s) (c : NatCall) (hc : c.call = s.calls) :
    (∀ d ∈ s.pending ++ [c], d.call < s.calls + 1) ∧
      ((s.pending ++ [c]).map NatCall.call).Nodup ∧
      ∀ d ∈ s.pending ++ [c], ∀ a ∈ s.answers, a.1 ≠ d.call := by
  refine ⟨fun d hd => ?_, ?_, fun d hd a ha => ?_⟩
  · rcases List.mem_append.1 hd with hd | hd
    · exact Nat.lt_succ_of_lt (h.fresh d hd)
    · rw [List.mem_singleton.1 hd, hc]
      exact Nat.lt_succ_self _
  · rw [List.map_append, List.map_singleton, hc]
    refine List.Nodup.append h.distinct (List.nodup_singleton _) ?_
    intro n hn hcalls
    obtain ⟨d, hd, rfl⟩ := List.mem_map.1 hn
    exact absurd (List.mem_singleton.1 hcalls) (Nat.ne_of_lt (h.fresh d hd))
  · rcases List.mem_append.1 hd with hd | hd
    · exact h.unanswered d hd a ha
    · rw [List.mem_singleton.1 hd, hc]
      exact Nat.ne_of_lt (h.answered a ha)

/-- Without a call that waits there is no reply in the pipe. -/
theorem replies_nil (h : NatInv s) (hwaiting : s.waiting = none) : s.replies = [] := by
  rcases h.replies with hnil | ⟨call, dst, hsome, -⟩
  · exact hnil
  · rw [hwaiting] at hsome
    cases hsome

theorem ask (h : NatInv s) {con : Nat} {req : NatRequest} (hstep : natStep s (.ask con req) = some s') :
    NatInv s' := by
  rw [natStep] at hstep
  split at hstep
  · cases hstep
  · next hwait =>
    cases hstep
    have hnil := h.replies_nil (by simpa using hwait)
    obtain ⟨hfresh, hdistinct, hunanswered⟩ := h.pending_append ⟨s.calls, con, req⟩ rfl
    rw [NatState.pending, List.append_assoc] at hfresh hdistinct hunanswered
    refine ⟨fun d => ?_, hfresh, fun a ha => Nat.lt_succ_of_lt (h.answered a ha), hdistinct,
      hunanswered, Or.inl hnil, fun call hcall => ?_⟩
    · by_cases hd : d = con
      · subst hd
        exact Or.inl (Function.update_self ..)
      · simpa only [Function.update_of_ne hd] using h.agreement d
    · cases hcall
      exact Function.update_self ..

theorem unflushed (h : NatInv s) {con : Nat} {req : NatRequest} {written : Bool}
    (hstep : natStep s (.unflushed con req written) = some s') : NatInv s' := by
  rw [natStep] at hstep
  split at hstep
  · cases hstep
  · next hwait =>
    cases hstep
    have hnone : s.waiting = none := by simpa using hwait
    have hwaiting : ∀ call, s.waiting = some call → s.asked call.con = some call.call := h.waiting
    have hanswered a (ha : a ∈ s.answers) : a.1 < s.calls + 1 := Nat.lt_succ_of_lt (h.answered a ha)
    cases written with
    | true =>
      obtain ⟨hfresh, hdistinct, hunanswered⟩ := h.pending_append ⟨s.calls, con, req⟩ rfl
      rw [NatState.pending, List.append_assoc] at hfresh hdistinct hunanswered
      exact ⟨h.agreement, hfresh, hanswered, hdistinct, hunanswered, h.replies, hwaiting⟩
    | false =>
      exact ⟨h.agreement, fun c hc => Nat.lt_succ_of_lt (h.fresh c hc), hanswered, h.distinct,
        h.unanswered, h.replies, hwaiting⟩

/-- The firewall process takes the oldest request, and answers it or not. -/
theorem serve_cases {taken : Nat} {fw : FwView} (hstep : natStep s (.serve taken fw) = some s') :
    ∃ call rest, s.pending = call :: rest ∧ s'.pending = rest ∧ s'.waiting = s.waiting ∧
      s'.calls = s.calls ∧ s'.dstAddr = s.dstAddr ∧ s'.asked = s.asked ∧
      ((natAnswer fw call.req = none ∧ s'.replies = s.replies ∧ s'.answers = s.answers) ∨
        ∃ dst, natAnswer fw call.req = some dst ∧
          s'.replies = s.replies ++ natReplyText dst.host.text ∧
          s'.answers = s.answers ++ [(call.call, dst.host.text)]) := by
  rw [natStep] at hstep
  split at hstep
  · cases hstep
  split at hstep
  · cases hstep
  · next call buffered hcall =>
    cases hstep
    refine ⟨call, buffered ++ s.unread.drop taken, ?_, rfl, rfl, rfl, rfl, rfl, ?_⟩
    · rw [NatState.pending, ← List.cons_append, ← hcall, List.append_assoc, List.take_append_drop]
    · cases hanswer : natAnswer fw call.req with
      | none => exact Or.inl ⟨rfl, List.append_nil _, List.append_nil _⟩
      | some dst => exact Or.inr ⟨dst, rfl, rfl, rfl⟩

theorem serve (h : NatInv s) {taken : Nat} {fw : FwView}
    (hstep : natStep s (.serve taken fw) = some s') (htime : inTime s (.serve taken fw) = true) :
    NatInv s' := by
  obtain ⟨call, rest, hpending, hrest, hwait, hcalls, hdst, hasked, hanswer⟩ := serve_cases hstep
  have hmem {c : NatCall} (hc : c ∈ s'.pending) : c ∈ s.pending := by
    rw [hpending]
    exact List.mem_cons_of_mem _ (hrest ▸ hc)
  have hdistinct := h.distinct
  rw [hpending, List.map_cons, List.nodup_cons] at hdistinct
  have hfresh c (hc : c ∈ s'.pending) : c.call < s'.calls := hcalls ▸ h.fresh c (hmem hc)
  have hwaiting c (hc : s'.waiting = some c) : s'.asked c.con = some c.call := by
    rw [hasked]
    exact h.waiting c (hwait ▸ hc)
  rcases hanswer with ⟨-, hreplies, hanswers⟩ | ⟨dst, hanswer, hreplies, hanswers⟩
  · refine ⟨?_, hfresh, ?_, hrest ▸ hdistinct.2, ?_, ?_, hwaiting⟩
    · intro con
      rw [hdst, hasked, hanswers]
      exact h.agreement con
    · rw [hanswers, hcalls]
      exact h.answered
    · rw [hanswers]
      exact fun c hc => h.unanswered c (hmem hc)
    · rw [hreplies, hwait, hanswers]
      exact h.replies
  · have hhead : call ∈ s.pending := by rw [hpending]; exact List.mem_cons_self
    obtain ⟨waiter, hwaiter, hcall⟩ : ∃ waiter, s.waiting = some waiter ∧ waiter.call = call.call := by
      simpa [inTime, hpending, hanswer] using htime
    -- the call that waits has no reply yet, since its request was still there
    have hnil : s.replies = [] := by
      rcases h.replies with hnil | ⟨other, dst', hother, -, hin⟩
      · exact hnil
      · rw [hwaiter] at hother
        cases hother
        exact absurd hcall (h.unanswered call hhead _ hin)
    refine ⟨?_, hfresh, ?_, hrest ▸ hdistinct.2, ?_, Or.inr ⟨waiter, dst, hwait ▸ hwaiter, ?_, ?_⟩,
      hwaiting⟩
    · intro con
      rw [hdst, hasked, hanswers]
      rcases h.agreement con with hempty | ⟨n, hn, hin⟩
      · exact Or.inl hempty
      · exact Or.inr ⟨n, hn, List.mem_append_left _ hin⟩
    · intro a ha
      rw [hanswers] at ha
      rw [hcalls]
      rcases List.mem_append.1 ha with ha | ha
      · exact h.answered a ha
      · rw [List.mem_singleton.1 ha]
        exact h.fresh call hhead
    · intro c hc a ha
      rw [hanswers] at ha
      rcases List.mem_append.1 ha with ha | ha
      · exact h.unanswered c (hmem hc) a ha
      · rw [List.mem_singleton.1 ha]
        intro heq
        exact hdistinct.1 (List.mem_map.2 ⟨c, hrest ▸ hc, heq.symm⟩)
    · rw [hreplies, hnil, List.nil_append]
    · rw [hanswers, hcall]
      exact List.mem_append_right _ (List.mem_singleton.2 rfl)

theorem read (h : NatInv s) {taken : Nat} (hstep : natStep s (.read taken) = some s') : NatInv s' := by
  rw [natStep] at hstep
  split at hstep
  · cases hstep
  next call hcall =>
  split at hstep
  · cases hstep
  next hbounds =>
  cases hstep
  simp only [not_or, not_lt] at hbounds
  obtain ⟨hne, hneeded, -⟩ := hbounds
  obtain ⟨call', dst, hcall', hreplies, hin⟩ := h.replies.resolve_left hne
  rw [hcall] at hcall'
  cases hcall'
  rw [hreplies, (natStored_reply dst).2] at hneeded
  refine ⟨fun con => ?_, h.fresh, h.answered, h.distinct, h.unanswered, Or.inl ?_, by simp⟩
  · by_cases hcon : con = call.con
    · subst hcon
      refine Or.inr ⟨call.call, h.waiting call hcall, ?_⟩
      simpa only [Function.update_self, hreplies, (natStored_reply dst).1] using hin
    · simpa only [Function.update_of_ne hcon] using h.agreement con
  · show s.replies.drop taken = []
    rw [hreplies]
    exact List.drop_eq_nil_of_le hneeded

/-- The call comes back without a reply, and there is none in the pipe. -/
theorem unanswered_call (h : NatInv s) (hnil : s.replies = []) : NatInv { s with waiting := none } :=
  ⟨h.agreement, h.fresh, h.answered, h.distinct, h.unanswered, Or.inl hnil, by simp⟩

theorem step (h : NatInv s) {e : NatEvent} (hstep : natStep s e = some s') (htime : inTime s e = true) :
    NatInv s' := by
  cases e with
  | unasked con =>
    rw [natStep] at hstep
    split at hstep
    · cases hstep
    · cases hstep
      exact h
  | ask con req => exact h.ask hstep
  | unflushed con req written => exact h.unflushed hstep
  | serve taken fw => exact h.serve hstep htime
  | read taken => exact h.read hstep
  | timeout =>
    rw [natStep] at hstep
    split at hstep
    · next hwait =>
      cases hstep
      exact h.unanswered_call hwait.2
    · cases hstep
  | pollFailed =>
    rw [natStep] at hstep
    split at hstep
    · cases hstep
      exact h.unanswered_call (List.isEmpty_iff.1 htime)
    · cases hstep

end NatInv

/-! ## Whole runs -/

theorem natInv_of_run {events : List NatEvent} {s s' : NatState} (h : NatInv s)
    (hrun : natRun events s = some s') (hprompt : promptRun events s = true) : NatInv s' := by
  induction events generalizing s with
  | nil =>
    cases hrun
    exact h
  | cons e events ih =>
    obtain ⟨next, hnext, hrest⟩ := Option.bind_eq_some_iff.1 hrun
    rw [promptRun, hnext, Option.all_some, Bool.and_eq_true] at hprompt
    exact ih (h.step hnext hprompt.1) hrest hprompt.2

/-- While no request is answered after its caller has stopped waiting, and none of the replies
is left in the pipe, a connection has the destination that it asked for, or none. -/
theorem nat_agreement {events : List NatEvent} {s : NatState} (hrun : natRun events natInit = some s)
    (hprompt : promptRun events natInit = true) : NatAgreement s :=
  (natInv_of_run natInv_init hrun hprompt).agreement

section Demo

private def demoHost : QuotedStr := ⟨"192.0.2.1".toList, by decide, by decide, by decide, by decide⟩

private def demoOther : QuotedStr := ⟨"192.0.2.2".toList, by decide, by decide, by decide, by decide⟩

private def demoProxy : QuotedStr := ⟨"127.0.0.1".toList, by decide, by decide, by decide, by decide⟩

private def demoDst : NumericHost :=
  ⟨⟨"10.0.0.1".toList, by decide, by decide, by decide, by decide⟩, by decide⟩

private def demoOtherDst : NumericHost :=
  ⟨⟨"10.0.0.2".toList, by decide, by decide, by decide, by decide⟩, by decide⟩

private def demoFw : FwView :=
  ⟨fun _ => true, fun src _ _ _ => if src = demoHost.text then some demoDst else some demoOtherDst⟩

theorem nat_agreement_answered : ∃ s, natRun [.ask 0 ⟨demoHost, 4, demoProxy, 25⟩, .serve 1 demoFw,
    .read 17] natInit = some s ∧ s.dstAddr 0 = "10.0.0.1".toList ∧ NatAgreement s := by
  let events : List NatEvent := [.ask 0 ⟨demoHost, 4, demoProxy, 25⟩, .serve 1 demoFw, .read 17]
  have hread : (natRun events natInit).map (·.dstAddr 0) = some "10.0.0.1".toList := by
    decide +kernel
  obtain ⟨s, hrun, hdst⟩ := Option.map_eq_some_iff.1 hread
  exact ⟨s, hrun, hdst, nat_agreement hrun (by decide +kernel)⟩

/-- The first caller gives up, and the second one reads the answer to its request. -/
theorem nat_answered_late : ∃ s, natRun [.ask 0 ⟨demoHost, 4, demoProxy, 25⟩, .timeout,
    .ask 1 ⟨demoOther, 4, demoProxy, 25⟩, .serve 2 demoFw, .read 17] natInit = some s ∧
    s.dstAddr 1 = "10.0.0.1".toList ∧ ¬NatAgreement s := by
  let events : List NatEvent := [.ask 0 ⟨demoHost, 4, demoProxy, 25⟩, .timeout,
    .ask 1 ⟨demoOther, 4, demoProxy, 25⟩, .serve 2 demoFw, .read 17]
  have hread : (natRun events natInit).map (fun s => (s.dstAddr 1, s.asked 1, s.answers)) =
      some ("10.0.0.1".toList, some 1, [(0, "10.0.0.1".toList)]) := by
    decide +kernel
  obtain ⟨s, hrun, hs⟩ := Option.map_eq_some_iff.1 hread
  rw [Prod.mk.injEq, Prod.mk.injEq] at hs
  obtain ⟨hdst, hasked, hanswers⟩ := hs
  refine ⟨s, hrun, hdst, fun hagree => ?_⟩
  rcases hagree 1 with hempty | ⟨call, hcall, hin⟩
  · rw [hdst] at hempty
    cases hempty
  · rw [hasked] at hcall
    cases hcall
    rw [hanswers, hdst] at hin
    simp at hin

end Demo

end Greyd
