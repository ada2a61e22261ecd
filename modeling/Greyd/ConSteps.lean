import Mathlib.Tactic
import Greyd.ConDialogue
import Greyd.ReplyEnd

/-!
# What the dialogue can do

One relation names every way `Con_next_state` can end. What a step leaves alone is stated
once, as the envelope of the connection.
-/
namespace Greyd

/-- The states in which the connection waits for its output to be written, and the states
it then waits for input in. -/
inductive Awaits : ConState → ConState → Prop
  | proxy : Awaits .proxyIn .proxyOut
  | banner : Awaits .bannerOut .heloIn
  | helo : Awaits .heloOut .mailIn
  | mail : Awaits .mailOut .rcptIn
  | rcpt : Awaits .rcptOut .rcptIn
  | data : Awaits .dataOut .message

theorem Awaits.ne_proxyIn {s n : ConState} (h : Awaits s n) : n ≠ .proxyIn := by
  cases h <;> simp

theorem Awaits.of_proxyOut {s : ConState} (h : Awaits s .proxyOut) : s = .proxyIn := by
  cases h
  rfl

theorem Awaits.not_out {s n m : ConState} (h : Awaits s n) : ¬ Awaits n m := by
  cases h <;> intro h' <;> cases h'

/-- Where a command whose state is restored leads back to. -/
theorem Awaits.back {s n : ConState} (h : Awaits s n)
    (hn : n = .heloIn ∨ n = .mailIn ∨ n = .rcptIn ∨ n = .dataIn) :
    s = .bannerOut ∨ s = .heloOut ∨ s = .mailOut ∨ s = .rcptOut := by
  cases h <;> simp at hn ⊢

def Con.setSrcDst (con : Con) (src dst : CStr) : Con := { con with srcAddr := src, dstAddr := dst }

def Con.setHelo (con : Con) (helo : CStr) : Con := { con with helo := helo }

/-- The connection once the MAIL FROM command in its buffer is processed. -/
def Con.takeMail (con : Con) : Con :=
  { con with mail := normalizeEmailAddr (setLog greyMaxMail con.input) con.mail greyMaxMail }

/-- The connection once the RCPT TO command in its buffer is processed. -/
def Con.takeRcpt (con : Con) : Con :=
  { con with rcpt := normalizeEmailAddr (setLog greyMaxMail con.input) con.rcpt greyMaxMail }

def Con.setBody (con : Con) (b : Body) : Con :=
  { con with inBuf := b.buf, dataLines := b.lines, dataBody := b.inBody }

def Con.setState (con : Con) (next : ConState) : Con := { con with state := next }

/-- On the way to the final reply. -/
def Con.toReply (con : Con) : Con := { con with lastState := con.state, state := .reply }

def Con.countBad (con : Con) : Con := { con with badCmd := con.badCmd + 1 }

def Con.ready354 (con : Con) (now : Int) : Con :=
  { (((con.print "354 End data with <CR><LF>.<CR><LF>\r\n".toList).setState .dataOut).resetInput.window)
    with w := now + con.stutter }

section Fields

variable (con : Con) (text : CStr) (next : ConState) (now : Int)

@[simp] theorem Con.reply_state : (con.reply text next now).state = next := rfl
@[simp] theorem Con.reply_srcAddr : (con.reply text next now).srcAddr = con.srcAddr := rfl
@[simp] theorem Con.reply_r : (con.reply text next now).r = con.r := rfl
@[simp] theorem Con.reply_inRemaining : (con.reply text next now).inRemaining = con.inRemaining := rfl
@[simp] theorem Con.reply_dstAddr : (con.reply text next now).dstAddr = con.dstAddr := rfl
@[simp] theorem Con.takeMail_srcAddr : con.takeMail.srcAddr = con.srcAddr := rfl
@[simp] theorem Con.takeMail_dstAddr : con.takeMail.dstAddr = con.dstAddr := rfl
@[simp] theorem Con.takeMail_r : con.takeMail.r = con.r := rfl
@[simp] theorem Con.takeMail_inRemaining : con.takeMail.inRemaining = con.inRemaining := rfl
@[simp] theorem Con.takeRcpt_srcAddr : con.takeRcpt.srcAddr = con.srcAddr := rfl
@[simp] theorem Con.takeRcpt_dstAddr : con.takeRcpt.dstAddr = con.dstAddr := rfl
@[simp] theorem Con.takeRcpt_r : con.takeRcpt.r = con.r := rfl
@[simp] theorem Con.takeRcpt_inRemaining : con.takeRcpt.inRemaining = con.inRemaining := rfl
@[simp] theorem Con.takeMail_outSize : con.takeMail.outSize = con.outSize := rfl
@[simp] theorem Con.takeMail_blacklists : con.takeMail.blacklists = con.blacklists := rfl
@[simp] theorem Con.takeRcpt_outSize : con.takeRcpt.outSize = con.outSize := rfl
@[simp] theorem Con.takeRcpt_blacklists : con.takeRcpt.blacklists = con.blacklists := rfl
@[simp] theorem Con.reply_outSize : (con.reply text next now).outSize = con.outSize := rfl
@[simp] theorem Con.reply_blacklists : (con.reply text next now).blacklists = con.blacklists := rfl
@[simp] theorem Con.reply_fd : (con.reply text next now).fd = con.fd := rfl
@[simp] theorem Con.takeMail_fd : con.takeMail.fd = con.fd := rfl
@[simp] theorem Con.takeRcpt_fd : con.takeRcpt.fd = con.fd := rfl
@[simp] theorem Con.stay_fd : (con.stay now).fd = con.fd := rfl
@[simp] theorem Con.stay_blacklists : (con.stay now).blacklists = con.blacklists := rfl
@[simp] theorem Con.print_fd : (con.print text).fd = con.fd := rfl
@[simp] theorem Con.print_blacklists : (con.print text).blacklists = con.blacklists := rfl
@[simp] theorem Con.stay_r : (con.stay now).r = con.r := rfl
@[simp] theorem Con.print_r : (con.print text).r = con.r := rfl
@[simp] theorem Con.reply_helo : (con.reply text next now).helo = con.helo := rfl
@[simp] theorem Con.reply_mail : (con.reply text next now).mail = con.mail := rfl
@[simp] theorem Con.reply_rcpt : (con.reply text next now).rcpt = con.rcpt := rfl
@[simp] theorem Con.takeMail_rcpt : con.takeMail.rcpt = con.rcpt := rfl
@[simp] theorem Con.takeRcpt_helo : con.takeRcpt.helo = con.helo := rfl
@[simp] theorem Con.takeRcpt_mail : con.takeRcpt.mail = con.mail := rfl
@[simp] theorem Con.stay_mail : (con.stay now).mail = con.mail := rfl
@[simp] theorem Con.stay_rcpt : (con.stay now).rcpt = con.rcpt := rfl
@[simp] theorem Con.print_mail : (con.print text).mail = con.mail := rfl
@[simp] theorem Con.print_rcpt : (con.print text).rcpt = con.rcpt := rfl
@[simp] theorem Con.stay_state : (con.stay now).state = con.lastState := rfl
@[simp] theorem Con.stay_srcAddr : (con.stay now).srcAddr = con.srcAddr := rfl
@[simp] theorem Con.stay_dstAddr : (con.stay now).dstAddr = con.dstAddr := rfl
@[simp] theorem Con.print_srcAddr : (con.print text).srcAddr = con.srcAddr := rfl
@[simp] theorem Con.print_dstAddr : (con.print text).dstAddr = con.dstAddr := rfl
@[simp] theorem Con.print_lastState : (con.print text).lastState = con.lastState := rfl

end Fields

def GreydState.emit (state : GreydState) (m : GreyMessage) : GreydState :=
  { state with greyOut := state.greyOut ++ [m] }

/-- The connection is grey and has both a sender and a recipient. -/
def Con.Complete (con : Con) (state : GreydState) : Prop :=
  cstr con.mail ≠ [] ∧ cstr con.rcpt ≠ [] ∧ state.greylist ∧ !con.listed

instance (con : Con) (state : GreydState) : Decidable (con.Complete state) :=
  inferInstanceAs (Decidable (_ ∧ _ ∧ _ ∧ _))

/-- The states in which a command from the client is looked at after the greeting. -/
def Con.InCommand (con : Con) : Prop :=
  con.state = .heloIn ∨ con.state = .mailIn ∨ con.state = .rcptIn ∨ con.state = .dataIn

/-- Every way `Con_next_state` can end. -/
inductive NextStep (env : ConEnv) (now : Int) (nat : NatReply) (con : Con) (state : GreydState) :
    Con × GreydState → Prop
  | quit : con.hasCommand "QUIT".toList → con.state ≠ .close → NextStep env now nat con state
      (con.reply ("221 ".toList ++ state.hostname ++ "\r\n".toList) .close now, state)
  | rset : con.hasCommand "RSET".toList →
      con.state = .mailIn ∨ con.state = .mailOut ∨ con.state = .rcptIn ∨ con.state = .rcptOut →
      NextStep env now nat con state (con.reply "250 OK\r\n".toList .heloOut now, state)
  | await {next} : Awaits con.state next → NextStep env now nat con state (con.await next now, state)
  | banner : con.state = .bannerIn → NextStep env now nat con state (conStart env now con state)
  | proxied {src dst} : con.state = .proxyOut → allowProxy con state →
      parseProxyProtocolHeader env con.srcAddr con.dstAddr con.input = (.ok, src, dst) →
      NextStep env now nat con state (conStart env now (con.setSrcDst src dst) state)
  | refused {src dst} : con.state = .proxyOut →
      (src = con.srcAddr ∨ ∃ af a, src = env.inetNtop af a) →
      NextStep env now nat con state (conDone now (con.setSrcDst src dst) state)
  | noHelo {helo command} : con.state = .heloIn → NextStep env now nat con state
      ((con.setHelo helo).reply ("501 Syntax: ".toList ++ command ++ " hostname\r\n".toList)
        .bannerOut now, state)
  | helo : con.state = .heloIn → NextStep env now nat con state
      ((con.setHelo (getHelo greyMaxMail con.input)).reply
        ("250 ".toList ++ state.hostname ++ "\r\n".toList) .heloOut now, state)
  | mail : con.state = .heloIn ∨ con.state = .mailIn → con.hasCommand "MAIL".toList →
      NextStep env now nat con state (con.takeMail.reply "250 OK\r\n".toList .mailOut now, state)
  | rcpt : con.state = .heloIn ∨ con.state = .mailIn ∨ con.state = .rcptIn →
      con.hasCommand "RCPT".toList → ¬ con.takeRcpt.Complete state →
      NextStep env now nat con state (con.takeRcpt.reply "250 OK\r\n".toList .rcptOut now, state)
  | grey : con.state = .heloIn ∨ con.state = .mailIn ∨ con.state = .rcptIn →
      con.hasCommand "RCPT".toList → con.takeRcpt.Complete state →
      NextStep env now nat con state
        (conGetOrigDst (con.takeRcpt.reply "250 OK\r\n".toList .rcptOut now) state nat,
          state.emit (conGetOrigDst (con.takeRcpt.reply "250 OK\r\n".toList .rcptOut now) state
            nat).greyMessage)
  | data : con.InCommand → NextStep env now nat con state (con.ready354 now, state)
  | dataReply : con.InCommand → con.listed = false →
      NextStep env now nat con state (conDone now (con.ready354 now).toReply state)
  | stay {text : CStr} {con'} : con.InCommand → con' = con ∨ con' = con.countBad →
      text.head? = some '2' ∨ text.head? = some '5' →
      NextStep env now nat con state ((con'.print text).stay now, state)
  | badCmd : con.InCommand → NextStep env now nat con state
      (conDone now (con.print "500 Command unrecognized\r\n".toList).countBad.toReply state)
  | body {b} : con.state = .message → NextStep env now nat con state
      ({ (con.setBody b).resetInput with r := now }, state)
  | bodyEnd {b} : con.state = .message → NextStep env now nat con state
      (conDone now (con.setBody b).toReply state)
  | reply : con.state = .reply → NextStep env now nat con state (conDone now con state)
  | close : con.state = .close → NextStep env now nat con state (conClose con state)

/-- The source text is kept or printed by `inet_ntop`. -/
theorem parseProxy_src (env : ConEnv) (src dst header : CStr) :
    (parseProxyProtocolHeader env src dst header).2.1 = src ∨
      ∃ af a, (parseProxyProtocolHeader env src dst header).2.1 = env.inetNtop af a := by
  unfold parseProxyProtocolHeader
  split
  · exact .inl rfl
  · split
    · exact .inl rfl
    · split
      · dsimp only
        split
        · exact .inl rfl
        · split
          · exact .inl rfl
          · right
            split
            · exact ⟨_, _, rfl⟩
            · split
              · exact ⟨_, _, rfl⟩
              · exact ⟨_, _, rfl⟩
      · exact .inl rfl

/-- So is the destination text. -/
theorem parseProxy_dst (env : ConEnv) (src dst header : CStr) :
    (parseProxyProtocolHeader env src dst header).2.2 = dst ∨
      ∃ af a, (parseProxyProtocolHeader env src dst header).2.2 = env.inetNtop af a := by
  unfold parseProxyProtocolHeader
  split
  · exact .inl rfl
  · split
    · exact .inl rfl
    · split
      · dsimp only
        split
        · exact .inl rfl
        · split
          · exact .inl rfl
          · split
            · exact .inl rfl
            · split
              · exact .inl rfl
              · exact .inr ⟨_, _, rfl⟩
      · exact .inl rfl

section Steps

variable (env : ConEnv) (now : Int) (nat : NatReply) (con : Con) (state : GreydState)

theorem conSpam_step (h : con.InCommand) :
    NextStep env now nat con state (conSpam now con state) := by
  unfold conSpam
  split
  · next hd =>
    show NextStep env now nat con state (if state.greylist ∧ !con.listed then
      conDone now (con.ready354 now).toReply state else (con.ready354 now, state))
    split
    · next hg => exact .dataReply h (by simpa using hg.2)
    · exact .data h
  · split
    · exact .stay h (.inl rfl) (.inl rfl)
    · show NextStep env now nat con state (if (con.badCmd + 1) > conMaxBadCmd then
        conDone now (con.print "500 Command unrecognized\r\n".toList).countBad.toReply state
        else (((con.countBad).print "500 Command unrecognized\r\n".toList).stay now, state))
      split
      · exact .badCmd h
      · exact .stay h (.inr rfl) (.inr rfl)

theorem conRcpt_step (h : con.state = .heloIn ∨ con.state = .mailIn ∨ con.state = .rcptIn) :
    NextStep env now nat con state (conRcpt now nat con state) := by
  unfold conRcpt
  split
  · next hr =>
    show NextStep env now nat con state (if con.takeRcpt.Complete state then _ else _)
    split
    · next hc => exact .grey h hr hc
    · next hc => exact .rcpt h hr hc
  · apply conSpam_step
    unfold Con.InCommand
    tauto

theorem conMail_step (h : con.state = .heloIn ∨ con.state = .mailIn) :
    NextStep env now nat con state (conMail now nat con state) := by
  unfold conMail
  split
  · next hm => exact .mail h hm
  · exact conRcpt_step env now nat con state (by tauto)

theorem conHelo_step (h : con.state = .heloIn) :
    NextStep env now nat con state (conHelo now nat con state) := by
  unfold conHelo
  split
  · show NextStep env now nat con state (if getHelo greyMaxMail con.input = [] then _ else _)
    split
    · exact .noHelo h
    · exact .helo h
  · exact conMail_step env now nat con state (.inl h)

theorem conProxy_step (h : con.state = .proxyOut) :
    NextStep env now nat con state (conProxy env now con state) := by
  unfold conProxy
  split
  · next hp =>
    have hsrc := parseProxy_src env con.srcAddr con.dstAddr con.input
    cases hparse : parseProxyProtocolHeader env con.srcAddr con.dstAddr con.input with
    | mk result texts =>
      obtain ⟨src, dst⟩ := texts
      rw [hparse] at hsrc
      cases result with
      | ok => exact .proxied h hp.2 hparse
      | unknown => exact @NextStep.refused env now nat con state src dst h hsrc
      | error => exact @NextStep.refused env now nat con state src dst h hsrc
  · exact @NextStep.refused env now nat con state con.srcAddr con.dstAddr h (.inl rfl)

theorem conMessage_step (h : con.state = .message) :
    NextStep env now nat con state (conMessage now con state) := by
  unfold conMessage
  generalize bodyLoop con.inP (con.inP + 1) 0 0 ⟨con.inBuf, con.dataLines, con.dataBody⟩ = turn
  obtain ⟨b, ended⟩ := turn
  cases ended with
  | true => exact @NextStep.bodyEnd env now nat con state b h
  | false => exact @NextStep.body env now nat con state b h

/-- `Con_next_state` takes one of the steps. -/
theorem conNextState_step : NextStep env now nat con state (conNextState env now nat con state) := by
  unfold conNextState
  split
  · next hq =>
    apply NextStep.quit hq.1
    intro hc
    rw [hc] at hq
    exact absurd hq.2 (by decide)
  · split
    · next hr =>
      apply NextStep.rset hr.1
      revert hr
      cases con.state <;> simp [ConState.code]
    · split
      · next h => exact .await (h ▸ .proxy)
      · next h => exact conProxy_step env now nat con state h
      · next h => exact .banner h
      · next h => exact .await (h ▸ .banner)
      · next h => exact conHelo_step env now nat con state h
      · next h => exact .await (h ▸ .helo)
      · next h => exact conMail_step env now nat con state (.inr h)
      · next h => exact .await (h ▸ .mail)
      · next h => exact conRcpt_step env now nat con state (.inr (.inr h))
      · next h => exact .await (h ▸ .rcpt)
      · next h => exact conSpam_step env now nat con state (.inr (.inr (.inr h)))
      · next h => exact .await (h ▸ .data)
      · next h => exact conMessage_step env now nat con state h
      · next h => exact .reply h
      · next h => exact .close h

theorem conNextState_close (h : con.state = .close) :
    conNextState env now nat con state = conClose con state := by
  unfold conNextState
  rw [h, if_neg (by simp), if_neg (by simp [ConState.code])]

/-- The first step of a connection behind a proxy, whose buffer is still empty. -/
theorem conNextState_proxyIn (h : con.state = .proxyIn) (hbuf : con.inBuf = []) :
    conNextState env now nat con state = (con.await .proxyOut now, state) := by
  have hempty : con.hasCommand "QUIT".toList = false := by
    unfold Con.hasCommand Con.input
    rw [hbuf]
    decide
  unfold conNextState
  rw [if_neg fun hquit => Bool.false_ne_true (hempty.symm.trans hquit.1), h,
    if_neg (by simp [ConState.code])]

end Steps

/-! ## What every step keeps -/

theorem conDone_frame (now : Int) (con : Con) (state : GreydState) :
    ∃ buf size p remaining, conDone now con state =
      ({ con with
          outBuf := buf, outSize := size, outP := p, outRemaining := remaining
          w := now + con.stutter, lastState := con.state, state := .close }, state) := by
  obtain ⟨buf, size, p, remaining, hreply⟩ := conBuildReply_frame con state.errorCode
  unfold conDone
  rw [hreply]
  exact ⟨buf, size, p, remaining, rfl⟩

@[simp] theorem conDone_mail (now : Int) (con : Con) (state : GreydState) :
    (conDone now con state).1.mail = con.mail := by
  obtain ⟨_, _, _, _, hdone⟩ := conDone_frame now con state
  rw [hdone]

@[simp] theorem conDone_rcpt (now : Int) (con : Con) (state : GreydState) :
    (conDone now con state).1.rcpt = con.rcpt := by
  obtain ⟨_, _, _, _, hdone⟩ := conDone_frame now con state
  rw [hdone]

theorem conDone_greyOut (now : Int) (con : Con) (state : GreydState) :
    (conDone now con state).2.greyOut = state.greyOut := by
  obtain ⟨_, _, _, _, hdone⟩ := conDone_frame now con state
  rw [hdone]

theorem conGetOrigDst_frame (con : Con) (state : GreydState) (nat : NatReply) :
    ∃ dst, conGetOrigDst con state nat = { con with dstAddr := dst } := by
  unfold conGetOrigDst
  split
  · exact ⟨_, rfl⟩
  · split <;> exact ⟨_, rfl⟩

section Keeps

variable {env : ConEnv} {now : Int} {nat : NatReply} {con : Con} {state : GreydState}
  {next : Con × GreydState}

/-- A connection that waits for input has room for some. -/
def Con.HasRoom (con : Con) : Prop := con.r ≠ 0 → 0 < con.inRemaining

theorem Con.HasRoom.congr {con' : Con} (h : con.HasRoom) (hr : con'.r = con.r)
    (hremaining : con'.inRemaining = con.inRemaining) : con'.HasRoom := by
  unfold Con.HasRoom
  rw [hr, hremaining]
  exact h

theorem Con.hasRoom_reset (h : con.inRemaining = conBufSize - 1) : con.HasRoom := by
  intro _
  rw [h]
  decide

theorem conDone_hasRoom (h : con.HasRoom) : (conDone now con state).1.HasRoom := by
  obtain ⟨_, _, _, _, hdone⟩ := conDone_frame now con state
  rw [hdone]
  exact h.congr rfl rfl

theorem NextStep.hasRoom (h : NextStep env now nat con state next) (hroom : con.HasRoom) :
    next.1.HasRoom := by
  cases h with
  | await _ => exact Con.hasRoom_reset rfl
  | refused _ _ => exact conDone_hasRoom (hroom.congr rfl rfl)
  | grey _ _ _ =>
    obtain ⟨_, hnat⟩ := conGetOrigDst_frame (con.takeRcpt.reply "250 OK\r\n".toList .rcptOut now)
      state nat
    rw [hnat]
    exact hroom.congr (by simp) (by simp)
  | data _ => exact Con.hasRoom_reset rfl
  | dataReply _ _ => exact conDone_hasRoom (Con.hasRoom_reset rfl)
  | stay _ hcon _ => exact Con.hasRoom_reset rfl
  | badCmd _ => exact conDone_hasRoom (hroom.congr rfl rfl)
  | body _ => exact Con.hasRoom_reset rfl
  | bodyEnd _ => exact conDone_hasRoom (hroom.congr rfl rfl)
  | reply _ => exact conDone_hasRoom hroom
  | quit _ _ => exact hroom.congr rfl rfl
  | rset _ _ => exact hroom.congr rfl rfl
  | banner _ => exact hroom.congr rfl rfl
  | proxied _ _ _ => exact hroom.congr rfl rfl
  | noHelo _ => exact hroom.congr rfl rfl
  | helo _ => exact hroom.congr rfl rfl
  | mail _ _ => exact hroom.congr (by simp) (by simp)
  | rcpt _ _ _ => exact hroom.congr (by simp) (by simp)
  | close _ => exact hroom.congr rfl rfl

/-- The only grey message a step writes describes the envelope after a RCPT TO command. -/
theorem NextStep.emits (h : NextStep env now nat con state next) :
    next.2.greyOut = state.greyOut ∨
      ((con.state = .heloIn ∨ con.state = .mailIn ∨ con.state = .rcptIn) ∧
        con.hasCommand "RCPT".toList ∧ cstr con.mail ≠ [] ∧ next.1.state = .rcptOut ∧
        next.2.greyOut = state.greyOut ++
          [⟨next.1.dstAddr, con.srcAddr, con.helo, cstr con.mail, cstr con.takeRcpt.rcpt⟩]) := by
  cases h with
  | grey hstate hrcpt hcomplete =>
    obtain ⟨dst, hnat⟩ := conGetOrigDst_frame (con.takeRcpt.reply "250 OK\r\n".toList .rcptOut now)
      state nat
    rw [hnat]
    refine .inr ⟨hstate, hrcpt, hcomplete.1, rfl, ?_⟩
    simp [GreydState.emit, Con.greyMessage]
  | refused _ _ => exact .inl (conDone_greyOut _ _ _)
  | dataReply _ _ => exact .inl (conDone_greyOut _ _ _)
  | badCmd _ => exact .inl (conDone_greyOut _ _ _)
  | bodyEnd _ => exact .inl (conDone_greyOut _ _ _)
  | reply _ => exact .inl (conDone_greyOut _ _ _)
  | _ => exact .inl rfl

end Keeps

/-! ## A new connection -/

/-- A connection as `Con_init` fills it in before its first step. -/
def acceptedCon (env : ConEnv) (fd : Nat) (src : Sockaddr) (now stutter : Int) (state : GreydState) :
    Con :=
  { Con.zero.growOutBuf with
    fd := some fd
    src := src
    srcAddr := env.numericHost src
    rEndChars := ['\n']
    blacklists := attachedLists state src
    stutter := stutter
    state := if state.proxyProtocolEnabled then .proxyIn else .bannerIn
    s := now }

theorem conInit_eq (env : ConEnv) (fd : Nat) (src : Sockaddr) (now : Int) (nat : NatReply)
    (state : GreydState) : ∃ stutter, conInit env fd src now nat state =
      conNextState env now nat (acceptedCon env fd src now stutter state)
        { state with
          clients := state.clients + 1
          blackClients := if (attachedLists state src).isEmpty then state.blackClients
            else state.blackClients + 1 } :=
  ⟨_, rfl⟩

theorem acceptedCon_begins (env : ConEnv) (fd : Nat) (src : Sockaddr) (now stutter : Int)
    (state : GreydState) : (acceptedCon env fd src now stutter state).state ≠ .close ∧
      ¬ (acceptedCon env fd src now stutter state).InCommand := by
  unfold Con.InCommand acceptedCon
  dsimp only
  split <;> simp

end Greyd
