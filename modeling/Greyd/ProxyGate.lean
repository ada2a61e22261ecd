import Greyd.ConRuns

/-!
# The proxy gate

With the proxy protocol enabled a connection gets past the PROXY header only where its peer
is a permitted proxy and the header is parsed, and it speaks for the header's source address
from then on.
-/
namespace Greyd

/-- The turn reads a PROXY header from a permitted proxy, with this source address. -/
def Turn.Passes (env : ConEnv) (t : Turn) (src : CStr) : Prop :=
  t.con.state = .proxyOut ∧ allowProxy t.con t.state = true ∧
    ∃ bytes dst, t.act = .read (.data bytes) ∧
      parseProxyProtocolHeader env t.con.srcAddr t.con.dstAddr (t.con.received bytes).input =
        (.ok, src, dst)

/-- Where a connection stands with respect to the gate: about to be closed, waiting for the
header, or past it. A command is only looked at where its reply leads back to such a state. -/
inductive Gate (env : ConEnv) (turns : List Turn) (con : Con) : Prop
  | closing : con.state = .close → Gate env turns con
  | waiting : con.state = .proxyOut → con.w = 0 → Gate env turns con
  | passed {g} : g ∈ turns → g.Passes env con.srcAddr → con.state ≠ .proxyIn →
      con.state ≠ .proxyOut → (con.InCommand → Awaits con.lastState con.state) →
      Gate env turns con

section Gates

variable {env : ConEnv} {now : Int} {nat : NatReply} {con : Con} {state : GreydState}
  {turns : List Turn}

theorem Gate.congr {con' : Con} (h : Gate env turns con) (hstate : con'.state = con.state)
    (hlast : con'.lastState = con.lastState) (hsrc : con'.srcAddr = con.srcAddr)
    (hw : con.state = .proxyOut → con'.w = con.w) : Gate env turns con' := by
  cases h with
  | closing hclose => exact .closing (hstate.trans hclose)
  | waiting hout hzero => exact .waiting (hstate.trans hout) ((hw hout).trans hzero)
  | passed hmem hpasses hin hout hawaits =>
    refine .passed hmem (hsrc ▸ hpasses) (hstate ▸ hin) (hstate ▸ hout) ?_
    unfold Con.InCommand
    rw [hstate, hlast]
    exact hawaits

theorem Gate.weaken {t : Turn} (h : Gate env turns con) : Gate env (t :: turns) con := by
  cases h with
  | closing hclose => exact .closing hclose
  | waiting hout hzero => exact .waiting hout hzero
  | passed hmem hpasses hin hout hawaits =>
    exact .passed (List.mem_cons_of_mem t hmem) hpasses hin hout hawaits

theorem gate_conDone (con : Con) : Gate env turns (conDone now con state).1 := by
  obtain ⟨_, _, _, _, hdone⟩ := conDone_frame now con state
  rw [hdone]
  exact .closing rfl

/-- Past the gate, a connection in a state whose output is to be written. -/
theorem Gate.passedOut {con' : Con} {g : Turn} (hmem : g ∈ turns) (hpasses : g.Passes env con.srcAddr)
    (hsrc : con'.srcAddr = con.srcAddr)
    (hstate : con'.state = .bannerOut ∨ con'.state = .heloOut ∨ con'.state = .mailOut ∨
      con'.state = .rcptOut ∨ con'.state = .dataOut ∨ con'.state = .message) :
    Gate env turns con' := by
  refine .passed hmem (hsrc ▸ hpasses) ?_ ?_ ?_
  · rintro h; rw [h] at hstate; simp at hstate
  · rintro h; rw [h] at hstate; simp at hstate
  · unfold Con.InCommand
    intro h
    rcases h with h | h | h | h <;> rw [h] at hstate <;> simp at hstate

/-- Past the gate a step stays past it. -/
theorem NextStep.gate {next : Con × GreydState} {g : Turn} (h : NextStep env now nat con state next)
    (hmem : g ∈ turns) (hpasses : g.Passes env con.srcAddr) (hin : con.state ≠ .proxyIn)
    (hout : con.state ≠ .proxyOut) (hawaits : con.InCommand → Awaits con.lastState con.state) :
    Gate env turns next.1 := by
  cases h with
  | quit _ _ => exact .closing rfl
  | rset _ _ => exact .passedOut hmem hpasses rfl (by simp [Con.reply])
  | await hwaits =>
    refine .passed hmem hpasses hwaits.ne_proxyIn ?_ fun _ => hwaits
    rintro rfl
    exact hin hwaits.of_proxyOut
  | banner _ => exact .passedOut hmem hpasses rfl (by simp [conStart, Con.reply])
  | proxied hstate _ _ => exact absurd hstate hout
  | refused hstate _ => exact absurd hstate hout
  | noHelo _ => exact .passedOut hmem hpasses rfl (by simp [Con.reply])
  | helo _ => exact .passedOut hmem hpasses rfl (by simp [Con.reply])
  | mail _ _ => exact .passedOut hmem hpasses (by simp) (by simp)
  | rcpt _ _ _ => exact .passedOut hmem hpasses (by simp) (by simp)
  | grey _ _ _ =>
    obtain ⟨_, hnat⟩ := conGetOrigDst_frame (con.takeRcpt.reply "250 OK\r\n".toList .rcptOut now)
      state nat
    rw [hnat]
    exact .passedOut hmem hpasses (by simp) (by simp)
  | data _ =>
    exact .passedOut hmem hpasses rfl (by simp [Con.ready354, Con.window, Con.resetInput, Con.setState])
  | dataReply _ _ => exact gate_conDone _
  | stay hcommand hcon _ =>
    have hback := (hawaits hcommand).back hcommand
    refine .passedOut hmem hpasses ?_ ?_
    · rcases hcon with rfl | rfl <;> simp [Con.countBad]
    · rcases hcon with rfl | rfl <;> simp [Con.countBad] <;> tauto
  | badCmd _ => exact gate_conDone _
  | body hstate => exact .passedOut hmem hpasses rfl (by simp [Con.resetInput, Con.setBody, hstate])
  | bodyEnd _ => exact gate_conDone _
  | reply _ => exact gate_conDone _
  | close hstate => exact .closing hstate

/-- Leaving the state in which the header is awaited. -/
theorem NextStep.leaves {next : Con × GreydState} (h : NextStep env now nat con state next)
    (hout : con.state = .proxyOut) :
    next.1.state = .close ∨ ∃ src dst, allowProxy con state = true ∧
      parseProxyProtocolHeader env con.srcAddr con.dstAddr con.input = (.ok, src, dst) ∧
      next = conStart env now (con.setSrcDst src dst) state := by
  have hcommand : ¬ con.InCommand := by
    unfold Con.InCommand
    rw [hout]
    simp
  cases h with
  | quit _ _ => exact .inl rfl
  | proxied _ hallow hparse => exact .inr ⟨_, _, hallow, hparse, rfl⟩
  | refused _ _ =>
    left
    obtain ⟨_, _, _, _, hdone⟩ := conDone_frame now (con.setSrcDst _ _) state
    rw [hdone]
  | await hwaits =>
    rw [hout] at hwaits
    cases hwaits
  | rset _ hstate => rw [hout] at hstate; simp at hstate
  | grey hstate _ _ => rw [hout] at hstate; simp at hstate
  | rcpt hstate _ _ => rw [hout] at hstate; simp at hstate
  | mail hstate _ => rw [hout] at hstate; simp at hstate
  | data hc => exact absurd hc hcommand
  | dataReply hc _ => exact absurd hc hcommand
  | stay hc _ _ => exact absurd hc hcommand
  | badCmd hc => exact absurd hc hcommand
  | banner hstate => rw [hout] at hstate; simp at hstate
  | noHelo hstate => rw [hout] at hstate; simp at hstate
  | helo hstate => rw [hout] at hstate; simp at hstate
  | body hstate => rw [hout] at hstate; simp at hstate
  | bodyEnd hstate => rw [hout] at hstate; simp at hstate
  | reply hstate => rw [hout] at hstate; simp at hstate
  | close hstate => rw [hout] at hstate; simp at hstate

end Gates

section Lives

variable {env : ConEnv} {turns : List Turn} {t : Turn}

/-- The step a line read leads to, for a connection on either side of the gate. -/
theorem Gate.readLine {bytes : List Char} (hact : t.act = .read (.data bytes))
    (h : Gate env turns t.con) :
    Gate env (t :: turns) (conNextState env t.now t.nat (t.con.received bytes) t.state).1 := by
  have hstep := conNextState_step env t.now t.nat (t.con.received bytes) t.state
  cases h with
  | closing hclose =>
    rw [conNextState_close _ _ _ _ _ (show (t.con.received bytes).state = .close from hclose)]
    exact .closing hclose
  | waiting hout hzero =>
    rcases hstep.leaves hout with hclose | ⟨src, dst, hallow, hparse, hnext⟩
    · exact .closing hclose
    · rw [hnext]
      have hpasses : t.Passes env src := ⟨hout, hallow, bytes, dst, hact, hparse⟩
      have hsrc : ((t.con.received bytes).setSrcDst src dst).srcAddr = src := rfl
      exact .passedOut List.mem_cons_self (hsrc.symm ▸ hpasses) rfl (.inl rfl)
  | passed hmem hpasses hin hout hawaits =>
    exact hstep.gate (List.mem_cons_of_mem t hmem) hpasses hin hout hawaits

/-- The step that follows when all output is written. -/
theorem Gate.writeDone {con : Con} {state : GreydState} (h : Gate env turns t.con)
    (hw : t.con.w ≠ 0) (hsame : t.con.SameDialogue con) :
    Gate env (t :: turns) (conNextState env t.now t.nat con state).1 := by
  have hstep := conNextState_step env t.now t.nat con state
  cases h with
  | closing hclose =>
    have hclose' := hsame.state.trans hclose
    rw [conNextState_close _ _ _ _ _ hclose']
    exact .closing hclose'
  | waiting hout hzero => exact absurd hzero hw
  | passed hmem hpasses hin hout hawaits =>
    refine hstep.gate (List.mem_cons_of_mem t hmem) (hsame.srcAddr ▸ hpasses) (hsame.state ▸ hin)
      (hsame.state ▸ hout) ?_
    unfold Con.InCommand
    rw [hsame.state, hsame.lastState]
    exact hawaits

/-- One turn. -/
theorem Gate.turn (h : Gate env turns t.con) (hroom : t.con.HasRoom)
    (henabled : t.act.Enabled t.now t.con t.state) : Gate env (t :: turns) (t.next env).1 := by
  have hstep := henabled.step env t.nat hroom
  unfold Turn.next
  generalize hact : t.act = act at hstep henabled
  generalize act.run env t.now t.nat t.con t.state = next at hstep
  cases hstep with
  | readClosed _ => exact h.weaken.congr rfl rfl rfl fun _ => rfl
  | readMore _ => exact h.weaken.congr rfl rfl rfl fun _ => rfl
  | readLine _ => exact h.readLine hact
  | writeMore hwrote _ =>
    obtain ⟨hsame, -⟩ := hwrote.same (t.now + _)
    apply h.weaken.congr hsame.state hsame.lastState hsame.srcAddr
    intro hout
    cases h with
    | closing hclose => rw [hout] at hclose; simp at hclose
    | waiting _ hzero => exact absurd hzero henabled.2.1
    | passed _ _ _ hno _ => exact absurd hout hno
  | writeDone hwrote _ => exact h.writeDone henabled.2.1 (hwrote.same 0).1
  | close => exact h.weaken.congr rfl rfl rfl fun _ => rfl

/-- A connection accepted behind a proxy waits for the header, and writes no grey message. -/
theorem conInit_proxy (fd : Nat) (src : Sockaddr) (now : Int) (nat : NatReply)
    {state : GreydState} (h : state.proxyProtocolEnabled = true) :
    (conInit env fd src now nat state).1.state = .proxyOut ∧
      (conInit env fd src now nat state).1.w = 0 ∧
      (conInit env fd src now nat state).2.greyOut = state.greyOut := by
  unfold conInit
  dsimp only
  rw [conNextState_proxyIn _ _ _ _ _ (by rw [h]; rfl) rfl]
  exact ⟨rfl, rfl, rfl⟩

/-- In every life that begins with the proxy protocol enabled the connection stands at the
gate, past it, or before its end. -/
theorem ConLife.gate {p : Con × GreydState}
    (h : ConLife env (fun state _ => state.proxyProtocolEnabled = true) turns p) :
    Gate env turns p.1 := by
  induction h with
  | accept haccepts =>
    obtain ⟨hout, hzero, -⟩ := @conInit_proxy _ _ _ _ _ _ haccepts
    exact .waiting hout hzero
  | turn hlife hcon _ _ henabled ih =>
    subst hcon
    exact ih.turn hlife.hasRoom henabled

/-- A grey message is only written past the gate. -/
theorem Gate.emitted (h : Gate env turns t.con) (hroom : t.con.HasRoom)
    (henabled : t.act.Enabled t.now t.con t.state) {m : GreyMessage} (hm : m ∈ t.emitted env) :
    ∃ g ∈ turns, g.Passes env m.ip := by
  have hstep := henabled.step env t.nat hroom
  unfold Turn.emitted Turn.next at hm
  generalize hact : t.act = act at hstep henabled hm
  generalize act.run env t.now t.nat t.con t.state = next at hstep hm
  have hnext : ∀ {con : Con} {state : GreydState}, t.con.SameDialogue con →
      state.greyOut = t.state.greyOut → NextStep env t.now t.nat con state next →
      ∃ g ∈ turns, g.Passes env m.ip := by
    intro con state hsame hgrey hstep
    rcases hstep.emits with hquiet | ⟨hstate, -, -, -, hemit⟩
    · rw [hquiet, hgrey, List.drop_length] at hm
      simp at hm
    · rw [hemit, hgrey, List.drop_left, List.mem_singleton] at hm
      rw [hm]
      show ∃ g ∈ turns, g.Passes env con.srcAddr
      rw [hsame.state] at hstate
      cases h with
      | closing hclose => rw [hclose] at hstate; simp at hstate
      | waiting hout _ => rw [hout] at hstate; simp at hstate
      | passed hmem hpasses _ _ _ => exact ⟨_, hmem, hsame.srcAddr ▸ hpasses⟩
  have hquiet : next.2.greyOut = t.state.greyOut → ∃ g ∈ turns, g.Passes env m.ip := by
    intro h
    rw [h, List.drop_length] at hm
    simp at hm
  cases hstep with
  | readClosed _ => exact hquiet rfl
  | readMore _ => exact hquiet rfl
  | readLine _ =>
    exact hnext (.received t.con _) rfl (conNextState_step _ _ _ _ _)
  | writeMore hwrote _ => exact hquiet (hwrote.same 0).2
  | writeDone hwrote _ =>
    obtain ⟨hsame, hgrey⟩ := hwrote.same 0
    exact hnext hsame hgrey (conNextState_step _ _ _ _ _)
  | close => exact hquiet rfl

/-- A turn that takes a connection away from the gate. -/
theorem Gate.leaves (h : Gate env turns t.con) (hroom : t.con.HasRoom)
    (henabled : t.act.Enabled t.now t.con t.state) (hout : t.con.state = .proxyOut)
    (hleft : (t.next env).1.state ≠ .proxyOut) :
    (t.next env).1.state = .close ∨ ∃ src, t.Passes env src := by
  have hw : t.con.w = 0 := by
    cases h with
    | closing hclose => rw [hout] at hclose; simp at hclose
    | waiting _ hzero => exact hzero
    | passed _ _ _ hno _ => exact absurd hout hno
  have hstep := henabled.step env t.nat hroom
  unfold Turn.next at hleft ⊢
  generalize hact : t.act = act at hstep henabled hleft ⊢
  generalize act.run env t.now t.nat t.con t.state = next at hstep hleft ⊢
  cases hstep with
  | readClosed _ => exact absurd hout hleft
  | readMore _ => exact absurd hout hleft
  | readLine _ =>
    rcases (conNextState_step env t.now t.nat (t.con.received _) t.state).leaves hout with
      hclose | ⟨src, dst, hallow, hparse, -⟩
    · exact .inl hclose
    · exact .inr ⟨src, hout, hallow, _, dst, hact, hparse⟩
  | writeMore _ _ => exact absurd hw henabled.2.1
  | writeDone _ _ => exact absurd hw henabled.2.1
  | close => exact absurd hout hleft

/-- With the proxy protocol enabled a connection begins in front of the gate without a grey
message. A turn that takes it out of the state in which the header is awaited either has it
closed after a final reply or has read the header of a permitted proxy, and every grey
message written in a turn has the source address of a header read in an earlier one. -/
theorem proxy_gate {p : Con × GreydState}
    (hlife : ConLife env (fun state _ => state.proxyProtocolEnabled = true) (t :: turns) p) :
    (t.con.state = .proxyOut → p.1.state ≠ .proxyOut →
      p.1.state = .close ∨ ∃ src, t.Passes env src) ∧
    (∀ m ∈ t.emitted env, ∃ g ∈ turns, g.Passes env m.ip) ∧
    ∀ fd src now nat state, state.proxyProtocolEnabled = true →
      (conInit env fd src now nat state).1.state = .proxyOut ∧
        (conInit env fd src now nat state).2.greyOut = state.greyOut := by
  cases hlife with
  | turn hbefore hcon _ _ henabled =>
    subst hcon
    have hgate := hbefore.gate
    have hroom := hbefore.hasRoom
    refine ⟨hgate.leaves hroom henabled, fun m hm => hgate.emitted hroom henabled hm, ?_⟩
    intro fd src now nat state hproxy
    obtain ⟨hout, -, hgrey⟩ := @conInit_proxy env fd src now nat state hproxy
    exact ⟨hout, hgrey⟩

/-- A permitted proxy, 10.0.0.1, and a header for 192.0.2.1. -/
def headerEnv : ConEnv := ⟨fun _ => "10.0.0.1".toList, fun _ _ => "192.0.2.1".toList, fun _ => []⟩

def headerPeer : Sockaddr := ⟨afInet, .ofSAddr 0x0100000a, 4711⟩

def headerStart : GreydState :=
  .start configCreate 800 700 true
    { blacklistCreate [] [] .list with entries := [⟨headerPeer.addr, .ofSAddr 0xffffffff, 0, 0⟩] }

def headerTurn : Turn where
  con := (conInit headerEnv 5 headerPeer 1 none headerStart).1
  state := (conInit headerEnv 5 headerPeer 1 none headerStart).2
  now := 2
  nat := none
  act := .read (.data "PROXY TCP4 192.0.2.1 198.51.100.7 4711 25\r\n".toList)

/-- The header of a permitted proxy is let through. -/
theorem proxy_gate_header : ∃ src, headerTurn.Passes headerEnv src := by
  have haccept : ConLife headerEnv (fun state _ => state.proxyProtocolEnabled = true) []
      (conInit headerEnv 5 headerPeer 1 none headerStart) := .accept rfl
  have hlife : ConLife headerEnv (fun state _ => state.proxyProtocolEnabled = true) [headerTurn]
      (headerTurn.next headerEnv) :=
    .turn haccept rfl rfl rfl (by decide)
  have hleft : (headerTurn.next headerEnv).1.state = .bannerOut := by decide +kernel
  rcases (proxy_gate hlife).1 rfl (by rw [hleft]; decide) with hclose | hpasses
  · rw [hleft] at hclose
    exact absurd hclose (by decide)
  · exact hpasses

end Lives

end Greyd
