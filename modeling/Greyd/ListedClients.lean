import Greyd.ConfigPipe
import Greyd.Dialogue
import Greyd.ProxyGate

/-!
# Blacklisted clients

The blacklists are looked up once, for the peer that connects. Behind a proxy the address a
grey message names is that of the PROXY header, which is not looked up.
-/
namespace Greyd

/-- `Blacklist_match` on one of the blacklists is 1 for the address the text names. -/
def BlacklistedIn (blacklists : Hash Blacklist) (ip : CStr) : Prop :=
  ∃ name ∈ hashKeys blacklists, ∃ blacklist, hashGet blacklists name = some blacklist ∧
    ∃ af addr, inetPton af ip = some addr ∧ blacklistMatch blacklist addr af = true

/-- What `getnameinfo` prints for a peer names no other address. -/
def ConEnv.Numeric (env : ConEnv) (src : Sockaddr) : Prop :=
  ∀ af addr, inetPton af (env.numericHost src) = some addr → af = src.family ∧ addr = src.addr

/-- No list is attached to a peer that none of the blacklists matches. -/
theorem not_blacklistedIn {env : ConEnv} {src : Sockaddr} (hnumeric : env.Numeric src)
    {state : GreydState} (h : attachedLists state src = []) :
    ¬ BlacklistedIn state.blacklists (env.numericHost src) := by
  rintro ⟨name, hname, blacklist, hget, af, addr, haddr, hmatch⟩
  obtain ⟨rfl, rfl⟩ := hnumeric af addr haddr
  have hnone := List.filterMap_eq_nil_iff.mp h name hname
  rw [hget, Option.bind_some, if_pos hmatch] at hnone
  cases hnone

section Steps

variable {env : ConEnv} {now : Int} {nat : NatReply} {con : Con} {state : GreydState}
  {next : Con × GreydState}

/-- A connection that has not been closed still speaks for the peer, with the peer's lists. -/
def Con.Direct (src : CStr) (lists : List Blacklist) (con : Con) : Prop :=
  con.fd = none ∨ con.state = .close ∨ (con.srcAddr = src ∧ con.blacklists = lists)

/-- Only a PROXY header changes the address. -/
theorem NextStep.sameSource (h : NextStep env now nat con state next) (hno : con.state ≠ .proxyOut) :
    next.1.state = .close ∨ next.1.srcAddr = con.srcAddr := by
  cases h with
  | quit _ _ => exact .inl rfl
  | proxied hstate _ _ => exact absurd hstate hno
  | refused hstate _ => exact absurd hstate hno
  | mail _ _ => exact .inr (by simp)
  | rcpt _ _ _ => exact .inr (by simp)
  | grey _ _ _ =>
    obtain ⟨_, hnat⟩ := conGetOrigDst_frame (con.takeRcpt.reply "250 OK\r\n".toList .rcptOut now)
      state nat
    rw [hnat]
    exact .inr (by simp)
  | stay _ hcon _ => rcases hcon with rfl | rfl <;> exact .inr (by simp [Con.countBad])
  | dataReply _ _ => exact .inl rfl
  | badCmd _ => exact .inl rfl
  | bodyEnd _ => exact .inl rfl
  | reply _ => exact .inl rfl
  | rset _ _ => exact .inr rfl
  | await _ => exact .inr rfl
  | banner _ => exact .inr rfl
  | noHelo _ => exact .inr rfl
  | helo _ => exact .inr rfl
  | data _ => exact .inr rfl
  | body _ => exact .inr rfl
  | close _ => exact .inr rfl

theorem conNextState_direct {src : CStr} {lists : List Blacklist} (h : con.Direct src lists)
    (hno : con.state ≠ .proxyOut) : (conNextState env now nat con state).1.Direct src lists := by
  by_cases hopen : con.state = .close
  · rw [conNextState_close env now nat con state hopen]
    exact .inl rfl
  · have hstep := conNextState_step env now nat con state
    have hstays := hstep.staysOpen hopen
    rcases h with hfd | hclose | ⟨hsrc, hlists⟩
    · exact .inl (hstays.fd.trans hfd)
    · exact absurd hclose hopen
    · rcases hstep.sameSource hno with hclose | hsame
      · exact .inr (.inl hclose)
      · exact .inr (.inr ⟨hsame.trans hsrc, hstays.blacklists.trans hlists⟩)

/-- A connection with a list attached has no grey message written. -/
theorem NextStep.emits_unlisted (h : NextStep env now nat con state next)
    (hemits : next.2.greyOut ≠ state.greyOut) : con.listed = false := by
  cases h with
  | grey _ _ hcomplete =>
    have hlisted : (!con.listed) = true := hcomplete.2.2.2
    simpa using hlisted
  | _ => exact absurd rfl hemits

end Steps

section Lives

variable {env : ConEnv} {accepts : GreydState → Sockaddr → Prop} {turns : List Turn} {t : Turn}
  {p : Con × GreydState}

theorem ConLife.mono {accepts' : GreydState → Sockaddr → Prop} (h : ConLife env accepts turns p)
    (himp : ∀ state src, accepts state src → accepts' state src) : ConLife env accepts' turns p := by
  induction h with
  | accept haccepts => exact .accept (himp _ _ haccepts)
  | turn _ hcon hproxy hconfig henabled ih => exact .turn ih hcon hproxy hconfig henabled

/-- The proxy protocol is enabled or not when the connection is accepted. -/
theorem ConLife.proxy_or_not (h : ConLife env accepts turns p) :
    ConLife env (fun state src => accepts state src ∧ state.proxyProtocolEnabled = true) turns p ∨
      ConLife env (fun state src => accepts state src ∧ state.proxyProtocolEnabled = false)
        turns p := by
  induction h with
  | @accept _ _ _ _ state haccepts =>
    cases hproxy : state.proxyProtocolEnabled with
    | true => exact .inl (.accept ⟨haccepts, hproxy⟩)
    | false => exact .inr (.accept ⟨haccepts, hproxy⟩)
  | turn _ hcon hproxy hconfig henabled ih =>
    exact ih.imp (fun h => .turn h hcon hproxy hconfig henabled)
      fun h => .turn h hcon hproxy hconfig henabled

theorem Con.Counted.ne_proxyOut {con : Con} (h : con.Counted turns) : con.state ≠ .proxyOut := by
  intro hstate
  have hcode := h.inDialogue
  rw [hstate] at hcode
  exact absurd hcode (by decide)

theorem Con.Direct.turn {src : CStr} {lists : List Blacklist} (h : t.con.Direct src lists)
    (hcounted : t.con.Counted turns) (hcourse : t.Course env p) : p.1.Direct src lists := by
  cases hcourse with
  | @line bytes _ _ =>
    have hstate : (t.con.received bytes).state ≠ .proxyOut := hcounted.ne_proxyOut
    exact conNextState_direct h hstate
  | @written con state _ _ hsame _ hbuffer =>
    apply conNextState_direct
    · rcases hbuffer with hfd | ⟨hfd, -, hlists⟩
      · exact .inl hfd
      · exact h.imp hfd.trans fun h => h.imp hsame.state.trans fun ⟨hsrc, hl⟩ =>
          ⟨hsame.srcAddr.trans hsrc, hlists.trans hl⟩
    · rw [hsame.state]
      exact hcounted.ne_proxyOut
  | quiet _ hsame _ hbuffer _ =>
    rcases hbuffer with hfd | ⟨hfd, -, hlists⟩
    · exact .inl hfd
    · exact h.imp hfd.trans fun h => h.imp hsame.state.trans fun ⟨hsrc, hl⟩ =>
        ⟨hsame.srcAddr.trans hsrc, hlists.trans hl⟩

theorem conInit_direct (fd : Nat) (src : Sockaddr) (now : Int) (nat : NatReply)
    {state : GreydState} (hproxy : state.proxyProtocolEnabled = false) :
    (conInit env fd src now nat state).1.Direct (env.numericHost src) (attachedLists state src) := by
  unfold conInit
  dsimp only
  apply conNextState_direct
  · exact .inr (.inr ⟨rfl, rfl⟩)
  · rw [hproxy]
    simp

/-- Without the proxy protocol. -/
theorem ConLife.direct
    (h : ConLife env (fun state src => accepts state src ∧ state.proxyProtocolEnabled = false)
      turns p) :
    ∃ state src, accepts state src ∧ p.1.Direct (env.numericHost src) (attachedLists state src) := by
  induction h with
  | accept haccepts => exact ⟨_, _, haccepts.1, conInit_direct _ _ _ _ haccepts.2⟩
  | turn hlife hcon _ _ henabled ih =>
    subst hcon
    obtain ⟨state, src, haccepts, hdirect⟩ := ih
    have hcounted := (hlife.mono fun _ _ h => h.2).counted
    exact ⟨state, src, haccepts,
      hdirect.turn hcounted (@Turn.course env _ henabled hlife.hasRoom)⟩

/-- A turn that writes a grey message finds no list attached. -/
theorem Turn.emits_unlisted (henabled : t.act.Enabled t.now t.con t.state) (hroom : t.con.HasRoom)
    (halt : t.con.Alternates) {m : GreyMessage} (hm : m ∈ t.emitted env) :
    t.con.listed = false ∧ t.con.state ≠ .close ∧ m.ip = t.con.srcAddr := by
  obtain ⟨bytes, hrcpt, -, -, rfl⟩ := Turn.emitted_line halt hroom henabled hm
  obtain ⟨con, hline, hcon⟩ := Option.bind_eq_some_iff.mp hrcpt
  obtain ⟨⟨bytes', hreceived⟩, hnext⟩ := @Turn.next_of_line env _ _ hline henabled hroom
  rw [Option.ite_none_right_eq_some] at hcon
  have hstate := hcon.1.1
  subst hreceived
  refine ⟨?_, ?_, rfl⟩
  · have hstep := conNextState_step env t.now t.nat (t.con.received bytes') t.state
    refine hstep.emits_unlisted fun hquiet => ?_
    unfold Turn.emitted at hm
    rw [hnext, hquiet, List.drop_length] at hm
    simp at hm
  · intro hclose
    have hclose' : (t.con.received bytes').state = .close := hclose
    rw [hclose'] at hstate
    simp at hstate

/-- A grey message never names an address that a blacklist installed at the acceptance
matches, as long as no PROXY header that is let through names one. -/
theorem blacklisted_not_greylisted {blacklists : Hash Blacklist}
    (hlife : ConLife env (fun state src => state.blacklists = blacklists ∧ env.Numeric src)
      (t :: turns) p)
    (hheaders : ∀ g ∈ turns, ∀ src, g.Passes env src → ¬ BlacklistedIn blacklists src) :
    ∀ m ∈ t.emitted env, ¬ BlacklistedIn blacklists m.ip := by
  intro m hm
  rcases hlife.proxy_or_not with hproxy | hdirect
  · cases hproxy with
    | turn hbefore hcon _ _ henabled =>
      subst hcon
      obtain ⟨g, hg, hpasses⟩ :=
        (hbefore.mono fun _ _ h => h.2).gate.emitted hbefore.hasRoom henabled hm
      exact hheaders g hg m.ip hpasses
  · cases hdirect with
    | turn hbefore hcon _ _ henabled =>
      subst hcon
      obtain ⟨hlisted, hopen, hip⟩ :=
        Turn.emits_unlisted henabled hbefore.hasRoom hbefore.carries.alternates hm
      obtain ⟨state, src, ⟨rfl, hnumeric⟩, hfrom⟩ := hbefore.direct
      rcases hfrom with hfd | hclose | ⟨hsrc, hlists⟩
      · exact absurd hfd henabled.1
      · exact absurd hclose hopen
      · rw [hip, hsrc]
        apply not_blacklistedIn hnumeric
        unfold Con.listed at hlisted
        rw [hlists] at hlisted
        simpa using hlisted

end Lives

/-! ## A client that is listed -/

/-- The blacklists of the daemon once it has been sent one with an address. -/
def listedBlacklists (ip : CStr) : Hash Blacklist :=
  ((ListConfig.mk "bl".toList "listed".toList [ip]).apply (hashCreate numBlacklists)).getD
    (hashCreate numBlacklists)

/-- Another address is listed. -/
def unlistedStart : GreydState :=
  { GreydState.start configCreate 5 5 false (blacklistCreate [] [] .list) with
    blacklists := listedBlacklists "192.0.2.9/32".toList }

def unlistedTurns : List Turn :=
  (playTurns plainEnv none (twoRecipients "<c@d>".toList "<e@f.example>".toList) []
    (conInit plainEnv 5 ⟨afInet, .ofSAddr 0x010200c0, 4711⟩ 1 none unlistedStart)).1

theorem numeric_of_v4 {env : ConEnv} {src : Sockaddr} (hfamily : src.family = afInet)
    (haddr : inetPton afInet (env.numericHost src) = some src.addr)
    (hno : inetPton afInet6 (env.numericHost src) = none) : env.Numeric src := by
  intro af addr hread
  by_cases hinet : af = afInet
  · subst hinet
    rw [haddr, Option.some.injEq] at hread
    exact ⟨hfamily.symm, hread.symm⟩
  · by_cases hinet6 : af = afInet6
    · subst hinet6
      rw [hno] at hread
      cases hread
    · unfold inetPton at hread
      rw [if_neg hinet, if_neg hinet6] at hread
      cases hread

theorem blacklisted_not_greylisted_other :
    ∃ t before m, unlistedTurns = t :: before ∧ m ∈ t.emitted plainEnv ∧
      ¬ BlacklistedIn (listedBlacklists "192.0.2.9/32".toList) m.ip := by
  have hne : unlistedTurns ≠ [] := by decide +kernel
  have hstart : ConLife plainEnv (fun state src =>
      state.blacklists = listedBlacklists "192.0.2.9/32".toList ∧ plainEnv.Numeric src) [] _ :=
    @ConLife.accept plainEnv _ 5 ⟨afInet, .ofSAddr 0x010200c0, 4711⟩ 1 none unlistedStart
      ⟨rfl, numeric_of_v4 rfl (by decide +kernel) (by decide +kernel)⟩
  have hlife := @ConLife.play _ _ none (twoRecipients "<c@d>".toList "<e@f.example>".toList) _ _
    hstart (by decide +kernel)
  have hturns : unlistedTurns = unlistedTurns.head hne :: unlistedTurns.tail :=
    (List.cons_head_tail hne).symm
  rw [show (playTurns _ _ _ _ _).1 = _ from hturns] at hlife
  obtain ⟨m, hm⟩ := List.exists_mem_of_ne_nil _
    (show (unlistedTurns.head (by decide +kernel)).emitted plainEnv ≠ [] by decide +kernel)
  refine ⟨_, _, m, hturns, hm, blacklisted_not_greylisted hlife ?_ m hm⟩
  have hdirect : ∀ g ∈ unlistedTurns.tail, g.con.state ≠ .proxyOut := by decide +kernel
  exact fun g hg src hpasses => absurd hpasses.1 (hdirect g hg)

/-- A header for a listed client, and a recipient. -/
def headerSession : List (Int × ConAct) :=
  let line (s : CStr) : ConAct := .read (.data (s ++ "\r\n".toList))
  [(2, line "PROXY TCP4 192.0.2.1 198.51.100.7 4711 25".toList), (3, .write ⟨1, 48⟩),
    (3, line "MAIL FROM:<a@b.example>".toList), (4, .write ⟨1, 8⟩),
    (4, line "RCPT TO:<c@d.example>".toList)]

def proxiedStart : GreydState :=
  { headerStart with maxCons := 5, blacklists := listedBlacklists "192.0.2.1/32".toList }

def proxiedTurns : List Turn :=
  (playTurns headerEnv none headerSession [] (conInit headerEnv 5 headerPeer 1 none proxiedStart)).1

/-- Behind a proxy a grey message is written for a client that is listed. -/
theorem greylisted_behind_proxy :
    ∃ t before p, ConLife headerEnv (fun state src =>
        state.blacklists = listedBlacklists "192.0.2.1/32".toList ∧ headerEnv.Numeric src)
        (t :: before) p ∧
      ∃ m ∈ t.emitted headerEnv, BlacklistedIn (listedBlacklists "192.0.2.1/32".toList) m.ip := by
  have hne : proxiedTurns ≠ [] := by decide +kernel
  have hstart : ConLife headerEnv (fun state src =>
      state.blacklists = listedBlacklists "192.0.2.1/32".toList ∧ headerEnv.Numeric src) [] _ :=
    @ConLife.accept headerEnv _ 5 headerPeer 1 none proxiedStart
      ⟨rfl, numeric_of_v4 rfl (by decide +kernel) (by decide +kernel)⟩
  have hlife := @ConLife.play _ _ none headerSession _ _ hstart (by decide +kernel)
  have hturns : proxiedTurns = proxiedTurns.head hne :: proxiedTurns.tail :=
    (List.cons_head_tail hne).symm
  rw [show (playTurns _ _ _ _ _).1 = _ from hturns] at hlife
  have hips : ((proxiedTurns.head (by decide +kernel)).emitted headerEnv).map GreyMessage.ip =
      ["192.0.2.1".toList] := by decide +kernel
  obtain ⟨m, hm, hip⟩ := List.mem_map.mp (hips ▸ List.mem_singleton_self "192.0.2.1".toList)
  refine ⟨_, _, _, hlife, m, hm, ?_⟩
  rw [hip]
  have hget : (hashGet (listedBlacklists "192.0.2.1/32".toList) "bl".toList).any (fun blacklist =>
      blacklistMatch blacklist (.ofSAddr 0x010200c0) afInet) = true := by decide +kernel
  obtain ⟨blacklist, hblacklist, hmatch⟩ := (Option.any_eq_true _ _).mp hget
  exact ⟨"bl".toList, by decide +kernel, blacklist, hblacklist, afInet, .ofSAddr 0x010200c0,
    by decide +kernel, hmatch⟩

end Greyd
