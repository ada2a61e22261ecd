import Greyd.GreyText

/-!
# What a greeting can change in a grey message

The greeting is the only text of a grey message that a client chooses freely: the sender and
the recipient lose their quotes and backslashes, and the addresses are printed by the library
or by the firewall process.
-/
namespace Greyd

/-! ## Senders and recipients -/

/-- No buffer of a mail address ever has a quote or a backslash. -/
theorem not_mem_mailBuffer {d : Char} (hd : d.val.toNat < 97) (hpunct : isMailPunct d = true)
    (hnul : d ≠ nul) (args : List CStr) : d ∉ mailBuffer args := by
  induction args with
  | nil =>
    intro hmem
    exact hnul (List.eq_of_mem_replicate hmem)
  | cons arg args ih =>
    intro hmem
    unfold mailBuffer normalizeEmailAddr at hmem
    rw [mailChars_eq] at hmem
    rcases List.mem_or_eq_of_mem_set hmem with hold | hlast
    · rcases List.mem_append.mp hold with hnew | hrest
      · exact not_mem_normalForm hd (.inl hpunct) hnew
      · exact ih (List.drop_subset _ _ hrest)
    · exact hnul hlast

/-- A sender or a recipient that the lexer does not cut off is read as it is. -/
theorem reads_mailBuffer {args : List CStr} (hlen : (cstr (mailBuffer args)).length ≤ maxToken) :
    Reads (cstr (mailBuffer args)) (cstr (mailBuffer args)) := by
  refine .self (fun h => ?_) (fun h => ?_) hlen
  · exact not_mem_mailBuffer (by decide) (by decide) (by decide) args (List.takeWhile_subset _ h)
  · exact not_mem_mailBuffer (by decide) (by decide) (by decide) args (List.takeWhile_subset _ h)

/-! ## Addresses -/

/-- Text as it is printed for an address. -/
structure Quotable (s : CStr) : Prop where
  noQuote : '"' ∉ s
  noBackslash : '\\' ∉ s
  short : s.length < inet6AddrStrlen

theorem Quotable.reads {s : CStr} (h : Quotable s) : Reads s s := by
  have hshort := h.short
  rw [inet6AddrStrlen] at hshort
  exact .self h.noQuote h.noBackslash (by rw [maxToken, lexerMaxStrLen]; omega)

theorem Quotable.nil : Quotable [] := ⟨by simp, by simp, by decide⟩

/-- What the library prints for addresses. -/
structure ConEnv.PrintsQuotable (env : ConEnv) : Prop where
  numericHost : ∀ src, Quotable (env.numericHost src)
  inetNtop : ∀ af a, Quotable (env.inetNtop af a)

/-- What the firewall process answers, up to its length. -/
def NatReply.Printed (nat : NatReply) : Prop := ∀ dst ∈ nat, '"' ∉ dst ∧ '\\' ∉ dst

instance (nat : NatReply) : Decidable nat.Printed :=
  inferInstanceAs (Decidable (∀ dst ∈ nat, _))

/-- Unless it is about to be closed, a connection has printed addresses. -/
def Con.Addressed (con : Con) : Prop :=
  con.state = .close ∨ Quotable con.srcAddr ∧ Quotable con.dstAddr

section Addresses

variable {env : ConEnv} {now : Int} {nat : NatReply} {con con' : Con} {state : GreydState}

theorem Con.Addressed.congr (h : con.Addressed) (hstate : con'.state = con.state)
    (hsrc : con'.srcAddr = con.srcAddr) (hdst : con'.dstAddr = con.dstAddr) : con'.Addressed := by
  unfold Con.Addressed
  rw [hstate, hsrc, hdst]
  exact h

theorem addressed_conDone (con : Con) : (conDone now con state).1.Addressed := by
  obtain ⟨_, _, _, _, hdone⟩ := conDone_frame now con state
  rw [hdone]
  exact .inl rfl

theorem quotable_origDst (hdst : Quotable con.dstAddr) (hnat : NatReply.Printed nat) :
    Quotable (conGetOrigDst con state nat).dstAddr := by
  unfold conGetOrigDst
  split
  · exact hdst
  · split
    · exact hdst
    · next dst =>
      obtain ⟨hquote, hbackslash⟩ := hnat dst rfl
      refine ⟨fun h => hquote (List.take_subset _ _ h), fun h => hbackslash (List.take_subset _ _ h),
        ?_⟩
      exact (List.length_take_le _ _).trans_lt (by decide)

theorem conNextState_addressed (henv : env.PrintsQuotable) (hnat : con.InCommand → NatReply.Printed nat)
    (h : con.Addressed) : (conNextState env now nat con state).1.Addressed := by
  rcases h with hclose | ⟨hsrc, hdst⟩
  · rw [conNextState_close env now nat con state hclose]
    exact .inl hclose
  have hsame : ∀ {con' : Con}, con'.srcAddr = con.srcAddr → con'.dstAddr = con.dstAddr →
      con'.Addressed := fun hsrc' hdst' => .inr ⟨hsrc' ▸ hsrc, hdst' ▸ hdst⟩
  have hstep := conNextState_step env now nat con state
  generalize conNextState env now nat con state = next at hstep ⊢
  cases hstep with
  | quit _ _ => exact .inl rfl
  | rset _ _ => exact hsame rfl rfl
  | await _ => exact hsame rfl rfl
  | banner _ => exact hsame rfl rfl
  | @proxied src dst _ _ hparse =>
    have hsrc' := parseProxy_src env con.srcAddr con.dstAddr con.input
    have hdst' := parseProxy_dst env con.srcAddr con.dstAddr con.input
    rw [hparse] at hsrc' hdst'
    refine .inr ⟨?_, ?_⟩
    · rcases hsrc' with hkept | ⟨af, a, hprinted⟩
      · exact (show src = con.srcAddr from hkept) ▸ hsrc
      · exact (show src = env.inetNtop af a from hprinted) ▸ henv.inetNtop af a
    · rcases hdst' with hkept | ⟨af, a, hprinted⟩
      · exact (show dst = con.dstAddr from hkept) ▸ hdst
      · exact (show dst = env.inetNtop af a from hprinted) ▸ henv.inetNtop af a
  | refused _ _ => exact addressed_conDone _
  | noHelo _ => exact hsame rfl rfl
  | helo _ => exact hsame rfl rfl
  | mail _ _ => exact hsame (by simp) (by simp)
  | rcpt _ _ _ => exact hsame (by simp) (by simp)
  | grey hstate _ _ =>
    have hcommand : con.InCommand := by
      unfold Con.InCommand
      tauto
    obtain ⟨dst, hframe⟩ := conGetOrigDst_frame
      (con.takeRcpt.reply "250 OK\r\n".toList .rcptOut now) state nat
    refine .inr ⟨?_, quotable_origDst (by simpa using hdst) (hnat hcommand)⟩
    rw [hframe]
    simpa using hsrc
  | data _ => exact hsame rfl rfl
  | dataReply _ _ => exact addressed_conDone _
  | stay _ hcon _ =>
    rcases hcon with rfl | rfl
    · exact hsame (by simp) (by simp)
    · exact hsame (by simp [Con.countBad]) (by simp [Con.countBad])
  | badCmd _ => exact addressed_conDone _
  | body _ => exact hsame rfl rfl
  | bodyEnd _ => exact addressed_conDone _
  | reply _ => exact addressed_conDone _
  | close _ => exact hsame rfl rfl

theorem Wrote.dstAddr {result : WriteResult} {next : Con × GreydState}
    (h : Wrote (con.settleStutter now state) state result next) :
    next.1.dstAddr = con.dstAddr := by
  have hsettled : (con.settleStutter now state).dstAddr = con.dstAddr := by
    obtain ⟨_, hframe⟩ := con.settleStutter_frame now state
    rw [hframe]
  rw [← hsettled]
  generalize con.settleStutter now state = settled at h
  cases h <;> rfl

theorem TurnStep.addressed {act : ConAct} {next : Con × GreydState} (henv : env.PrintsQuotable)
    (hnat : NatReply.Printed nat) (h : TurnStep env now nat con state act next)
    (ha : con.Addressed) : next.1.Addressed := by
  cases h with
  | readClosed _ => exact ha.congr rfl rfl rfl
  | readMore _ => exact ha.congr rfl rfl rfl
  | readLine _ =>
    exact conNextState_addressed henv (fun _ => hnat) (ha.congr rfl rfl rfl)
  | writeMore hwrote _ =>
    obtain ⟨hsame, -⟩ := hwrote.same (now + _)
    exact ha.congr hsame.state hsame.srcAddr hwrote.dstAddr
  | writeDone hwrote _ =>
    obtain ⟨hsame, -⟩ := hwrote.same 0
    exact conNextState_addressed henv (fun _ => hnat)
      (ha.congr hsame.state hsame.srcAddr hwrote.dstAddr)
  | close => exact ha.congr rfl rfl rfl

theorem conInit_addressed (henv : env.PrintsQuotable) (fd : Nat) (src : Sockaddr) :
    (conInit env fd src now nat state).1.Addressed := by
  refine conNextState_addressed henv (fun hc => ?_) (.inr ⟨henv.numericHost src, .nil⟩)
  have hstart : ∀ {b : Bool}, ¬ ((if b then ConState.proxyIn else .bannerIn) = .heloIn ∨
      (if b then ConState.proxyIn else .bannerIn) = .mailIn ∨
      (if b then ConState.proxyIn else .bannerIn) = .rcptIn ∨
      (if b then ConState.proxyIn else .bannerIn) = .dataIn) := by
    intro b
    cases b <;> simp
  exact absurd hc hstart

theorem ConLife.addressed {accepts : GreydState → Sockaddr → Prop} {turns : List Turn}
    {p : Con × GreydState} (henv : env.PrintsQuotable) (h : ConLife env accepts turns p)
    (hnat : ∀ t ∈ turns, t.nat.Printed) : p.1.Addressed := by
  induction h with
  | accept _ => exact conInit_addressed henv _ _
  | turn hlife hcon _ _ henabled ih =>
    subst hcon
    rw [List.forall_mem_cons] at hnat
    exact (henabled.step env _ hlife.hasRoom).addressed henv hnat.1 (ih hnat.2)

end Addresses

/-! ## Two sessions -/

/-- The reader of the greylister has accepted the message at the front of its pipe. -/
def GreyMessage.Accepted (m : GreyMessage) (glob : CStr → List CStr) (config : Config) : Prop :=
  ∃ parser parser' rest, parser.section' = none ∧ parser.lexer = ⟨m.text ++ rest, false⟩ ∧
    configParserStart glob configCreate parser = some (true, parser') ∧ parser'.config = config

/-- The message binds the key. -/
def Config.Binds (config : Config) (k : CStr) : Prop :=
  ∃ section', configGetSection config configDefaultSection = some section' ∧
    configSectionGet section' k ≠ none

/-- What `process_message` sees of the client, but for its greeting. -/
structure SameClient (config₁ config₂ : Config) : Prop where
  type : configGetInt config₁ "type".toList none (-1) = configGetInt config₂ "type".toList none (-1)
  ip : configGetStr config₁ "ip".toList none none = configGetStr config₂ "ip".toList none none
  from_ : configGetStr config₁ "from".toList none none = configGetStr config₂ "from".toList none none
  to_ : configGetStr config₁ "to".toList none none = configGetStr config₂ "to".toList none none

/-- The keys of the messages of other kinds. -/
def trustedKeys : List CStr := ["source", "expires", "delete", "sync"].map String.toList

/-- The greeting is read as a whole from between the quotes: it has no quote of its own, but
for escaped ones, it does not end in an escape, and it fits. -/
def Quoted (helo : CStr) : Prop := ∃ u, Reads helo u

theorem GreyMessage.Accepted.heldBy {m u : GreyMessage} {glob : CStr → List CStr} {config : Config}
    (h : m.Accepted glob config) (hreads : m.Reads u) : u.HeldBy config := by
  obtain ⟨parser, parser', rest, hsection, hlexer, hstart, rfl⟩ := h
  obtain ⟨parser'', hstart', -, -, hheld⟩ := configParserStart_of_grey glob hreads hsection hlexer
  rw [hstart] at hstart'
  obtain rfl : parser' = parser'' := by simpa using hstart'
  exact hheld

theorem GreyMessage.HeldBy.trusted {u : GreyMessage} {config : Config} (h : u.HeldBy config) :
    ∀ k ∈ trustedKeys, ¬ config.Binds k := by
  rintro k hk ⟨section', hsection, hbound⟩
  obtain ⟨section'', hsection', hget⟩ := h
  obtain rfl : section' = section'' := Option.some.inj (hsection.symm.trans hsection')
  refine hbound ((hget k).trans ?_)
  simp only [trustedKeys, List.map_cons, List.map_nil, List.mem_cons, List.not_mem_nil,
    or_false] at hk
  rcases hk with rfl | rfl | rfl | rfl <;> rfl

section Sessions

variable {env : ConEnv} {turns : List Turn} {t : Turn} {helo : CStr}

/-- A RCPT TO command is not taken by a connection that is about to be closed. -/
theorem Turn.rcptTo_state {arg : CStr} (h : t.rcptTo = some arg) : t.con.state ≠ .close := by
  obtain ⟨con, hline, hcommand⟩ := Option.bind_eq_some_iff.mp h
  rw [Option.ite_none_right_eq_some] at hcommand
  have hstate : con.state = t.con.state := by
    unfold Turn.line at hline
    split at hline
    · rw [Option.ite_none_right_eq_some, Option.some.injEq] at hline
      rw [← hline.2]
      rfl
    · simp at hline
  rw [← hstate]
  intro hclose
  simp [hclose] at hcommand

/-- A session from the given source address that has sent the given commands, the last of
them in its latest turn. -/
structure Session (env : ConEnv) (accepts : GreydState → Sockaddr → Prop) (t : Turn)
    (turns : List Turn) (src : CStr) (mails rcpts : List CStr) : Prop where
  life : ∃ p, ConLife env accepts (t :: turns) p
  printed : ∀ g ∈ t :: turns, g.nat.Printed
  src : t.con.srcAddr = src
  mails : mailCommands turns = mails
  rcpts : rcptCommands (t :: turns) = rcpts

/-- The reader finds the client's address, and the envelope that its commands have left. -/
theorem Session.heldBy (henv : env.PrintsQuotable) {accepts : GreydState → Sockaddr → Prop}
    {src : CStr} {mails rcpts : List CStr} (h : Session env accepts t turns src mails rcpts)
    (hmail : (cstr (mailBuffer mails)).length ≤ maxToken)
    (hrcpt : (cstr (mailBuffer rcpts)).length ≤ maxToken) (hquoted : Quoted t.con.helo)
    {m : GreyMessage} (hm : m ∈ t.emitted env) {glob : CStr → List CStr} {config : Config}
    (haccepted : m.Accepted glob config) :
    ∃ dst helo, GreyMessage.HeldBy ⟨dst, src, helo, cstr (mailBuffer mails),
      cstr (mailBuffer rcpts)⟩ config := by
  obtain ⟨⟨p, hlife⟩, hprinted, rfl, rfl, rfl⟩ := h
  obtain ⟨arg, hto, -, hout, rfl⟩ := hlife.emitted_texts hm
  obtain ⟨helo, hhelo⟩ := hquoted
  have hdst : Quotable p.1.dstAddr := by
    rcases hlife.addressed henv hprinted with hclose | ⟨-, hdst⟩
    · rw [hout] at hclose
      simp at hclose
    · exact hdst
  have hsrc : Quotable t.con.srcAddr := by
    cases hlife with
    | turn hbefore hcon _ _ _ =>
      subst hcon
      rw [List.forall_mem_cons] at hprinted
      exact ((hbefore.addressed henv hprinted.2).resolve_left (Turn.rcptTo_state hto)).1
  exact ⟨p.1.dstAddr, helo, haccepted.heldBy ⟨hdst.reads, hsrc.reads, hhelo, reads_mailBuffer hmail,
    reads_mailBuffer hrcpt⟩⟩

/-- Two sessions from one address that have sent the same MAIL FROM and RCPT TO commands look
the same to the greylister, whatever their greetings are, if each of their texts is read as
a whole from between its quotes. -/
theorem helo_isolated (henv : env.PrintsQuotable) {accepts₁ accepts₂ : GreydState → Sockaddr → Prop}
    {t₁ t₂ : Turn} {turns₁ turns₂ : List Turn} {src : CStr} {mails rcpts : List CStr}
    (h₁ : Session env accepts₁ t₁ turns₁ src mails rcpts)
    (h₂ : Session env accepts₂ t₂ turns₂ src mails rcpts)
    (hmail : (cstr (mailBuffer mails)).length ≤ maxToken)
    (hrcpt : (cstr (mailBuffer rcpts)).length ≤ maxToken)
    (hquoted₁ : Quoted t₁.con.helo) (hquoted₂ : Quoted t₂.con.helo)
    {m₁ m₂ : GreyMessage} (hm₁ : m₁ ∈ t₁.emitted env) (hm₂ : m₂ ∈ t₂.emitted env)
    {glob : CStr → List CStr} {config₁ config₂ : Config} (haccepted₁ : m₁.Accepted glob config₁)
    (haccepted₂ : m₂.Accepted glob config₂) :
    SameClient config₁ config₂ ∧ ∀ k ∈ trustedKeys, ¬ config₁.Binds k ∧ ¬ config₂.Binds k := by
  obtain ⟨dst₁, helo₁, hheld₁⟩ := h₁.heldBy henv hmail hrcpt hquoted₁ hm₁ haccepted₁
  obtain ⟨dst₂, helo₂, hheld₂⟩ := h₂.heldBy henv hmail hrcpt hquoted₂ hm₂ haccepted₂
  refine ⟨⟨?_, ?_, ?_, ?_⟩, fun k hk => ⟨hheld₁.trusted k hk, hheld₂.trusted k hk⟩⟩
  · rw [hheld₁.type, hheld₂.type]
  · rw [hheld₁.get, hheld₂.get]
    rfl
  · rw [hheld₁.get, hheld₂.get]
    rfl
  · rw [hheld₁.get, hheld₂.get]
    rfl

end Sessions

/-- A session of a client with the given greeting. -/
def Greets (t : Turn) (before : List Turn) (helo : CStr) : Prop :=
  Session plainEnv (fun _ _ => True) t before "192.0.2.1".toList ["<a@b.example>".toList]
    ["<c@d.example>".toList] ∧ t.con.helo = helo ∧ t.emitted plainEnv = [greeting helo]

theorem exists_greets_x : ∃ t before, Greets t before "x".toList := by
  have hlife := @ConLife.play plainEnv (fun _ _ => True) (some "192.0.2.1".toList)
    (heloSession "x".toList) [] plainStart (.accept trivial) (by decide +kernel)
  exact ⟨_, _, ⟨⟨_, hlife⟩, by decide +kernel, by decide +kernel, by decide +kernel,
    by decide +kernel⟩, by decide +kernel, by decide +kernel⟩

theorem exists_greets_y : ∃ t before, Greets t before "y".toList := by
  have hlife := @ConLife.play plainEnv (fun _ _ => True) (some "192.0.2.1".toList)
    (heloSession "y".toList) [] plainStart (.accept trivial) (by decide +kernel)
  exact ⟨_, _, ⟨⟨_, hlife⟩, by decide +kernel, by decide +kernel, by decide +kernel,
    by decide +kernel⟩, by decide +kernel, by decide +kernel⟩

theorem quotable_address : Quotable "192.0.2.1".toList := ⟨by decide, by decide, by decide⟩

theorem exists_accepted_greeting {helo : CStr} (h : Reads helo helo) :
    ∃ config, (greeting helo).Accepted (fun _ => []) config := by
  have hreads : (greeting helo).Reads (greeting helo) :=
    ⟨quotable_address.reads, quotable_address.reads, h,
      .self (s := "a@b.example".toList) (by decide) (by decide) (by decide),
      .self (s := "c@d.example".toList) (by decide) (by decide) (by decide)⟩
  obtain ⟨parser', hrun, -, -, -⟩ := @configParserStart_of_grey _ _ (fun _ => []) hreads
    (configParserCreate ⟨(greeting helo).text ++ [], false⟩) [] rfl rfl
  exact ⟨_, _, parser', [], rfl, rfl, hrun, rfl⟩

theorem helo_isolated_plain :
    ∃ config₁ config₂, (greeting "x".toList).Accepted (fun _ => []) config₁ ∧
      (greeting "y".toList).Accepted (fun _ => []) config₂ ∧ SameClient config₁ config₂ ∧
      ∀ k ∈ trustedKeys, ¬ config₁.Binds k ∧ ¬ config₂.Binds k := by
  have hx : Reads "x".toList "x".toList := ⟨by decide, by decide⟩
  have hy : Reads "y".toList "y".toList := ⟨by decide, by decide⟩
  obtain ⟨t₁, before₁, hsession₁, hhelo₁, hm₁⟩ := exists_greets_x
  obtain ⟨t₂, before₂, hsession₂, hhelo₂, hm₂⟩ := exists_greets_y
  obtain ⟨config₁, hconfig₁⟩ := exists_accepted_greeting hx
  obtain ⟨config₂, hconfig₂⟩ := exists_accepted_greeting hy
  exact ⟨config₁, config₂, hconfig₁, hconfig₂, helo_isolated
    ⟨fun _ => quotable_address, fun _ _ => quotable_address⟩ hsession₁ hsession₂
    (by decide +kernel) (by decide +kernel) ⟨_, by rw [hhelo₁]; exact hx⟩ ⟨_, by rw [hhelo₂]; exact hy⟩
    (by rw [hm₁]; exact List.mem_singleton.mpr rfl) (by rw [hm₂]; exact List.mem_singleton.mpr rfl)
    hconfig₁ hconfig₂⟩

/-- The address that the reader finds in the message of a client with the given greeting. -/
def greetingAddress (helo : CStr) : Option (Bool × Option CStr) :=
  (configParserStart (fun _ => []) configCreate
    (configParserCreate (configLexerCreate (greeting helo).text))).map fun read =>
      (read.1, configGetStr read.2.config "ip".toList none none)

/-- A greeting with a quote gives the greylister another address than the client's. -/
theorem greeting_sets_address :
    (∃ t before, Greets t before "x".toList) ∧
      (∃ t before, Greets t before "x\";ip=\"5.6.7.8".toList) ∧
      greetingAddress "x".toList = some (true, some "192.0.2.1".toList) ∧
      greetingAddress "x\";ip=\"5.6.7.8".toList = some (true, some "5.6.7.8".toList) := by
  have hlife := @ConLife.play plainEnv (fun _ _ => True) (some "192.0.2.1".toList)
    (heloSession "x\";ip=\"5.6.7.8".toList) [] plainStart (.accept trivial) (by decide +kernel)
  refine ⟨exists_greets_x, ⟨_, _, ⟨⟨_, hlife⟩, by decide +kernel, by decide +kernel,
    by decide +kernel, by decide +kernel⟩, by decide +kernel, by decide +kernel⟩,
    by decide +kernel, by decide +kernel⟩

end Greyd
