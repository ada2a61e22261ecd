import Greyd.ConRuns

/-!
# The output window

While a write is pending, `out_p` and `out_remaining` mark what is left of the text in the
output buffer. `Con_build_reply` sets them for each message that does not end in a newline,
so the last message decides whether the final reply is marked as a whole, and any message
whether it is marked at all.
-/
namespace Greyd

/-- The library prints addresses as texts. -/
structure ConEnv.Prints (env : ConEnv) : Prop where
  host : ∀ src, AddressText (env.numericHost src)
  ntop : ∀ af a, AddressText (env.inetNtop af a)

/-- The messages have the final reply marked: as a whole where the last one does not end in a
newline, at all where one of them does not. -/
def ListsMark (whole : Bool) (blacklists : List Blacklist) : Prop :=
  if whole then
    ∀ blacklist, blacklists.getLast? = some blacklist → ¬ EndsInNewline blacklist.message
  else blacklists ≠ [] → ∃ blacklist ∈ blacklists, ¬ EndsInNewline blacklist.message

theorem ListsMark.some {whole : Bool} {blacklists : List Blacklist} (h : ListsMark whole blacklists)
    (hne : blacklists ≠ []) : ∃ blacklist ∈ blacklists, ¬ EndsInNewline blacklist.message := by
  cases whole with
  | true => exact ⟨_, List.getLast_mem hne, h _ (List.getLast?_eq_getLast_of_ne_nil hne)⟩
  | false => exact h hne

/-- The reply can be built: the buffer has its first size and the texts are in order. -/
structure Con.CanReply (whole : Bool) (code : CStr) (con : Con) : Prop where
  size : con.outSize = conOutBufSize
  replies : con.Replies code
  marks : ListsMark whole con.blacklists

/-- The text that is left to be written is marked. -/
structure Con.Marked (whole : Bool) (con : Con) : Prop where
  pending : con.w ≠ 0 → 0 < con.outRemaining
  window : whole = true → con.w ≠ 0 → con.outP + con.outRemaining = (cstr con.outBuf).length

/-- An open connection between two turns. -/
structure Con.Tidy (whole : Bool) (code : CStr) (con : Con) : Prop where
  marked : con.Marked whole
  replies : con.state ≠ .close → con.CanReply whole code

/-- What a step leaves: a reply after which the connection is closed is marked from its
first character on. -/
structure Con.Settled (whole : Bool) (code : CStr) (con : Con) : Prop where
  tidy : con.Tidy whole code
  final : whole = true → con.state = .close → con.Windowed

section Tidy

variable {whole : Bool} {code : CStr} {con con' : Con}

theorem Con.CanReply.congr (h : con.CanReply whole code) (hsize : con'.outSize = con.outSize)
    (hlists : con'.blacklists = con.blacklists) (hsrc : AddressText con'.srcAddr) :
    con'.CanReply whole code := by
  obtain ⟨hs, ⟨hcode, -, hfits⟩, hmarks⟩ := h
  exact ⟨hsize.trans hs, ⟨hcode, hsrc, by rw [hsize, hlists]; exact hfits⟩, hlists ▸ hmarks⟩

theorem Con.Marked.congr (h : con.Marked whole) (hw : con'.w = con.w) (hp : con'.outP = con.outP)
    (hremaining : con'.outRemaining = con.outRemaining) (hbuf : con'.outBuf = con.outBuf) :
    con'.Marked whole := by
  obtain ⟨hpending, hwindow⟩ := h
  constructor
  · rw [hw, hremaining]
    exact hpending
  · rw [hw, hp, hremaining, hbuf]
    exact hwindow

theorem Con.Marked.of_windowed (h : con.Windowed) : con.Marked whole where
  pending := fun _ => h.pos
  window := fun _ _ => by rw [h.start, h.whole]; simp

/-- Marked as a whole, or at all. -/
theorem conBuildReply_marked (h : con.CanReply whole code)
    (hp : con'.outP = (conBuildReply con code).outP)
    (hremaining : con'.outRemaining = (conBuildReply con code).outRemaining)
    (hbuf : con'.outBuf = (conBuildReply con code).outBuf) : con'.Marked whole := by
  have hsize : 1 < con.outSize := by
    rw [h.size]
    decide
  have hpending := conBuildReply_pending h.replies hsize h.marks.some
  refine ⟨fun _ => hremaining ▸ hpending.2, ?_⟩
  rintro rfl -
  have hwindowed := conBuildReply_windowed h.replies hsize h.marks
  rw [hp, hremaining, hbuf, hwindowed.start, hwindowed.whole]
  simp

/-- A text printed for the client and marked. -/
theorem Con.print_windowed {text : CStr} (hsize : con.outSize = conOutBufSize)
    (hhead : text.getD 0 nul ≠ nul) (hp : con'.outP = 0)
    (hremaining : con'.outRemaining = (cstr (con.print text).outBuf).length)
    (hbuf : con'.outBuf = (con.print text).outBuf) : con'.Windowed := by
  have hprint := @Con.print_head con text (by rw [hsize]; decide) hhead
  refine ⟨hp, hbuf ▸ hremaining, ?_⟩
  rw [hremaining]
  exact Int.natCast_pos.mpr (cstr_pos hprint)

/-- A reply sent. -/
theorem Con.CanReply.reply (h : con.CanReply whole code) {text : CStr} {next : ConState}
    (now : Int) (hhead : text.getD 0 nul ≠ nul) : (con.reply text next now).Settled whole code := by
  have hwindowed : (con.reply text next now).Windowed := Con.print_windowed h.size hhead rfl rfl rfl
  exact ⟨⟨.of_windowed hwindowed, fun _ => h.congr rfl rfl h.replies.src⟩, fun _ _ => hwindowed⟩

end Tidy

section Steps

variable {env : ConEnv} {whole : Bool} {now : Int} {nat : NatReply} {con : Con}
  {state : GreydState} {next : Con × GreydState}

/-- The final reply. -/
theorem Con.CanReply.done (h : con.CanReply whole state.errorCode) (code : CStr) :
    (conDone now con state).1.Settled whole code := by
  refine ⟨⟨conBuildReply_marked h rfl rfl rfl, fun hopen => absurd rfl hopen⟩, ?_⟩
  rintro rfl -
  have hsize : 1 < con.outSize := by
    rw [h.size]
    decide
  obtain ⟨hstart, hwhole, hpos⟩ := conBuildReply_windowed h.replies hsize h.marks
  exact ⟨hstart, hwhole, hpos⟩

/-- A step that does not close the connection keeps the text marked. -/
theorem NextStep.settled (hprints : env.Prints) (h : NextStep env now nat con state next)
    (hmarked : con.Marked whole) (hcan : con.CanReply whole state.errorCode)
    (hopen : con.state ≠ .close) : next.1.Settled whole state.errorCode := by
  have hsrc := hcan.replies.src
  cases h with
  | quit _ _ => exact hcan.reply now (show '2' ≠ nul by decide)
  | rset _ _ => exact hcan.reply now (by decide)
  | await hwaits =>
    refine ⟨⟨hmarked.congr rfl rfl rfl rfl, fun _ => hcan.congr rfl rfl hsrc⟩, ?_⟩
    rintro - rfl
    generalize con.state = s at hwaits
    cases hwaits
  | banner _ => exact hcan.reply now (show '2' ≠ nul by decide)
  | @proxied src dst hstate hallow hparse =>
    have hfrom := parseProxy_src env con.srcAddr con.dstAddr con.input
    rw [hparse] at hfrom
    have hcan' : (con.setSrcDst src dst).CanReply whole state.errorCode := by
      refine hcan.congr rfl rfl ?_
      show AddressText src
      rcases hfrom with hkept | ⟨af, a, hntop⟩
      · exact (show src = con.srcAddr from hkept) ▸ hsrc
      · exact (show src = env.inetNtop af a from hntop) ▸ hprints.ntop af a
    exact hcan'.reply now (show '2' ≠ nul by decide)
  | refused _ hfrom =>
    apply Con.CanReply.done
    refine hcan.congr rfl rfl ?_
    rcases hfrom with rfl | ⟨af, a, rfl⟩
    · exact hsrc
    · exact hprints.ntop af a
  | noHelo _ =>
    apply Con.CanReply.reply
    · exact hcan.congr rfl rfl hsrc
    · exact show '5' ≠ nul by decide
  | helo _ =>
    apply Con.CanReply.reply
    · exact hcan.congr rfl rfl hsrc
    · exact show '2' ≠ nul by decide
  | mail _ _ =>
    apply Con.CanReply.reply
    · exact hcan.congr (by simp) (by simp) (by simpa using hsrc)
    · decide
  | rcpt _ _ _ =>
    apply Con.CanReply.reply
    · exact hcan.congr (by simp) (by simp) (by simpa using hsrc)
    · decide
  | grey _ _ _ =>
    obtain ⟨_, hnat⟩ := conGetOrigDst_frame (con.takeRcpt.reply "250 OK\r\n".toList .rcptOut now)
      state nat
    have hcan' : con.takeRcpt.CanReply whole state.errorCode :=
      hcan.congr (by simp) (by simp) (by simpa using hsrc)
    obtain ⟨⟨hmarked', hreplies'⟩, -⟩ := @Con.CanReply.reply whole _ _ hcan'
      "250 OK\r\n".toList .rcptOut now (by decide)
    rw [hnat]
    refine ⟨⟨hmarked'.congr rfl rfl rfl rfl,
      fun _ => hcan'.congr (by simp) (by simp) (by simpa using hsrc)⟩, fun _ hclose => ?_⟩
    simp at hclose
  | data _ =>
    have hwindowed : (con.ready354 now).Windowed :=
      @Con.print_windowed con _ "354 End data with <CR><LF>.<CR><LF>\r\n".toList hcan.size (by decide)
        rfl rfl rfl
    exact ⟨⟨.of_windowed hwindowed, fun _ => hcan.congr rfl rfl hsrc⟩, fun _ _ => hwindowed⟩
  | dataReply _ _ =>
    apply Con.CanReply.done
    exact hcan.congr rfl rfl hsrc
  | @stay text con' _ hcon hhead =>
    have hcan' : con'.CanReply whole state.errorCode := by
      rcases hcon with rfl | rfl
      · exact hcan
      · exact hcan.congr rfl rfl hsrc
    have htext : text.getD 0 nul ≠ nul := by
      cases text with
      | nil => simp at hhead
      | cons c rest =>
        simp only [List.head?_cons, Option.some.injEq] at hhead
        rcases hhead with rfl | rfl
        · exact show '2' ≠ nul by decide
        · exact show '5' ≠ nul by decide
    have hwindowed : ((con'.print text).stay now).Windowed :=
      Con.print_windowed hcan'.size htext rfl rfl rfl
    exact ⟨⟨.of_windowed hwindowed, fun _ => hcan'.congr rfl rfl hcan'.replies.src⟩,
      fun _ _ => hwindowed⟩
  | badCmd _ =>
    apply Con.CanReply.done
    exact hcan.congr rfl rfl hsrc
  | body hstate =>
    refine ⟨⟨hmarked.congr rfl rfl rfl rfl, fun _ => hcan.congr rfl rfl hsrc⟩, fun _ hclose => ?_⟩
    exact absurd hclose hopen
  | bodyEnd _ =>
    apply Con.CanReply.done
    exact hcan.congr rfl rfl hsrc
  | reply _ => exact hcan.done _
  | close hstate => exact absurd hstate hopen

/-! ## What a turn does to the connection's accounts -/

/-- The accounts of the daemon. -/
structure GreydState.SameAccounts (state state' : GreydState) : Prop where
  config : state'.config = state.config
  clients : state'.clients = state.clients
  blackClients : state'.blackClients = state.blackClients
  closed : state'.closed = state.closed

/-- The connection is as open as before, and on the same lists. -/
structure StaysOpen (con : Con) (state : GreydState) (next : Con × GreydState) : Prop where
  fd : next.1.fd = con.fd
  blacklists : next.1.blacklists = con.blacklists
  accounts : state.SameAccounts next.2

/-- The connection has been closed, once. -/
structure IsClosed (con : Con) (state : GreydState) (next : Con × GreydState) : Prop where
  fd : next.1.fd = none
  blacklists : next.1.blacklists = []
  config : next.2.config = state.config
  clients : next.2.clients = state.clients - 1
  blackClients : next.2.blackClients = if con.listed then state.blackClients - 1 else state.blackClients
  closed : next.2.closed = state.closed ++ [con.fd]

theorem IsClosed.conClose (con : Con) (state : GreydState) : IsClosed con state (conClose con state) := by
  constructor <;> rfl

theorem staysOpen_conDone {con' : Con} (hfd : con'.fd = con.fd)
    (hlists : con'.blacklists = con.blacklists) : StaysOpen con state (conDone now con' state) := by
  obtain ⟨_, _, _, _, hdone⟩ := conDone_frame now con' state
  rw [hdone]
  exact ⟨hfd, hlists, rfl, rfl, rfl, rfl⟩

theorem NextStep.staysOpen (h : NextStep env now nat con state next) (hopen : con.state ≠ .close) :
    StaysOpen con state next := by
  cases h with
  | refused _ _ => exact staysOpen_conDone rfl rfl
  | dataReply _ _ => exact staysOpen_conDone rfl rfl
  | badCmd _ => exact staysOpen_conDone rfl rfl
  | bodyEnd _ => exact staysOpen_conDone rfl rfl
  | reply _ => exact staysOpen_conDone rfl rfl
  | grey _ _ _ =>
    obtain ⟨_, hnat⟩ := conGetOrigDst_frame (con.takeRcpt.reply "250 OK\r\n".toList .rcptOut now)
      state nat
    rw [hnat]
    exact ⟨by simp, by simp, rfl, rfl, rfl, rfl⟩
  | close hstate => exact absurd hstate hopen
  | mail _ _ => exact ⟨by simp, by simp, rfl, rfl, rfl, rfl⟩
  | rcpt _ _ _ => exact ⟨by simp, by simp, rfl, rfl, rfl, rfl⟩
  | stay _ hcon _ =>
    rcases hcon with rfl | rfl <;>
      exact ⟨by simp [Con.countBad], by simp [Con.countBad], rfl, rfl, rfl, rfl⟩
  | quit _ _ => exact ⟨rfl, rfl, rfl, rfl, rfl, rfl⟩
  | rset _ _ => exact ⟨rfl, rfl, rfl, rfl, rfl, rfl⟩
  | await _ => exact ⟨rfl, rfl, rfl, rfl, rfl, rfl⟩
  | banner _ => exact ⟨rfl, rfl, rfl, rfl, rfl, rfl⟩
  | proxied _ _ _ => exact ⟨rfl, rfl, rfl, rfl, rfl, rfl⟩
  | noHelo _ => exact ⟨rfl, rfl, rfl, rfl, rfl, rfl⟩
  | helo _ => exact ⟨rfl, rfl, rfl, rfl, rfl, rfl⟩
  | data _ => exact ⟨rfl, rfl, rfl, rfl, rfl, rfl⟩
  | body _ => exact ⟨rfl, rfl, rfl, rfl, rfl, rfl⟩

/-- A turn has closed the connection or leaves it open and tidy; a reply that the connection
is closed after is marked from its first character on when the turn has ordered it. -/
def Outcome (whole : Bool) (con : Con) (state : GreydState) (next : Con × GreydState) : Prop :=
  IsClosed con state next ∨
    (StaysOpen con state next ∧ next.1.Tidy whole state.errorCode ∧
      (whole = true → con.state ≠ .close → next.1.state = .close → next.1.Windowed))

/-- `Con_next_state` called for a connection with part of its data replaced. -/
theorem conNextState_outcome (env : ConEnv) (hprints : env.Prints) (now : Int) (nat : NatReply)
    {con' : Con} {state' : GreydState} (hfd : con'.fd = con.fd)
    (hlists : con'.blacklists = con.blacklists) (hstate : state.SameAccounts state')
    (hmarked : con'.Marked whole) (hcan : con'.state ≠ .close → con'.CanReply whole state'.errorCode) :
    Outcome whole con state (conNextState env now nat con' state') := by
  obtain ⟨hconfig, hclients, hblack, hclosed⟩ := hstate
  by_cases hclose : con'.state = .close
  · left
    rw [conNextState_close _ _ _ _ _ hclose]
    obtain ⟨hfd', hlists', hconfig', hclients', hblack', hclosed'⟩ := IsClosed.conClose con' state'
    have hlisted : con'.listed = con.listed := by
      unfold Con.listed
      rw [hlists]
    exact ⟨hfd', hlists', hconfig'.trans hconfig, hclients ▸ hclients',
      by rw [hblack', hlisted, hblack], by rw [hclosed', hclosed, hfd]⟩
  · right
    have hstep := conNextState_step env now nat con' state'
    obtain ⟨hfd', hlists', hconfig', hclients', hblack', hclosed'⟩ := hstep.staysOpen hclose
    have hcode : state'.errorCode = state.errorCode := by
      unfold GreydState.errorCode
      rw [hconfig]
    obtain ⟨htidy, hfinal⟩ := hstep.settled hprints hmarked (hcan hclose) hclose
    exact ⟨⟨hfd'.trans hfd, hlists'.trans hlists, hconfig'.trans hconfig, hclients'.trans hclients,
      hblack'.trans hblack, hclosed'.trans hclosed⟩, hcode ▸ htidy, fun hwhole _ => hfinal hwhole⟩

theorem toBeWritten_le (h : 0 < con.outRemaining) : toBeWritten con state ≤ con.outRemaining := by
  unfold toBeWritten
  split <;> omega

/-- What a call of `write` leaves marked. -/
theorem Con.Marked.sent {con' : Con} (h : con.Marked whole) (hw : con.w ≠ 0) {n : Int}
    (hn : 0 ≤ n) (hfew : n ≤ con.outRemaining) (hp : con'.outP = con.outP + n.toNat)
    (hremaining : con'.outRemaining = con.outRemaining - n) (hbuf : con'.outBuf = con.outBuf)
    (hleft : con'.w = 0 ∨ con'.outRemaining ≠ 0) : con'.Marked whole := by
  constructor
  · intro hw'
    have hne := hleft.resolve_left hw'
    omega
  · intro hwhole _
    have hwindow := h.window hwhole hw
    rw [hp, hremaining, hbuf]
    omega

/-- A turn of an open connection either closes it or leaves it open and tidy. -/
theorem TurnStep.outcome (hprints : env.Prints) {act : ConAct}
    (h : TurnStep env now nat con state act next) (henabled : act.Enabled now con state)
    (htidy : con.Tidy whole state.errorCode) : Outcome whole con state next := by
  obtain ⟨hmarked, hcan⟩ := htidy
  cases h with
  | readClosed _ => exact .inl (.conClose con state)
  | readMore _ =>
    exact .inr ⟨⟨rfl, rfl, rfl, rfl, rfl, rfl⟩, ⟨hmarked.congr rfl rfl rfl rfl,
      fun hopen => (hcan hopen).congr rfl rfl (hcan hopen).replies.src⟩,
      fun _ hopen hclose => absurd hclose hopen⟩
  | readLine _ =>
    exact conNextState_outcome env hprints now nat rfl rfl ⟨rfl, rfl, rfl, rfl⟩
      (hmarked.congr rfl rfl rfl rfl)
      fun hopen => (hcan hopen).congr rfl rfl (hcan hopen).replies.src
  | @writeMore result con' state' hwrote hleft =>
    obtain ⟨-, hw, -, hlow, hhigh⟩ := henabled
    have hpos := hmarked.pending hw
    obtain ⟨stutter, hsettle⟩ := con.settleStutter_frame now state
    rw [hsettle] at hwrote hhigh
    have hfew := hhigh.trans (toBeWritten_le hpos)
    cases hwrote with
    | closed =>
      left
      constructor <;> rfl
    | sent hone hzero =>
      right
      refine ⟨⟨rfl, rfl, rfl, rfl, rfl, rfl⟩, ⟨?_,
        fun hopen => (hcan hopen).congr rfl rfl (hcan hopen).replies.src⟩,
        fun _ hopen hclose => absurd hclose hopen⟩
      exact hmarked.sent hw (n := result.text) (by omega) hfew rfl rfl rfl (.inr hleft)
  | @writeDone result con' state' hwrote hdone =>
    obtain ⟨-, hw, -, hlow, hhigh⟩ := henabled
    have hpos := hmarked.pending hw
    obtain ⟨stutter, hsettle⟩ := con.settleStutter_frame now state
    rw [hsettle] at hwrote hhigh
    have hfew := hhigh.trans (toBeWritten_le hpos)
    cases hwrote with
    | closed => exact absurd hdone hpos.ne'
    | sent hone hzero =>
      apply conNextState_outcome env hprints now nat
      · rfl
      · rfl
      · exact ⟨rfl, rfl, rfl, rfl⟩
      · exact hmarked.sent hw (n := result.text) (by omega) hfew rfl rfl rfl (.inl rfl)
      · exact fun hopen => (hcan hopen).congr rfl rfl (hcan hopen).replies.src
  | close => exact .inl (.conClose con state)

end Steps

section Lives

variable {env : ConEnv} {whole : Bool}

/-- What a connection is accepted under: a response code, messages that fit into memory, and
messages that have the final reply marked. -/
structure AcceptsReply (whole : Bool) (state : GreydState) (src : Sockaddr) : Prop where
  code : ReplyCode state.errorCode
  fits : conOutBufSize + 10000 * textBudget (attachedLists state src) < 2 ^ 62
  marks : ListsMark whole (attachedLists state src)

/-- An accepted connection. -/
structure IsAccepted (whole : Bool) (fd : Nat) (src : Sockaddr) (state : GreydState)
    (next : Con × GreydState) : Prop where
  fd : next.1.fd = some fd
  blacklists : next.1.blacklists = attachedLists state src
  config : next.2.config = state.config
  clients : next.2.clients = state.clients + 1
  blackClients : next.2.blackClients =
    if (attachedLists state src).isEmpty then state.blackClients else state.blackClients + 1
  closed : next.2.closed = state.closed
  tidy : next.1.Tidy whole state.errorCode

theorem conInit_accepted (hprints : env.Prints) (fd : Nat) {src : Sockaddr} (now : Int)
    (nat : NatReply) {state : GreydState} (h : AcceptsReply whole state src) :
    IsAccepted whole fd src state (conInit env fd src now nat state) := by
  obtain ⟨stutter, hinit⟩ := conInit_eq env fd src now nat state
  have hopen := (acceptedCon_begins env fd src now stutter state).1
  rw [hinit]
  generalize hcon : acceptedCon env fd src now stutter state = con at hopen ⊢
  generalize hstate : ({ state with clients := _, blackClients := _ } : GreydState) = state₁
  have hcode : state₁.errorCode = state.errorCode := by
    rw [← hstate]
    rfl
  have hmarked : con.Marked whole := by
    rw [← hcon]
    exact ⟨fun hw => absurd rfl hw, fun _ hw => absurd rfl hw⟩
  have hcan : con.CanReply whole state₁.errorCode := by
    rw [hcode, ← hcon]
    exact ⟨rfl, ⟨h.code, hprints.host src, h.fits⟩, h.marks⟩
  have hstep := conNextState_step env now nat con state₁
  obtain ⟨hfd, hlists, hconfig, hclients, hblack, hclosed⟩ := hstep.staysOpen hopen
  refine ⟨?_, ?_, ?_, ?_, ?_, ?_, ?_⟩
  · rw [hfd, ← hcon]
    rfl
  · rw [hlists, ← hcon]
    rfl
  · rw [hconfig, ← hstate]
  · rw [hclients, ← hstate]
  · rw [hblack, ← hstate]
  · rw [hclosed, ← hstate]
  · rw [← hcode]
    exact (hstep.settled hprints hmarked hcan hopen).tidy

/-- In every life of a connection accepted so, it is closed or tidy. -/
theorem ConLife.tidy (hprints : env.Prints) {turns : List Turn} {p : Con × GreydState}
    (h : ConLife env (AcceptsReply whole) turns p) :
    p.1.fd = none ∨ p.1.Tidy whole p.2.errorCode := by
  induction h with
  | @accept fd src now nat state haccepts =>
    have haccepted := conInit_accepted hprints fd now nat haccepts
    right
    unfold GreydState.errorCode
    rw [haccepted.config]
    exact haccepted.tidy
  | @turn turns con state t hlife hcon _ hconfig henabled ih =>
    subst hcon
    have htidy : t.con.Tidy whole t.state.errorCode := by
      unfold GreydState.errorCode
      rw [hconfig]
      exact ih.resolve_left henabled.1
    rcases (henabled.step env t.nat hlife.hasRoom).outcome hprints henabled htidy with
      hclosed | ⟨hopen, htidy', -⟩
    · exact .inl hclosed.fd
    · right
      have hcode : (t.next env).2.errorCode = t.state.errorCode := by
        unfold GreydState.errorCode
        rw [show (t.next env).2.config = t.state.config from hopen.accounts.config]
      rw [hcode]
      exact htidy'

/-- A connection whose last list has a message that does not end in a newline: while a write
is pending, `out_p` and `out_remaining` mark exactly what is left of the text in the output
buffer, and a reply that the connection is closed after is marked as a whole when it is
ordered. -/
theorem output_window (hprints : env.Prints) {turns : List Turn} {p : Con × GreydState}
    (hlife : ConLife env (AcceptsReply true) turns p) (hopen : p.1.fd ≠ none) :
    (p.1.w ≠ 0 → 0 < p.1.outRemaining ∧
      p.1.outP + p.1.outRemaining = (cstr p.1.outBuf).length) ∧
    (∀ t before, turns = t :: before → t.con.state ≠ .close → p.1.state = .close →
      p.1.outP = 0 ∧ p.1.outRemaining = (cstr p.1.outBuf).length) := by
  have hmarked := ((hlife.tidy hprints).resolve_left hopen).marked
  refine ⟨fun hw => ⟨hmarked.pending hw, hmarked.window rfl hw⟩, ?_⟩
  rintro t before rfl hbefore hclose
  cases hlife with
  | @turn _ con state _ hlife hcon _ hconfig henabled =>
    subst hcon
    have htidy : t.con.Tidy true t.state.errorCode := by
      unfold GreydState.errorCode
      rw [hconfig]
      exact (hlife.tidy hprints).resolve_left henabled.1
    rcases (henabled.step env t.nat hlife.hasRoom).outcome hprints henabled htidy with
      hclosed | ⟨-, -, hfinal⟩
    · exact absurd hclosed.fd hopen
    · have hwindowed : (t.next env).1.Windowed := hfinal rfl hbefore hclose
      exact ⟨hwindowed.start, hwindowed.whole⟩

end Lives

/-- A client on one list that sends a HELO where a PROXY header is due. -/
def listedEnv : ConEnv := ⟨fun _ => "10.0.0.9".toList, fun _ _ => "10.0.0.9".toList, fun _ => []⟩

def listedSrc : Sockaddr := ⟨afInet, .ofSAddr 0x0900000a, 4711⟩

def listedState (message : CStr) : GreydState :=
  let added := blacklistAdd (blacklistCreate "test".toList message .trie) "10.0.0.9".toList
  { GreydState.start configCreate 800 700 true (blacklistCreate [] [] .list) with
    blacklists := (added.map fun result =>
      hashInsert (hashCreate numBlacklists) "test".toList result.1).getD (hashCreate numBlacklists) }

def listedTurn (message : CStr) : Turn where
  con := (conInit listedEnv 5 listedSrc 1 none (listedState message)).1
  state := (conInit listedEnv 5 listedSrc 1 none (listedState message)).2
  now := 2
  nat := none
  act := .read (.data "HELO\r\n".toList)

theorem listedEnv_prints : listedEnv.Prints :=
  have htext : AddressText "10.0.0.9".toList := ⟨by decide, by decide, by decide⟩
  ⟨fun _ => htext, fun _ _ => htext⟩

theorem listedLife {accepts : GreydState → Sockaddr → Prop} {message : CStr}
    (h : accepts (listedState message) listedSrc) :
    ConLife listedEnv accepts [listedTurn message] ((listedTurn message).next listedEnv) := by
  have haccept : ConLife listedEnv accepts [] (conInit listedEnv 5 listedSrc 1 none
      (listedState message)) := .accept h
  have hwaits : (listedTurn message).con.r = 1 ∧ (listedTurn message).con.inRemaining = 8191 := by
    show (conInit _ _ _ _ _ _).1.r = _ ∧ (conInit _ _ _ _ _ _).1.inRemaining = _
    unfold conInit
    dsimp only
    rw [conNextState_proxyIn _ _ _ _ _ rfl rfl]
    exact ⟨rfl, rfl⟩
  refine .turn haccept rfl rfl rfl ⟨?_, ?_, by decide, ?_⟩
  · show (conInit _ _ _ _ _ _).1.fd ≠ none
    unfold conInit
    dsimp only
    rw [conNextState_proxyIn _ _ _ _ _ rfl rfl]
    exact Option.some_ne_none 5
  · rw [hwaits.1]
    decide
  · rw [hwaits.2]
    decide

theorem listsMark_listed {blacklists : List Blacklist}
    (h : blacklists.map (·.message) = ["Listed".toList]) (whole : Bool) :
    ListsMark whole blacklists := by
  have hmessage : ∀ blacklist ∈ blacklists, ¬ EndsInNewline blacklist.message := by
    intro blacklist hmem
    have hmessage : blacklist.message ∈ ["Listed".toList] := h ▸ List.mem_map_of_mem hmem
    rw [List.mem_singleton.mp hmessage]
    decide
  cases whole with
  | true => exact fun blacklist hlast => hmessage blacklist (List.mem_of_getLast? hlast)
  | false => exact fun hne => ⟨_, List.getLast_mem hne, hmessage _ (List.getLast_mem hne)⟩

/-- The reply made of the message "Listed" is marked as a whole. -/
theorem output_window_listed :
    ((listedTurn "Listed".toList).next listedEnv).1.outRemaining =
      (cstr ((listedTurn "Listed".toList).next listedEnv).1.outBuf).length := by
  have haccepts : AcceptsReply true (listedState "Listed".toList) listedSrc :=
    ⟨⟨by decide +kernel, by decide +kernel, by decide +kernel, by decide +kernel⟩,
      by decide +kernel, listsMark_listed (by decide +kernel) true⟩
  exact ((output_window listedEnv_prints (listedLife haccepts) (by decide +kernel)).2 _ _ rfl
    (by decide +kernel) (by decide +kernel)).2

/-- The same message with a newline at its end: the reply is in the buffer and due to be
written, and nothing of it is marked. -/
theorem newline_reply_unmarked :
    ∃ turns p, ConLife listedEnv (fun _ _ => True) turns p ∧ p.1.fd ≠ none ∧ p.1.w ≠ 0 ∧
      p.1.state = .close ∧ (∀ t ∈ turns, t.con.state ≠ .close) ∧
      cstr p.1.outBuf = "450 Listed\n".toList ∧ p.1.outRemaining ≠ (cstr p.1.outBuf).length ∧
      p.1.outRemaining = 0 :=
  ⟨_, _, @listedLife (fun _ _ => True) "Listed\n".toList trivial, by decide +kernel, by decide +kernel,
    by decide +kernel, by decide +kernel, by decide +kernel, by decide +kernel, by decide +kernel⟩

end Greyd
