import Greyd.OutputWindow

/-!
# Stuttering (con.c)

How slowly a connection is written to is settled when it is accepted; only `Con_handle_write`
changes it later, and never for a client on a blacklist.
-/
namespace Greyd

/-- `Con_init` tests the settings before it has looked the client up: where it finds
greylisting enabled and no grey stutter, it gives up the stutter of any client. -/
def GreydState.StuttersListed (state : GreydState) : Prop :=
  toShort (configGetInt state.config "enable".toList (some "grey".toList) 1) = 0 ∨
    toShort state.greyStutter ≠ 0

instance (state : GreydState) : Decidable state.StuttersListed :=
  inferInstanceAs (Decidable (_ ∨ _))

/-- A write asks for one byte of the output buffer. -/
def Turn.SendsOne (t : Turn) : Prop :=
  ∀ result, t.act = .write result → toBeWritten (t.con.settleStutter t.now t.state) t.state = 1

/-- The clients stay below the tolerance limit. -/
def Turn.WithinMax (t : Turn) : Prop := t.state.clients + conClientTolerence < t.state.maxCons

/-- The client is accepted in this state of the daemon. -/
def AcceptedIn (state : GreydState) (src : Sockaddr) (state' : GreydState) (src' : Sockaddr) : Prop :=
  state' = state ∧ src' = src

/-- In every life of the client's connection whose clients stay below the limit, each write
asks for one byte. -/
def StutteredThroughout (env : ConEnv) (state : GreydState) (src : Sockaddr) : Prop :=
  ∀ turns p, ConLife env (AcceptedIn state src) turns p → (∀ t ∈ turns, t.WithinMax) →
    ∀ t ∈ turns, t.SendsOne

/-- A client on a list, with its stutter. -/
structure Con.Paced (stutter : Int) (con : Con) : Prop where
  stutter : con.stutter = stutter
  listed : con.listed = true

section Pace

variable {env : ConEnv} {now : Int} {nat : NatReply} {con con' : Con} {state : GreydState}
  {next : Con × GreydState} {k : Int}

theorem Con.Paced.congr (h : con.Paced k) (hstutter : con'.stutter = con.stutter)
    (hlists : con'.blacklists = con.blacklists) : con'.Paced k := by
  refine ⟨hstutter.trans h.stutter, ?_⟩
  unfold Con.listed
  rw [hlists]
  exact h.listed

@[simp] theorem Con.reply_stutter (con : Con) (text : CStr) (next : ConState) (now : Int) :
    (con.reply text next now).stutter = con.stutter := rfl
@[simp] theorem Con.takeMail_stutter (con : Con) : con.takeMail.stutter = con.stutter := rfl
@[simp] theorem Con.takeRcpt_stutter (con : Con) : con.takeRcpt.stutter = con.stutter := rfl

theorem conDone_paced (h : con.Paced k) : (conDone now con state).1.Paced k := by
  obtain ⟨_, _, _, _, hdone⟩ := conDone_frame now con state
  rw [hdone]
  exact h.congr rfl rfl

theorem NextStep.paced (h : NextStep env now nat con state next) (hpaced : con.Paced k) :
    next.1.fd = none ∨ next.1.Paced k := by
  cases h with
  | close _ => exact .inl rfl
  | refused _ _ => exact .inr (conDone_paced (hpaced.congr rfl rfl))
  | dataReply _ _ => exact .inr (conDone_paced (hpaced.congr rfl rfl))
  | badCmd _ => exact .inr (conDone_paced (hpaced.congr rfl rfl))
  | bodyEnd _ => exact .inr (conDone_paced (hpaced.congr rfl rfl))
  | reply _ => exact .inr (conDone_paced hpaced)
  | grey _ _ _ =>
    obtain ⟨_, hnat⟩ := conGetOrigDst_frame (con.takeRcpt.reply "250 OK\r\n".toList .rcptOut now)
      state nat
    rw [hnat]
    exact .inr (hpaced.congr (by simp) (by simp))
  | mail _ _ => exact .inr (hpaced.congr (by simp) (by simp))
  | rcpt _ _ _ => exact .inr (hpaced.congr (by simp) (by simp))
  | @stay text con' _ hcon _ =>
    have hpaced' : con'.Paced k := by
      rcases hcon with rfl | rfl
      · exact hpaced
      · exact hpaced.congr rfl rfl
    exact .inr (hpaced'.congr rfl rfl)
  | _ => exact .inr (hpaced.congr rfl rfl)

theorem conDone_fd_none (h : con.fd = none) : (conDone now con state).1.fd = none := by
  obtain ⟨_, _, _, _, hdone⟩ := conDone_frame now con state
  rw [hdone]
  exact h

/-- A closed connection is not opened again. -/
theorem NextStep.fd_none (h : NextStep env now nat con state next) (hfd : con.fd = none) :
    next.1.fd = none := by
  cases h with
  | close _ => rfl
  | refused _ _ | dataReply _ _ | badCmd _ | bodyEnd _ | reply _ => exact conDone_fd_none hfd
  | grey _ _ _ =>
    obtain ⟨_, hnat⟩ := conGetOrigDst_frame (con.takeRcpt.reply "250 OK\r\n".toList .rcptOut now)
      state nat
    rw [hnat]
    simpa using hfd
  | noHelo _ | helo _ => simpa [Con.setHelo] using hfd
  | mail _ _ | rcpt _ _ _ => simpa using hfd
  | stay _ hcon _ => rcases hcon with rfl | rfl <;> simpa [Con.countBad] using hfd
  | _ => exact hfd

theorem Con.Paced.settle (h : con.Paced k) (now : Int) (state : GreydState) :
    con.settleStutter now state = con := by
  unfold Con.settleStutter
  exact if_neg fun hgrey => by simp [h.listed] at hgrey

theorem TurnStep.paced {act : ConAct} (h : TurnStep env now nat con state act next)
    (hpaced : con.Paced k) : next.1.fd = none ∨ next.1.Paced k := by
  cases h with
  | readClosed _ => exact .inl rfl
  | readMore _ => exact .inr (hpaced.congr rfl rfl)
  | readLine _ => exact (conNextState_step ..).paced (hpaced.congr rfl rfl)
  | writeMore hwrote _ =>
    rw [hpaced.settle] at hwrote
    cases hwrote with
    | closed => exact .inl rfl
    | sent _ _ => exact .inr (hpaced.congr rfl rfl)
  | writeDone hwrote _ =>
    rw [hpaced.settle] at hwrote
    cases hwrote with
    | closed => exact .inl ((conNextState_step ..).fd_none rfl)
    | sent _ _ => exact (conNextState_step ..).paced (hpaced.congr rfl rfl)
  | close => exact .inl rfl

/-- The stutter a listed client is accepted with, where there are not too many of them. -/
theorem conInit_listed {src : Sockaddr} (hlisted : attachedLists state src ≠ [])
    (hblack : state.blackClients + 1 ≤ state.maxBlack) (fd : Nat) :
    conInit env fd src now nat state = conNextState env now nat
      (acceptedCon env fd src now (if state.StuttersListed then state.stutter else 0) state)
      { state with clients := state.clients + 1, blackClients := state.blackClients + 1 } := by
  have hempty : (attachedLists state src).isEmpty = false := List.isEmpty_eq_false_iff.mpr hlisted
  have hfew : ¬ state.blackClients + 1 > state.maxBlack := not_lt.mpr hblack
  have hstutter : (if toShort (configGetInt state.config "enable".toList (some "grey".toList) 1) ≠ 0 ∧
      toShort state.greyStutter = 0 then 0 else state.stutter) =
      if state.StuttersListed then state.stutter else 0 := by
    by_cases hs : state.StuttersListed
    · rw [if_pos hs, if_neg fun h => hs.elim h.1 fun hgrey => hgrey h.2]
    · rw [if_neg hs]
      obtain ⟨henabled, hgrey⟩ := not_or.mp hs
      exact if_pos ⟨henabled, not_not.mp hgrey⟩
  unfold conInit acceptedCon
  simp only [hempty, hfew, and_false, if_false, hstutter, Bool.false_eq_true]

theorem conInit_paced {src : Sockaddr} (hlisted : attachedLists state src ≠ [])
    (hblack : state.blackClients + 1 ≤ state.maxBlack) (fd : Nat) :
    (conInit env fd src now nat state).1.Paced (if state.StuttersListed then state.stutter else 0) := by
  rw [conInit_listed hlisted hblack]
  generalize (if state.StuttersListed then state.stutter else 0) = k
  have hopen := (acceptedCon_begins env fd src now k state).1
  have hpaced : (acceptedCon env fd src now k state).Paced k := by
    refine ⟨rfl, ?_⟩
    have hempty : (attachedLists state src).isEmpty = false := List.isEmpty_eq_false_iff.mpr hlisted
    show (!(attachedLists state src).isEmpty) = true
    rw [hempty]
    rfl
  generalize ({ state with clients := _, blackClients := _ } : GreydState) = state₁
  have hstep := conNextState_step env now nat (acceptedCon env fd src now k state) state₁
  have hfd : (acceptedCon env fd src now k state).fd = some fd := rfl
  rcases hstep.paced hpaced with hclosed | hpaced
  · rw [(hstep.staysOpen hopen).fd, hfd] at hclosed
    cases hclosed
  · exact hpaced

/-- The stutter of a listed client is the same in its whole life. -/
theorem ConLife.paced {src : Sockaddr} (hlisted : attachedLists state src ≠ [])
    (hblack : state.blackClients + 1 ≤ state.maxBlack) {turns : List Turn} {p : Con × GreydState}
    (h : ConLife env (AcceptedIn state src) turns p) :
    (∀ t ∈ turns, t.con.Paced (if state.StuttersListed then state.stutter else 0)) ∧
      (p.1.fd = none ∨ p.1.Paced (if state.StuttersListed then state.stutter else 0)) := by
  induction h with
  | accept haccept =>
    obtain ⟨rfl, rfl⟩ := haccept
    exact ⟨by simp, .inr (conInit_paced hlisted hblack _)⟩
  | @turn turns con state' t hlife hcon _ _ henabled ih =>
    subst hcon
    have hpaced := ih.2.resolve_left henabled.1
    refine ⟨?_, (henabled.step env t.nat hlife.hasRoom).paced hpaced⟩
    intro t' ht'
    rcases List.mem_cons.mp ht' with rfl | hold
    · exact hpaced
    · exact ih.1 t' hold

theorem Con.Paced.toBeWritten (h : con.Paced k) (hk : k ≠ 0)
    (hwithin : state.clients + conClientTolerence < state.maxCons) :
    toBeWritten (con.settleStutter now state) state = 1 := by
  rw [h.settle]
  exact if_pos ⟨hwithin, h.stutter ▸ hk⟩

/-- Without a stutter the whole text is to be written. -/
theorem Con.Paced.toBeWritten_all (h : con.Paced 0) :
    Greyd.toBeWritten (con.settleStutter now state) state = con.outRemaining := by
  rw [h.settle]
  exact if_neg fun hone => hone.2 h.stutter

end Pace

/-! ## A first reply that is written at once -/

/-- A text of two characters or more is pending. -/
structure Con.Pends (now : Int) (con : Con) : Prop where
  fd : con.fd ≠ none
  w : con.w = now
  long : 2 ≤ con.outRemaining

theorem print_length {con : Con} {c d : Char} {text : CStr} (hsize : con.outSize = conOutBufSize)
    (hc : c ≠ nul) (hd : d ≠ nul) : 2 ≤ (cstr (con.print (c :: d :: text)).outBuf).length := by
  have hbuf : ∃ rest, (con.print (c :: d :: text)).outBuf = c :: d :: rest := by
    unfold Con.print
    rw [hsize]
    exact ⟨_, rfl⟩
  obtain ⟨rest, hbuf⟩ := hbuf
  rw [hbuf]
  simp [cstr, hc, hd]

theorem reply_pends {con : Con} {c d : Char} {text : CStr} {next : ConState} (now : Int)
    (hfd : con.fd ≠ none) (hsize : con.outSize = conOutBufSize) (hstutter : con.stutter = 0)
    (hc : c ≠ nul) (hd : d ≠ nul) : (con.reply (c :: d :: text) next now).Pends now where
  fd := hfd
  w := by
    show now + con.stutter = now
    rw [hstutter, add_zero]
  long := Int.ofNat_le.mpr (print_length hsize hc hd)

section Reply

variable {env : ConEnv} {state : GreydState} {src : Sockaddr}

/-- A client that greets with QUIT, where a PROXY header is due, is answered at once. -/
theorem quit_pends {con : Con} (hstate : con.state = .proxyOut) (hbuf : con.inBuf = [])
    (hp : con.inP = 0) (hends : con.rEndChars = ['\n']) (hr : con.r ≠ 0) (hroom : con.inRemaining ≠ 0)
    (hfd : con.fd ≠ none) (hsize : con.outSize = conOutBufSize) (hstutter : con.stutter = 0) :
    (conHandleRead env 1 none (.data "QUIT\n".toList) con state).1.Pends 1 := by
  have hstored : (con.store "QUIT\n".toList).inBuf = "QUIT\n\x00".toList := by
    unfold Con.store
    dsimp only
    rw [hbuf, hp]
    rfl
  have hreceived : (con.received "QUIT\n".toList).inBuf = "QUIT\x00\x00".toList := by
    unfold Con.received
    dsimp only
    rw [hstored, show (con.store "QUIT\n".toList).inP = 5 by unfold Con.store; rw [hp]; rfl]
    rfl
  have hquit : (con.received "QUIT\n".toList).hasCommand "QUIT".toList = true := by
    unfold Con.hasCommand Con.input
    rw [hreceived]
    decide
  have hcompletes : con.Completes "QUIT\n".toList := by
    unfold Con.Completes
    rw [hstored, hp, hends]
    exact .inl ⟨by simp, by decide⟩
  have hstep := conHandleRead_step env 1 none (.data "QUIT\n".toList) con state hr hroom
  generalize conHandleRead env 1 none (.data "QUIT\n".toList) con state = next at hstep
  cases hstep with
  | readClosed hclosed => rcases hclosed with hclosed | hclosed <;> cases hclosed
  | readMore hmore => exact absurd hcompletes hmore
  | readLine _ =>
    have hopen : (con.received "QUIT\n".toList).state.code < ConState.close.code := by
      rw [show (con.received "QUIT\n".toList).state = con.state from rfl, hstate]
      decide
    unfold conNextState
    rw [if_pos ⟨hquit, hopen⟩]
    exact reply_pends 1 hfd hsize hstutter (show '2' ≠ nul by decide) (show '2' ≠ nul by decide)

/-- The rest of the daemon may have few clients. -/
def GreydState.quiet (state : GreydState) : GreydState := { state with clients := 0, maxCons := 100 }

/-- A connection without a stutter soon has a text of several characters to write. -/
theorem exists_pending (hlisted : attachedLists state src ≠ [])
    (hblack : state.blackClients + 1 ≤ state.maxBlack) (hoff : ¬ state.StuttersListed) :
    ∃ turns p, ConLife env (AcceptedIn state src) turns p ∧ (∀ t ∈ turns, t.WithinMax) ∧
      p.1.Pends 1 := by
  have haccept : ConLife env (AcceptedIn state src) [] (conInit env 0 src 1 none state) :=
    .accept ⟨rfl, rfl⟩
  have hinit := @conInit_listed env 1 none state src hlisted hblack 0
  rw [if_neg hoff] at hinit
  generalize ({ state with
    clients := state.clients + 1, blackClients := state.blackClients + 1 } : GreydState) = state₁ at hinit
  rw [hinit] at haccept
  by_cases henabled : state.proxyProtocolEnabled = true
  · have hwaits : conNextState env 1 none (acceptedCon env 0 src 1 0 state) state₁ =
        ((acceptedCon env 0 src 1 0 state).await .proxyOut 1, state₁) :=
      conNextState_proxyIn _ _ _ _ _ (if_pos henabled) rfl
    rw [hwaits] at haccept
    let t : Turn := ⟨(acceptedCon env 0 src 1 0 state).await .proxyOut 1, state₁.quiet, 1, none,
      .read (.data "QUIT\n".toList)⟩
    have hread : ConLife env (AcceptedIn state src) [t] (t.next env) :=
      .turn haccept rfl rfl rfl ⟨by simp [t, Con.await, Con.resetInput, acceptedCon],
        by simp [t, Con.await], by simp, by simp [t, Con.await, Con.resetInput, conBufSize]⟩
    refine ⟨_, _, hread, ?_, ?_⟩
    · intro t' ht'
      rw [List.mem_singleton.mp ht']
      exact show (0 : Int) + 5 < 100 by decide
    · have hfd : t.con.fd = some 0 := rfl
      exact quit_pends rfl rfl rfl rfl one_ne_zero (show (conBufSize : Int) - 1 ≠ 0 by decide)
        (by rw [hfd]; simp) rfl rfl
  · have hbanner : conNextState env 1 none (acceptedCon env 0 src 1 0 state) state₁ =
        conStart env 1 (acceptedCon env 0 src 1 0 state) state₁ := by
      have hstate : (acceptedCon env 0 src 1 0 state).state = .bannerIn := if_neg henabled
      have hquit : (acceptedCon env 0 src 1 0 state).hasCommand "QUIT".toList = false := by
        unfold Con.hasCommand Con.input
        exact show hasPrefixNocase (cstr []) "QUIT".toList = false by decide
      unfold conNextState
      rw [if_neg fun h => Bool.false_ne_true (hquit.symm.trans h.1), hstate,
        if_neg (by simp [ConState.code])]
    rw [hbanner] at haccept
    exact ⟨_, _, haccept, by simp, reply_pends 1 (by simp [acceptedCon]) rfl rfl
      (show '2' ≠ nul by decide) (show '2' ≠ nul by decide)⟩

/-- The first write of such a text asks for all of it. -/
theorem StutteredThroughout.settings (h : StutteredThroughout env state src)
    (hlisted : attachedLists state src ≠ []) (hblack : state.blackClients + 1 ≤ state.maxBlack) :
    state.StuttersListed := by
  by_contra hoff
  obtain ⟨turns, p, hlife, hwithin, hfd, hw, hlong⟩ :=
    @exists_pending env state src hlisted hblack hoff
  have hpaced := (hlife.paced hlisted hblack).2.resolve_left hfd
  rw [if_neg hoff] at hpaced
  let t : Turn := ⟨p.1, p.2.quiet, 1, none, .write ⟨-1, -1⟩⟩
  have hasked : toBeWritten (t.con.settleStutter 1 t.state) t.state = p.1.outRemaining :=
    hpaced.toBeWritten_all
  have hturn : ConLife env (AcceptedIn state src) (t :: turns) (t.next env) := by
    refine .turn hlife rfl rfl rfl ⟨hfd, ?_, hw.le, le_refl _, ?_⟩
    · rw [show t.con.w = 1 from hw]
      exact one_ne_zero
    · rw [hasked]
      exact show (-1 : Int) ≤ p.1.outRemaining by omega
  have hone := h (t :: turns) _ hturn (List.forall_mem_cons.mpr
    ⟨show (0 : Int) + 5 < 100 by decide, hwithin⟩) t List.mem_cons_self ⟨-1, -1⟩ rfl
  rw [hasked] at hone
  omega

end Reply

/-- Where clients on a list are stuttered at and there are not too many of them, each write to
such a client asks for one byte, exactly if the settings leave the stutter when the client is
accepted. -/
theorem stuttered_throughout_iff (env : ConEnv) (state : GreydState) (src : Sockaddr)
    (hstutter : 0 < state.stutter) (hlisted : attachedLists state src ≠ [])
    (hblack : state.blackClients + 1 ≤ state.maxBlack) :
    StutteredThroughout env state src ↔ state.StuttersListed := by
  constructor
  · intro h
    exact h.settings hlisted hblack
  · intro hon turns p hlife hwithin t ht result _
    have hpaced := (hlife.paced hlisted hblack).1 t ht
    rw [if_pos hon] at hpaced
    exact hpaced.toBeWritten hstutter.ne' (hwithin t ht)

/-- The listed client of a daemon that does not stutter at grey clients. -/
def quickGreyState : GreydState :=
  { listedState "Listed".toList with
    config := configAddSection configCreate
      (configSectionSet (configSectionCreate "grey".toList) "stutter".toList (.int 0)) }

theorem quickGreyState_listed : attachedLists quickGreyState listedSrc ≠ [] := by
  have hmessage : (attachedLists quickGreyState listedSrc).map (·.message) = ["Listed".toList] := by
    decide +kernel
  intro hnone
  rw [hnone] at hmessage
  cases hmessage

theorem stuttered_throughout_default :
    StutteredThroughout listedEnv (listedState "Listed".toList) listedSrc ↔
      (listedState "Listed".toList).StuttersListed :=
  stuttered_throughout_iff listedEnv (listedState "Listed".toList) listedSrc (by decide +kernel)
    quickGreyState_listed (by decide +kernel)

/-- With a grey stutter of 0 the listed client gets its first reply in one write. -/
theorem listed_not_stuttered : 0 < quickGreyState.stutter ∧
    attachedLists quickGreyState listedSrc ≠ [] ∧
    quickGreyState.blackClients + 1 ≤ quickGreyState.maxBlack ∧
    ¬ StutteredThroughout listedEnv quickGreyState listedSrc := by
  have hblack : quickGreyState.blackClients + 1 ≤ quickGreyState.maxBlack := by decide +kernel
  refine ⟨by decide +kernel, quickGreyState_listed, hblack, fun h => ?_⟩
  exact absurd (h.settings quickGreyState_listed hblack) (by decide +kernel)

end Greyd
