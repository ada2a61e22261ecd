import Greyd.Envelope
import Greyd.OutputWindow

/-!
# The course of the dialogue

Where a connection that awaits a command comes from, and what a line without a branch of its
own does: it is answered, counted, and leads back to where it was read.
-/
namespace Greyd

/-- The case of the switch in `Con_next_state` for a value of `con->state`; `none` is its
default, the exit for an illegal state. -/
def ConState.ofCode (code : Int) : Option ConState :=
  if code = -3 then some .proxyIn
  else if code = -2 then some .proxyOut
  else if code = -1 then some .bannerIn
  else if code = 0 then some .bannerOut
  else if code = 1 then some .heloIn
  else if code = 2 then some .heloOut
  else if code = 3 then some .mailIn
  else if code = 4 then some .mailOut
  else if code = 5 then some .rcptIn
  else if code = 6 then some .rcptOut
  else if code = 50 then some .dataIn
  else if code = 60 then some .dataOut
  else if code = 70 then some .message
  else if code = 98 then some .reply
  else if code = 99 then some .close
  else none

/-- The states a connection is in between two turns, without the proxy protocol. -/
def dialogueCodes : List Int := [0, 1, 2, 3, 4, 5, 6, 60, 70, 99]

/-- The states in which a command line is awaited, each with the state it was entered from. -/
def commandPairs : List (ConState × ConState) :=
  [(.heloIn, .bannerOut), (.mailIn, .heloOut), (.rcptIn, .mailOut), (.rcptIn, .rcptOut)]

/-- The commands that have a branch in the state. -/
def ConState.commands : ConState → List CStr
  | .heloIn => ["QUIT".toList, "HELO".toList, "EHLO".toList, "MAIL".toList, "RCPT".toList,
      "DATA".toList, "NOOP".toList]
  | .mailIn => ["QUIT".toList, "RSET".toList, "MAIL".toList, "RCPT".toList, "DATA".toList,
      "NOOP".toList]
  | .rcptIn => ["QUIT".toList, "RSET".toList, "RCPT".toList, "DATA".toList, "NOOP".toList]
  | .dataIn => ["QUIT".toList, "DATA".toList, "NOOP".toList]
  | _ => ["QUIT".toList]

/-- The line is looked at as a command, and no branch takes it. -/
def Con.Unrecognised (con : Con) : Prop :=
  con.InCommand ∧ con.state.commands.any con.hasCommand = false

instance (con : Con) : Decidable con.InCommand := inferInstanceAs (Decidable (_ ∨ _ ∨ _ ∨ _))

instance (con : Con) : Decidable con.Unrecognised := inferInstanceAs (Decidable (_ ∧ _))

def Con.Noop (con : Con) : Prop := con.InCommand ∧ con.hasCommand "NOOP".toList = true

instance (con : Con) : Decidable con.Noop := inferInstanceAs (Decidable (_ ∧ _))

/-- The turn completes an unrecognised line. -/
def Turn.unrecognised (t : Turn) : Bool := t.line.any fun con => decide con.Unrecognised

/-- The connection after a line that is not recognised. -/
def Con.unknownCommand (con : Con) : Con := (con.print "500 Command unrecognized\r\n".toList).countBad

section Steps

variable {env : ConEnv} {now : Int} {nat : NatReply} {con : Con} {state : GreydState}
  {next : Con × GreydState}

@[simp] theorem Con.print_outSize (text : CStr) : (con.print text).outSize = con.outSize := rfl
@[simp] theorem Con.stay_outSize : (con.stay now).outSize = con.outSize := rfl
@[simp] theorem Con.countBad_outSize : con.countBad.outSize = con.outSize := rfl
@[simp] theorem Con.countBad_fd : con.countBad.fd = con.fd := rfl
@[simp] theorem Con.takeRcpt_badCmd : con.takeRcpt.badCmd = con.badCmd := rfl
@[simp] theorem Con.reply_badCmd (text : CStr) (n : ConState) :
    (con.reply text n now).badCmd = con.badCmd := rfl

theorem conSpam_noop (h : con.hasCommand "NOOP".toList = true) :
    conSpam now con state = ((con.print "250 OK\r\n".toList).stay now, state) := by
  have hdata := Con.hasCommand_other (b := "DATA".toList) h (by decide) (by decide)
  unfold conSpam
  rw [if_neg (by rw [hdata]; simp), if_pos h]

theorem conSpam_unknown (hdata : con.hasCommand "DATA".toList = false)
    (hnoop : con.hasCommand "NOOP".toList = false) :
    conSpam now con state =
      if con.badCmd + 1 > conMaxBadCmd then conDone now con.unknownCommand.toReply state
      else (con.unknownCommand.stay now, state) := by
  unfold conSpam
  rw [if_neg (by rw [hdata]; simp), if_neg (by rw [hnoop]; simp)]
  rfl

/-- A line that no branch in front of the last takes. -/
theorem conNextState_spam (hin : con.InCommand)
    (h : ∀ c ∈ con.state.commands, c ≠ "DATA".toList → c ≠ "NOOP".toList →
      con.hasCommand c = false) :
    conNextState env now nat con state = conSpam now con state := by
  have hrcpt : con.hasCommand "RCPT".toList = false → conRcpt now nat con state =
      conSpam now con state := by
    intro hno
    unfold conRcpt
    rw [if_neg (by rw [hno]; simp)]
  have hmail : con.hasCommand "MAIL".toList = false → conMail now nat con state =
      conRcpt now nat con state := by
    intro hno
    unfold conMail
    rw [if_neg (by rw [hno]; simp)]
  have hno : ∀ c ∈ con.state.commands, c ≠ "DATA".toList → c ≠ "NOOP".toList →
      ¬ con.hasCommand c = true := by
    intro c hc hdata hnoop
    rw [h c hc hdata hnoop]
    simp
  unfold conNextState
  unfold Con.InCommand at hin
  rcases hin with hs | hs | hs | hs <;> rw [hs] at h hno ⊢
  · rw [if_neg fun hq => hno _ (by decide) (by decide) (by decide) hq.1,
      if_neg (by simp [ConState.code])]
    show conHelo now nat con state = _
    unfold conHelo
    rw [if_neg fun hc => hc.elim (hno _ (by decide) (by decide) (by decide))
        (hno _ (by decide) (by decide) (by decide)),
      hmail (h _ (by decide) (by decide) (by decide)),
      hrcpt (h _ (by decide) (by decide) (by decide))]
  · rw [if_neg fun hq => hno _ (by decide) (by decide) (by decide) hq.1,
      if_neg fun hr => hno _ (by decide) (by decide) (by decide) hr.1]
    show conMail now nat con state = _
    rw [hmail (h _ (by decide) (by decide) (by decide)),
      hrcpt (h _ (by decide) (by decide) (by decide))]
  · rw [if_neg fun hq => hno _ (by decide) (by decide) (by decide) hq.1,
      if_neg fun hr => hno _ (by decide) (by decide) (by decide) hr.1]
    exact hrcpt (h _ (by decide) (by decide) (by decide))
  · rw [if_neg fun hq => hno _ (by decide) (by decide) (by decide) hq.1,
      if_neg (by simp [ConState.code])]

theorem conNextState_noop (h : con.Noop) :
    conNextState env now nat con state = ((con.print "250 OK\r\n".toList).stay now, state) := by
  rw [conNextState_spam h.1 ?_, conSpam_noop h.2]
  intro c hc _ hne
  have hin := h.1
  unfold Con.InCommand at hin
  apply Con.hasCommand_other h.2
  · rcases hin with hs | hs | hs | hs <;> rw [hs] at hc <;> revert c <;> decide
  · rcases hin with hs | hs | hs | hs <;> rw [hs] at hc <;> revert c <;> decide

theorem conNextState_unrecognised (h : con.Unrecognised) :
    conNextState env now nat con state =
      if con.badCmd + 1 > conMaxBadCmd then conDone now con.unknownCommand.toReply state
      else (con.unknownCommand.stay now, state) := by
  obtain ⟨hin, hno⟩ := h
  rw [List.any_eq_false] at hno
  have hno' : ∀ c ∈ con.state.commands, con.hasCommand c = false := fun c hc =>
    Bool.eq_false_iff.mpr (hno c hc)
  rw [conNextState_spam hin fun c hc _ _ => hno' c hc]
  unfold Con.InCommand at hin
  apply conSpam_unknown <;> apply hno' <;>
    rcases hin with hs | hs | hs | hs <;> rw [hs] <;> decide

/-! ### Only unrecognised lines are counted -/

theorem conDone_badCmd (con : Con) : (conDone now con state).1.badCmd = con.badCmd := by
  obtain ⟨_, _, _, _, hdone⟩ := conDone_frame now con state
  rw [hdone]

theorem hasCommand_tail {c : CStr} {cs : List CStr} (h : (c :: cs).any con.hasCommand = true)
    (hno : ¬ con.hasCommand c = true) : cs.any con.hasCommand = true := by
  rw [List.any_cons, Bool.or_eq_true] at h
  exact h.resolve_left hno

theorem conSpam_badCmd (h : ["DATA".toList, "NOOP".toList].any con.hasCommand = true) :
    (conSpam now con state).1.badCmd = con.badCmd := by
  unfold conSpam
  split
  · dsimp only
    split
    · exact conDone_badCmd _
    · rfl
  · next hdata =>
    split
    · rfl
    · next hnoop => exact absurd (hasCommand_tail (hasCommand_tail h hdata) hnoop) (by simp)

theorem conRcpt_badCmd
    (h : ["RCPT".toList, "DATA".toList, "NOOP".toList].any con.hasCommand = true) :
    (conRcpt now nat con state).1.badCmd = con.badCmd := by
  unfold conRcpt
  split
  · dsimp only
    split
    · obtain ⟨_, hnat⟩ := conGetOrigDst_frame (con.takeRcpt.reply "250 OK\r\n".toList .rcptOut now)
        state nat
      show (conGetOrigDst (con.takeRcpt.reply "250 OK\r\n".toList .rcptOut now) state nat).badCmd = _
      rw [hnat, Con.reply_badCmd, Con.takeRcpt_badCmd]
    · rfl
  · next hrcpt => exact conSpam_badCmd (hasCommand_tail h hrcpt)

theorem conMail_badCmd
    (h : ["MAIL".toList, "RCPT".toList, "DATA".toList, "NOOP".toList].any con.hasCommand = true) :
    (conMail now nat con state).1.badCmd = con.badCmd := by
  unfold conMail
  split
  · rfl
  · next hmail => exact conRcpt_badCmd (hasCommand_tail h hmail)

theorem conHelo_badCmd
    (h : ["HELO".toList, "EHLO".toList, "MAIL".toList, "RCPT".toList, "DATA".toList,
      "NOOP".toList].any con.hasCommand = true) :
    (conHelo now nat con state).1.badCmd = con.badCmd := by
  unfold conHelo
  split
  · dsimp only
    split <;> rfl
  · next hhelo =>
    rw [not_or] at hhelo
    exact conMail_badCmd (hasCommand_tail (hasCommand_tail h hhelo.1) hhelo.2)

theorem conNextState_recognised (hin : con.InCommand)
    (h : con.state.commands.any con.hasCommand = true) :
    (conNextState env now nat con state).1.badCmd = con.badCmd := by
  unfold conNextState
  unfold Con.InCommand at hin
  split
  · rfl
  · next hquit =>
    split
    · rfl
    · next hrset =>
      have hno : ¬ con.hasCommand "QUIT".toList = true := by
        intro hq
        apply hquit ⟨hq, ?_⟩
        rcases hin with hs | hs | hs | hs <;> rw [hs] <;> decide
      rcases hin with hs | hs | hs | hs <;> rw [hs] at h hrset ⊢
      · exact conHelo_badCmd (hasCommand_tail h hno)
      · exact conMail_badCmd (hasCommand_tail (hasCommand_tail h hno) fun hr => hrset ⟨hr, by decide⟩)
      · exact conRcpt_badCmd (hasCommand_tail (hasCommand_tail h hno) fun hr => hrset ⟨hr, by decide⟩)
      · exact conSpam_badCmd (hasCommand_tail h hno)

theorem conNextState_badCmd (hin : con.InCommand) :
    (conNextState env now nat con state).1.badCmd =
      con.badCmd + if con.Unrecognised then 1 else 0 := by
  by_cases h : con.Unrecognised
  · rw [conNextState_unrecognised h, if_pos h]
    split
    · exact conDone_badCmd _
    · rfl
  · rw [if_neg h]
    exact conNextState_recognised hin (Bool.eq_true_of_not_eq_false fun hno => h ⟨hin, hno⟩)

/-- Where no command is looked at, nothing is counted. -/
theorem NextStep.sameBadCmd (h : NextStep env now nat con state next) (hno : ¬ con.InCommand) :
    next.1.badCmd = con.badCmd := by
  have hmail : ¬ (con.state = .heloIn ∨ con.state = .mailIn) :=
    fun hs => hno (hs.imp_right .inl)
  have hrcpt : ¬ (con.state = .heloIn ∨ con.state = .mailIn ∨ con.state = .rcptIn) :=
    fun hs => hno (hs.imp_right fun hs => hs.imp_right .inl)
  cases h with
  | refused _ _ => exact conDone_badCmd _
  | dataReply hin _ => exact absurd hin hno
  | badCmd hin => exact absurd hin hno
  | stay hin _ _ => exact absurd hin hno
  | data hin => exact absurd hin hno
  | bodyEnd _ => exact conDone_badCmd _
  | reply _ => exact conDone_badCmd _
  | rcpt hs _ _ => exact absurd hs hrcpt
  | grey hs _ _ => exact absurd hs hrcpt
  | mail hs _ => exact absurd hs hmail
  | noHelo hs => exact absurd (.inl hs) hno
  | helo hs => exact absurd (.inl hs) hno
  | quit _ _ => rfl
  | rset _ _ => rfl
  | await _ => rfl
  | banner _ => rfl
  | proxied _ _ _ => rfl
  | body _ => rfl
  | close _ => rfl

/-! ### States and buffers -/

theorem Awaits.inDialogue {s n : ConState} (h : Awaits s n) (hno : s ≠ .proxyIn) :
    n.code ∈ dialogueCodes := by
  cases h with
  | proxy => exact absurd rfl hno
  | _ => decide

/-- A step from a state of the dialogue leads to one. -/
theorem NextStep.inDialogue (h : NextStep env now nat con state next)
    (hs : con.state.code ∈ -1 :: dialogueCodes)
    (hback : con.InCommand → Awaits con.lastState con.state) :
    next.1.state.code ∈ dialogueCodes := by
  have hdone : ∀ con : Con, (conDone now con state).1.state.code ∈ dialogueCodes := by
    intro con
    obtain ⟨_, _, _, _, hdone⟩ := conDone_frame now con state
    rw [hdone]
    show (99 : Int) ∈ dialogueCodes
    decide
  cases h with
  | await hwaits =>
    show ConState.code _ ∈ dialogueCodes
    have hno : con.state ≠ .proxyIn := by
      intro hproxy
      rw [hproxy] at hs
      exact absurd hs (by decide)
    exact hwaits.inDialogue hno
  | stay hin hcon _ =>
    have hlast := (hback hin).back hin
    have hnext : ∀ con' : Con, con'.lastState = con.lastState →
        con'.lastState.code ∈ dialogueCodes := by
      intro con' heq
      rw [heq]
      rcases hlast with hs | hs | hs | hs <;> rw [hs] <;> decide
    rcases hcon with rfl | rfl
    · exact hnext _ rfl
    · exact hnext con.countBad rfl
  | grey _ _ _ =>
    obtain ⟨_, hnat⟩ := conGetOrigDst_frame (con.takeRcpt.reply "250 OK\r\n".toList .rcptOut now)
      state nat
    rw [hnat, Con.reply_state]
    decide
  | refused _ _ => exact hdone _
  | dataReply _ _ => exact hdone _
  | badCmd _ => exact hdone _
  | bodyEnd _ => exact hdone _
  | reply _ => exact hdone _
  | body hstate =>
    show con.state.code ∈ dialogueCodes
    rw [hstate]
    decide
  | close hstate =>
    show con.state.code ∈ dialogueCodes
    rw [hstate]
    decide
  | quit _ _ => exact show (99 : Int) ∈ dialogueCodes by decide
  | rset _ _ => exact show (2 : Int) ∈ dialogueCodes by decide
  | banner _ => exact show (0 : Int) ∈ dialogueCodes by decide
  | proxied _ _ _ => exact show (0 : Int) ∈ dialogueCodes by decide
  | noHelo _ => exact show (0 : Int) ∈ dialogueCodes by decide
  | helo _ => exact show (2 : Int) ∈ dialogueCodes by decide
  | mail _ _ =>
    rw [Con.reply_state]
    decide
  | rcpt _ _ _ =>
    rw [Con.reply_state]
    decide
  | data _ => exact show (60 : Int) ∈ dialogueCodes by decide

/-- An open connection has an output buffer, until its final reply is ordered. -/
def Con.Buffered (con : Con) : Prop :=
  con.fd = none ∨ con.state = .close ∨ con.outSize = conOutBufSize

theorem Con.Buffered.congr {con' : Con} (h : con.Buffered) (hopen : con.state ≠ .close)
    (hfd : con'.fd = con.fd) (hsize : con'.outSize = con.outSize) : con'.Buffered := by
  rcases h with h | h | h
  · exact .inl (hfd.trans h)
  · exact absurd h hopen
  · exact .inr (.inr (hsize.trans h))

theorem NextStep.buffered (h : NextStep env now nat con state next) (hopen : con.state ≠ .close)
    (hbuf : con.Buffered) : next.1.Buffered := by
  cases h with
  | quit _ _ => exact .inr (.inl rfl)
  | mail _ _ => exact hbuf.congr hopen (by simp) (by simp)
  | rcpt _ _ _ => exact hbuf.congr hopen (by simp) (by simp)
  | grey _ _ _ =>
    obtain ⟨_, hnat⟩ := conGetOrigDst_frame (con.takeRcpt.reply "250 OK\r\n".toList .rcptOut now)
      state nat
    rw [hnat]
    exact hbuf.congr hopen (by simp) (by simp)
  | stay _ hcon _ => rcases hcon with rfl | rfl <;> exact hbuf.congr hopen (by simp) (by simp)
  | refused _ _ => exact .inr (.inl rfl)
  | dataReply _ _ => exact .inr (.inl rfl)
  | badCmd _ => exact .inr (.inl rfl)
  | bodyEnd _ => exact .inr (.inl rfl)
  | reply _ => exact .inr (.inl rfl)
  | close hclose => exact absurd hclose hopen
  | rset _ _ => exact hbuf.congr hopen rfl rfl
  | await _ => exact hbuf.congr hopen rfl rfl
  | banner _ => exact hbuf.congr hopen rfl rfl
  | proxied _ _ _ => exact hbuf.congr hopen rfl rfl
  | noHelo _ => exact hbuf.congr hopen rfl rfl
  | helo _ => exact hbuf.congr hopen rfl rfl
  | data _ => exact hbuf.congr hopen rfl rfl
  | body _ => exact hbuf.congr hopen rfl rfl

theorem conNextState_buffered (hbuf : con.Buffered) :
    (conNextState env now nat con state).1.Buffered := by
  by_cases hopen : con.state = .close
  · rw [conNextState_close env now nat con state hopen]
    exact .inl rfl
  · exact (conNextState_step env now nat con state).buffered hopen hbuf

end Steps

/-! ## The course of a turn -/

/-- What is neither part of the dialogue nor written to. -/
structure Con.SameInput (con con' : Con) : Prop where
  inBuf : con'.inBuf = con.inBuf
  badCmd : con'.badCmd = con.badCmd

/-- The connection has been closed, or its output buffer and its lists are those it had. -/
def Con.SameBuffer (con con' : Con) : Prop :=
  con'.fd = none ∨
    (con'.fd = con.fd ∧ con'.outSize = con.outSize ∧ con'.blacklists = con.blacklists)

theorem Con.Buffered.same {con con' : Con} (h : con.Buffered) (hstate : con'.state = con.state)
    (hsize : con.SameBuffer con') : con'.Buffered := by
  rcases hsize with hfd | ⟨hfd, hsize, -⟩
  · exact .inl hfd
  · rcases h with h | h | h
    · exact .inl (hfd.trans h)
    · exact .inr (.inl (hstate.trans h))
    · exact .inr (.inr (hsize.trans h))

/-- A turn has a completed line looked at, or has the next step taken once the output is
written, or does neither. -/
inductive Turn.Course (env : ConEnv) (t : Turn) : Con × GreydState → Prop
  | line {bytes} : t.con.r ≠ 0 → t.line = some (t.con.received bytes) →
      Course env t (conNextState env t.now t.nat (t.con.received bytes) t.state)
  | written {con state} : t.line = none → t.con.w ≠ 0 → t.con.SameDialogue con →
      t.con.SameInput con → t.con.SameBuffer con →
      Course env t (conNextState env t.now t.nat con state)
  | quiet {next : Con × GreydState} : t.line = none → t.con.SameDialogue next.1 →
      next.1.badCmd = t.con.badCmd → t.con.SameBuffer next.1 →
      (t.con.r = 0 → next.1.inBuf = t.con.inBuf ∧ (next.1.fd = none ∨ next.1.outRemaining ≠ 0)) →
      Course env t next

theorem Con.SameInput.settleStutter (con : Con) (now : Int) (state : GreydState) :
    con.SameInput (con.settleStutter now state) := by
  unfold Con.settleStutter
  split <;> constructor <;> rfl

theorem Wrote.frame {now : Int} {con : Con} {state : GreydState} {result : WriteResult}
    {next : Con × GreydState} (h : Wrote (con.settleStutter now state) state result next) :
    con.SameInput next.1 ∧ con.SameBuffer next.1 := by
  obtain ⟨hin, hbad⟩ := Con.SameInput.settleStutter con now state
  obtain ⟨_, hsettle⟩ := con.settleStutter_frame now state
  have hfd : (con.settleStutter now state).fd = con.fd := by rw [hsettle]
  have hsize : (con.settleStutter now state).outSize = con.outSize := by rw [hsettle]
  have hlists : (con.settleStutter now state).blacklists = con.blacklists := by rw [hsettle]
  generalize con.settleStutter now state = settled at h hin hbad hfd hsize hlists
  cases h with
  | closed => exact ⟨⟨hin, hbad⟩, .inl rfl⟩
  | sent _ _ => exact ⟨⟨hin, hbad⟩, .inr ⟨hfd, hsize, hlists⟩⟩

section Lives

variable {env : ConEnv} {accepts : GreydState → Sockaddr → Prop} {turns : List Turn} {t : Turn}
  {line : Con} {p : Con × GreydState}

theorem Turn.course (henabled : t.act.Enabled t.now t.con t.state) (hroom : t.con.HasRoom) :
    t.Course env (t.next env) := by
  have hstep := henabled.step env t.nat hroom
  unfold Turn.next
  generalize hact : t.act = act at hstep henabled ⊢
  generalize act.run env t.now t.nat t.con t.state = next at hstep ⊢
  cases hstep with
  | readClosed hresult =>
    have hline : t.line = none := by
      unfold Turn.line
      rcases hresult with rfl | rfl <;> rw [hact]
    exact .quiet hline (by constructor <;> rfl) rfl (.inl rfl) fun hr => absurd hr henabled.reads
  | @readMore bytes hmore =>
    have hline : t.line = none := by
      unfold Turn.line
      rw [hact]
      exact if_neg hmore
    exact .quiet hline (by constructor <;> rfl) rfl (.inr ⟨rfl, rfl, rfl⟩) fun hr =>
      absurd hr henabled.reads
  | @readLine bytes hline =>
    refine .line henabled.reads ?_
    unfold Turn.line
    rw [hact]
    exact if_pos hline
  | writeMore hwrote hleft =>
    have hline : t.line = none := by
      unfold Turn.line
      rw [hact]
    obtain ⟨⟨hin, hbad⟩, hsize⟩ := hwrote.frame
    exact .quiet hline (hwrote.same _).1 hbad hsize fun _ => ⟨hin, .inr hleft⟩
  | writeDone hwrote _ =>
    have hline : t.line = none := by
      unfold Turn.line
      rw [hact]
    obtain ⟨⟨hin, hbad⟩, hsize⟩ := hwrote.frame
    exact .written hline henabled.2.1 (hwrote.same 0).1 ⟨hin, hbad⟩ hsize
  | close =>
    have hline : t.line = none := by
      unfold Turn.line
      rw [hact]
    exact .quiet hline (by constructor <;> rfl) rfl (.inl rfl) fun _ => ⟨rfl, .inl rfl⟩

/-- What holds of a connection when its turns have been counted. -/
structure Con.Counted (turns : List Turn) (con : Con) : Prop where
  inDialogue : con.state.code ∈ dialogueCodes
  buffered : con.Buffered
  badCmd : con.badCmd = turns.countP Turn.unrecognised

theorem Con.Counted.turn (h : t.con.Counted turns) (halt : t.con.Alternates)
    (hcourse : t.Course env p) : p.1.Counted (t :: turns) := by
  obtain ⟨hdialogue, hbuf, hbad⟩ := h
  have hno : t.line = none → (t :: turns).countP Turn.unrecognised = t.con.badCmd := by
    intro hline
    rw [List.countP_cons, hbad, Turn.unrecognised, hline]
    rfl
  cases hcourse with
  | @line bytes hr hline =>
    have hstep := conNextState_step env t.now t.nat (t.con.received bytes) t.state
    refine ⟨hstep.inDialogue (List.mem_cons_of_mem _ hdialogue) halt.back,
      conNextState_buffered ?_, ?_⟩
    · exact hbuf
    · rw [List.countP_cons, ← hbad, Turn.unrecognised, hline, Option.any_some]
      by_cases hin : (t.con.received bytes).InCommand
      · rw [conNextState_badCmd hin]
        simp only [decide_eq_true_eq]
        rfl
      · rw [hstep.sameBadCmd hin, if_neg (by simpa using fun hu => hin hu.1)]
        rfl
  | @written con state hline hw hsame hinput hsize =>
    have hstep := conNextState_step env t.now t.nat con state
    have hin : ¬ con.InCommand := by
      intro hin
      unfold Con.InCommand at hin
      rw [hsame.state] at hin
      exact hw (halt.command hin)
    refine ⟨hstep.inDialogue ?_ fun hc => absurd hc hin,
      conNextState_buffered (hbuf.same hsame.state hsize), ?_⟩
    · rw [hsame.state]
      exact List.mem_cons_of_mem _ hdialogue
    · rw [hstep.sameBadCmd hin, hinput.badCmd, hno hline]
  | quiet hline hsame hbad' hsize _ =>
    refine ⟨?_, hbuf.same hsame.state hsize, ?_⟩
    · rw [hsame.state]
      exact hdialogue
    · rw [hbad', hno hline]

theorem conInit_counted (fd : Nat) (src : Sockaddr) (now : Int) (nat : NatReply)
    {state : GreydState} (hproxy : state.proxyProtocolEnabled = false) :
    (conInit env fd src now nat state).1.Counted [] := by
  obtain ⟨stutter, hinit⟩ := conInit_eq env fd src now nat state
  have hin := (acceptedCon_begins env fd src now stutter state).2
  rw [hinit]
  generalize hcon : acceptedCon env fd src now stutter state = con at hin ⊢
  generalize ({ state with clients := _, blackClients := _ } : GreydState) = state₁
  have hstate : con.state = .bannerIn := by
    rw [← hcon, acceptedCon, hproxy]
    rfl
  have hstep := conNextState_step env now nat con state₁
  refine ⟨hstep.inDialogue ?_ fun hc => absurd hc hin, conNextState_buffered ?_, ?_⟩
  · rw [hstate]
    exact List.mem_cons_self
  · rw [← hcon]
    exact .inr (.inr rfl)
  · rw [hstep.sameBadCmd hin, ← hcon]
    rfl

theorem ConLife.counted (h : ConLife env (fun state _ => state.proxyProtocolEnabled = false) turns p) :
    p.1.Counted turns := by
  induction h with
  | accept hproxy => exact conInit_counted _ _ _ _ hproxy
  | turn hlife hcon _ _ henabled ih =>
    subst hcon
    exact ih.turn hlife.carries.alternates (Turn.course henabled hlife.hasRoom)

/-! ## Where a skipped line leads -/

/-- The texts of the connection are those of another. -/
structure Con.SameTexts (con con' : Con) : Prop where
  helo : con'.helo = con.helo
  mail : con'.mail = con.mail
  rcpt : con'.rcpt = con.rcpt

/-- After a line that changes nothing, as long as no further command is looked at: the
connection is closed, or its reply is not yet written, or it awaits a command as it did. -/
inductive LeadsBack (line con : Con) : Prop
  | closed : con.fd = none → LeadsBack line con
  | replying : con.state = line.lastState → con.outRemaining ≠ 0 → line.SameTexts con →
      LeadsBack line con
  | back : con.state = line.state → con.lastState = line.lastState → line.SameTexts con →
      LeadsBack line con

/-- The reply to the line is being written. -/
structure Con.Replying (line con : Con) : Prop where
  state : con.state = line.lastState
  pending : con.fd = none ∨ con.outRemaining ≠ 0
  inBuf : con.inBuf = line.inBuf
  texts : line.SameTexts con

/-- A line that only has a reply sent. -/
def Con.Skips (line : Con) : Prop := line.Noop ∨ line.Unrecognised

theorem Con.Skips.inCommand (h : line.Skips) : line.InCommand := h.elim And.left And.left

theorem Con.Skips.quit (h : line.Skips) : line.hasCommand "QUIT".toList = false := by
  rcases h with h | ⟨hin, hno⟩
  · exact Con.hasCommand_other h.2 (by decide) (by decide)
  · apply Bool.eq_false_iff.mpr
    apply List.any_eq_false.mp hno
    unfold Con.InCommand at hin
    rcases hin with hs | hs | hs | hs <;> rw [hs] <;> decide

theorem Con.Skips.rset (h : line.Skips) (hs : line.state = .rcptIn) :
    line.hasCommand "RSET".toList = false := by
  rcases h with h | ⟨-, hno⟩
  · exact Con.hasCommand_other h.2 (by decide) (by decide)
  · apply Bool.eq_false_iff.mpr
    apply List.any_eq_false.mp hno
    rw [hs]
    decide

/-- Once the reply is written the connection awaits the next command. -/
theorem conNextState_await {now : Int} {nat : NatReply} {con : Con} {state : GreydState}
    (hskips : line.Skips) (hawaits : Awaits line.lastState line.state)
    (hstate : con.state = line.lastState) (hbuf : con.inBuf = line.inBuf) :
    conNextState env now nat con state = (con.await line.state now, state) := by
  have hsame : ∀ c, con.hasCommand c = line.hasCommand c := by
    intro c
    unfold Con.hasCommand Con.input
    rw [hbuf]
  have hquit : ¬ con.hasCommand "QUIT".toList = true := by
    rw [hsame, hskips.quit]
    simp
  have hrset : line.state = .rcptIn → ¬ con.hasCommand "RSET".toList = true := by
    intro hs
    rw [hsame, hskips.rset hs]
    simp
  have hin := hskips.inCommand
  unfold Con.InCommand at hin
  unfold conNextState
  rw [if_neg fun hq => hquit hq.1, hstate]
  generalize line.lastState = l at hawaits
  generalize line.state = s at hawaits hin hrset
  cases hawaits with
  | proxy => simp at hin
  | data => simp at hin
  | banner => rw [if_neg fun hr => absurd hr.2.1 (by decide)]
  | helo => rw [if_neg fun hr => absurd hr.2.1 (by decide)]
  | mail => rw [if_neg fun hr => hrset rfl hr.1]
  | rcpt => rw [if_neg fun hr => hrset rfl hr.1]

theorem replying_stay {now : Int} {con : Con} (hlast : con.lastState = line.lastState)
    (hout : 0 < (cstr con.outBuf).length) (hbuf : con.inBuf = line.inBuf)
    (htexts : line.SameTexts con) : line.Replying (con.stay now) where
  state := hlast
  pending := .inr (Int.natCast_pos.mpr hout).ne'
  inBuf := hbuf
  texts := ⟨htexts.helo, htexts.mail, htexts.rcpt⟩

theorem Turn.next_of_line (hline : t.line = some line)
    (henabled : t.act.Enabled t.now t.con t.state) (hroom : t.con.HasRoom) :
    (∃ bytes, line = t.con.received bytes) ∧
      t.next env = conNextState env t.now t.nat line t.state := by
  have hcourse := @Turn.course env _ henabled hroom
  generalize t.next env = next at hcourse ⊢
  cases hcourse with
  | @line bytes _ hreceived =>
    rw [hline, Option.some.injEq] at hreceived
    exact ⟨⟨bytes, hreceived⟩, by rw [hreceived]⟩
  | written hnone _ _ _ _ =>
    rw [hline] at hnone
    cases hnone
  | quiet hnone _ _ _ _ =>
    rw [hline] at hnone
    cases hnone

/-- The turn in which the line is read. -/
theorem replying_of_skips {now : Int} {nat : NatReply} {state : GreydState} (hskips : line.Skips)
    (hopen : line.fd ≠ none) (hbuf : line.Buffered)
    (hfew : line.Unrecognised → line.badCmd < conMaxBadCmd) :
    line.Replying (conNextState env now nat line state).1 := by
  have hsize : line.outSize = conOutBufSize := by
    have hin := hskips.inCommand
    unfold Con.InCommand at hin
    rcases hbuf with hfd | hclose | hsize
    · exact absurd hfd hopen
    · rw [hclose] at hin
      simp at hin
    · exact hsize
  have hout : ∀ text : CStr, text.getD 0 nul ≠ nul → 0 < (cstr (line.print text).outBuf).length :=
    fun text htext => cstr_pos (Con.print_head (by rw [hsize]; decide) htext)
  by_cases hnoop : line.Noop
  · rw [conNextState_noop hnoop]
    exact replying_stay rfl (hout _ (by decide)) rfl ⟨rfl, rfl, rfl⟩
  · have hunknown := hskips.resolve_left hnoop
    rw [conNextState_unrecognised hunknown, if_neg (by have := hfew hunknown; omega)]
    exact replying_stay rfl (hout _ (by decide)) rfl ⟨rfl, rfl, rfl⟩

/-- A turn while the reply is being written. -/
theorem Con.Replying.turn (h : line.Replying t.con) (hskips : line.Skips)
    (hawaits : Awaits line.lastState line.state) (halt : t.con.Alternates)
    (hcourse : t.Course env p) :
    line.Replying p.1 ∨ (p.1.state = line.state ∧ p.1.lastState = line.lastState ∧
      line.SameTexts p.1) := by
  obtain ⟨hstate, -, hinBuf, hhelo, hmail, hrcpt⟩ := h
  have hr : t.con.r = 0 := halt.out (hstate ▸ hawaits)
  cases hcourse with
  | line hreads _ => exact absurd hr hreads
  | @written con state _ _ hsame hinput _ =>
    right
    rw [conNextState_await hskips hawaits (hsame.state.trans hstate) (hinput.inBuf.trans hinBuf)]
    exact ⟨rfl, hsame.state.trans hstate, hsame.helo.trans hhelo, hsame.mail.trans hmail,
      hsame.rcpt.trans hrcpt⟩
  | quiet _ hsame _ _ hquiet =>
    left
    obtain ⟨hbuf, hpending⟩ := hquiet hr
    exact ⟨hsame.state.trans hstate, hpending, hbuf.trans hinBuf, hsame.helo.trans hhelo,
      hsame.mail.trans hmail, hsame.rcpt.trans hrcpt⟩

theorem ConLife.split {later before : List Turn} (hlife : ConLife env accepts (later ++ t :: before) p) :
    ∃ state, ConLife env accepts before (t.con, state) ∧ t.act.Enabled t.now t.con t.state := by
  induction later generalizing p with
  | nil =>
    cases hlife with
    | turn hbefore hcon _ _ henabled =>
      subst hcon
      exact ⟨_, hbefore, henabled⟩
  | cons u later ih =>
    cases hlife with
    | turn hbefore _ _ _ _ => exact ih hbefore

/-- The turns up to the next command. -/
theorem ConLife.leadsBack {later before : List Turn}
    (hlife : ConLife env (fun state _ => state.proxyProtocolEnabled = false)
      (later ++ t :: before) p)
    (hline : t.line = some line) (hskips : line.Skips)
    (hfew : line.Unrecognised → before.countP Turn.unrecognised < conMaxBadCmd)
    (hlater : ∀ u ∈ later, ¬ u.con.InCommand) :
    line.Replying p.1 ∨ (p.1.state = line.state ∧ p.1.lastState = line.lastState ∧
      line.SameTexts p.1) := by
  obtain ⟨_, hbefore, henabled⟩ := hlife.split
  obtain ⟨⟨bytes, hreceived⟩, hnext⟩ := @Turn.next_of_line env _ _ hline henabled hbefore.hasRoom
  have hcounted := hbefore.counted
  have hawaits : Awaits line.lastState line.state := by
    rw [hreceived]
    apply hbefore.carries.alternates.back
    have hin := hskips.inCommand
    rw [hreceived] at hin
    exact hin
  induction later generalizing p with
  | nil =>
    cases hlife with
    | turn _ _ _ _ _ =>
      left
      rw [hnext]
      apply replying_of_skips hskips
      · rw [hreceived]
        exact henabled.1
      · rw [hreceived]
        exact hcounted.buffered
      · intro hunknown
        rw [hreceived]
        exact hcounted.badCmd.trans_lt (hfew hunknown)
  | cons u later ih =>
    cases hlife with
    | turn hlater' hcon _ _ henabled' =>
      subst hcon
      have hcourse := @Turn.course env _ henabled' hlater'.hasRoom
      rcases ih hlater' fun v hv => hlater v (List.mem_cons_of_mem u hv) with h | ⟨hstate, -, -⟩
      · exact h.turn hskips hawaits hlater'.carries.alternates hcourse
      · refine absurd ?_ (hlater u List.mem_cons_self)
        unfold Con.InCommand
        rw [hstate]
        exact hskips.inCommand

/-- Without the proxy protocol: a connection is never in an illegal state, and where it awaits
a command it comes from one of four states. A line that is skipped leads back to where it was
read, with the texts unchanged; the 21st unrecognised line has the final reply sent. -/
theorem smtp_dialogue
    (hlife : ConLife env (fun state _ => state.proxyProtocolEnabled = false) turns p) :
    (p.1.state.code ∈ dialogueCodes ∧ ConState.ofCode p.1.state.code = some p.1.state) ∧
    (p.1.InCommand → (p.1.state, p.1.lastState) ∈ commandPairs) ∧
    (∀ later t before line, turns = later ++ t :: before → t.line = some line →
      (line.Noop ∨ (line.Unrecognised ∧ before.countP Turn.unrecognised < conMaxBadCmd)) →
      (∀ u ∈ later, ¬ u.con.InCommand) → LeadsBack line p.1) ∧
    ∀ t before line, turns = t :: before → t.line = some line → line.Unrecognised →
      before.countP Turn.unrecognised = conMaxBadCmd →
      p = conDone t.now line.unknownCommand.toReply t.state ∧ p.1.state = .close := by
  have hcounted := hlife.counted
  refine ⟨⟨hcounted.inDialogue, ?_⟩, ?_, ?_, ?_⟩
  · cases p.1.state <;> rfl
  · intro hin
    have hback := hlife.carries.alternates.back hin
    have hdialogue := hcounted.inDialogue
    unfold Con.InCommand at hin
    generalize p.1.state = s at hin hback hdialogue ⊢
    generalize p.1.lastState = l at hback ⊢
    cases hback with
    | proxy => simp at hin
    | data => simp at hin
    | _ => decide
  · rintro later t before line rfl hline hskips hlater
    have hskips' : line.Skips := hskips.imp_right And.left
    have hfew : line.Unrecognised → before.countP Turn.unrecognised < conMaxBadCmd := by
      intro hunknown
      rcases hskips with hnoop | ⟨-, hfew⟩
      · have hno := hunknown.2
        have hin := hunknown.1
        unfold Con.InCommand at hin
        rw [List.any_eq_false] at hno
        refine absurd hnoop.2 (hno _ ?_)
        rcases hin with hs | hs | hs | hs <;> rw [hs] <;> decide
      · exact hfew
    rcases hlife.leadsBack hline hskips' hfew hlater with h | ⟨hstate, hlast, htexts⟩
    · rcases h.pending with hfd | hleft
      · exact .closed hfd
      · exact .replying h.state hleft h.texts
    · exact .back hstate hlast htexts
  · rintro t before line rfl hline hunknown hcount
    cases hlife with
    | turn hbefore hcon _ _ henabled =>
      subst hcon
      obtain ⟨⟨bytes, hreceived⟩, hnext⟩ :=
        @Turn.next_of_line env _ _ hline henabled hbefore.hasRoom
      have hbad : line.badCmd = conMaxBadCmd := by
        rw [hreceived]
        exact hbefore.counted.badCmd.trans hcount
      rw [hnext, conNextState_unrecognised hunknown, if_pos (by omega)]
      exact ⟨rfl, rfl⟩

end Lives

/-- The greeting, a NOOP and the reply to it. -/
def noopLife : List Turn × (Con × GreydState) :=
  playTurns plainEnv none
    [(2, .write ⟨1, 48⟩), (2, .read (.data "NOOP\r\n".toList)), (3, .write ⟨1, 8⟩)] [] plainStart

theorem smtp_dialogue_noop : (noopLife.2.1.state, noopLife.2.1.lastState) ∈ commandPairs := by
  have hstart : ConLife plainEnv (fun state _ => state.proxyProtocolEnabled = false) [] plainStart :=
    .accept rfl
  have hlife : ConLife plainEnv (fun state _ => state.proxyProtocolEnabled = false) noopLife.1
      noopLife.2 := hstart.play (by decide +kernel)
  exact (smtp_dialogue hlife).2.1 (by decide +kernel)

end Greyd
