import Greyd.SessionRuns

/-!
# RSET (con.c)

RSET takes the transaction back to its first stage and leaves the addresses where they are:
what two transactions differ in, a later line shows.
-/
namespace Greyd

/-! ## Connections that wait for a line -/

/-- The input buffer between two turns. -/
structure Con.Sound (con : Con) : Prop where
  ends : con.rEndChars = ['\n']
  room : con.r ≠ 0 → con.inP + con.inRemaining = conBufSize - 1
  buffered : con.Buffered

section Steps

variable {env : ConEnv} {now : Int} {nat : NatReply} {con con' : Con} {state : GreydState}
  {next : Con × GreydState}

@[simp] theorem Con.reply_rEndChars (con : Con) (text : CStr) (n : ConState) (now : Int) :
    (con.reply text n now).rEndChars = con.rEndChars := rfl
@[simp] theorem Con.takeMail_rEndChars (con : Con) : con.takeMail.rEndChars = con.rEndChars := rfl
@[simp] theorem Con.takeRcpt_rEndChars (con : Con) : con.takeRcpt.rEndChars = con.rEndChars := rfl
@[simp] theorem Con.stay_rEndChars (con : Con) (now : Int) :
    (con.stay now).rEndChars = con.rEndChars := rfl
@[simp] theorem Con.print_rEndChars (con : Con) (text : CStr) :
    (con.print text).rEndChars = con.rEndChars := rfl

theorem conDone_reads (con : Con) : (conDone now con state).1.r = con.r ∧
    (conDone now con state).1.rEndChars = con.rEndChars := by
  obtain ⟨_, _, _, _, hdone⟩ := conDone_frame now con state
  rw [hdone]
  exact ⟨rfl, rfl⟩

/-- A step ends with nothing read, or with the buffer reset. -/
theorem NextStep.reads (h : NextStep env now nat con state next) :
    next.1.rEndChars = con.rEndChars ∧
      (next.1.r = con.r ∨ next.1.inP = 0 ∧ next.1.inRemaining = conBufSize - 1) := by
  have hdone : ∀ con' : Con, con'.rEndChars = con.rEndChars → con'.r = con.r →
      (conDone now con' state).1.rEndChars = con.rEndChars ∧
        ((conDone now con' state).1.r = con.r ∨ (conDone now con' state).1.inP = 0 ∧
          (conDone now con' state).1.inRemaining = conBufSize - 1) := by
    intro con' hends hr
    obtain ⟨hr', hends'⟩ := @conDone_reads now state con'
    exact ⟨hends'.trans hends, .inl (hr'.trans hr)⟩
  cases h with
  | await _ => exact ⟨rfl, .inr ⟨rfl, rfl⟩⟩
  | body _ => exact ⟨rfl, .inr ⟨rfl, rfl⟩⟩
  | refused _ _ => exact hdone _ rfl rfl
  | dataReply _ _ => exact hdone _ rfl rfl
  | badCmd _ => exact hdone _ rfl rfl
  | bodyEnd _ => exact hdone _ rfl rfl
  | reply _ => exact hdone _ rfl rfl
  | mail _ _ => exact ⟨by simp, .inl (by simp)⟩
  | rcpt _ _ _ => exact ⟨by simp, .inl (by simp)⟩
  | grey _ _ _ =>
    rw [conGetOrigDst_eq]
    exact ⟨by simp, .inl (by simp)⟩
  | stay _ hcon _ =>
    rcases hcon with rfl | rfl <;> exact ⟨by simp [Con.countBad], .inl (by simp [Con.countBad])⟩
  | _ => exact ⟨rfl, .inl rfl⟩

theorem conNextState_sound (hends : con.rEndChars = ['\n']) (hr : con.r = 0) (hbuf : con.Buffered) :
    (conNextState env now nat con state).1.Sound := by
  obtain ⟨hends', hreads⟩ := (conNextState_step env now nat con state).reads
  refine ⟨hends'.trans hends, fun hr' => ?_, conNextState_buffered hbuf⟩
  rcases hreads with hsame | ⟨hp, hremaining⟩
  · exact absurd (hsame.trans hr) hr'
  · rw [hp, hremaining]
    norm_num

end Steps

section Lives

variable {env : ConEnv} {accepts : GreydState → Sockaddr → Prop} {turns before : List Turn} {t : Turn}
  {p : Con × GreydState}

theorem Con.Sound.settle {con : Con} (h : con.Sound) (now : Int) (state : GreydState) :
    (con.settleStutter now state).Sound := by
  obtain ⟨_, hsettle⟩ := con.settleStutter_frame now state
  rw [hsettle]
  exact ⟨h.ends, h.room, h.buffered⟩

theorem Turn.sound (henabled : t.act.Enabled t.now t.con t.state) (hroom : t.con.HasRoom)
    (halt : t.con.Alternates) (hsound : t.con.Sound) : (t.next env).1.Sound := by
  have hstep := henabled.step env t.nat hroom
  unfold Turn.next
  generalize t.act = act at hstep henabled ⊢
  generalize act.run env t.now t.nat t.con t.state = next at hstep ⊢
  cases hstep with
  | readClosed _ => exact ⟨hsound.ends, hsound.room, .inl rfl⟩
  | @readMore bytes _ =>
    refine ⟨hsound.ends, fun _ => ?_, hsound.buffered⟩
    have hroom := hsound.room henabled.reads
    show ((t.con.inP + bytes.length : Nat) : Int) + (t.con.inRemaining - bytes.length) = _
    rw [← hroom]
    push_cast
    ring
  | readLine _ => exact conNextState_sound hsound.ends rfl hsound.buffered
  | @writeMore result con' state' hwrote _ =>
    have hsettled := hsound.settle t.now t.state
    generalize t.con.settleStutter t.now t.state = settled at hwrote hsettled
    cases hwrote with
    | closed => exact ⟨hsettled.ends, hsettled.room, .inl rfl⟩
    | sent _ _ => exact ⟨hsettled.ends, hsettled.room, hsettled.buffered⟩
  | @writeDone result con' state' hwrote _ =>
    have hsettled := hsound.settle t.now t.state
    have hr : (t.con.settleStutter t.now t.state).r = 0 := by
      obtain ⟨_, hsettle⟩ := t.con.settleStutter_frame t.now t.state
      rw [hsettle]
      exact halt.one.resolve_right henabled.2.1
    generalize t.con.settleStutter t.now t.state = settled at hwrote hsettled hr
    cases hwrote with
    | closed => exact conNextState_sound hsettled.ends hr (.inl rfl)
    | sent _ _ => exact conNextState_sound hsettled.ends hr hsettled.buffered
  | close => exact ⟨hsound.ends, hsound.room, .inl rfl⟩

theorem ConLife.sound (h : ConLife env accepts turns p) : p.1.Sound := by
  induction h with
  | @accept fd src now nat state _ =>
    obtain ⟨stutter, hinit⟩ := conInit_eq env fd src now nat state
    rw [hinit]
    exact conNextState_sound rfl rfl (.inr (.inr rfl))
  | turn hlife hcon _ _ henabled ih =>
    subst hcon
    exact Turn.sound henabled hlife.hasRoom hlife.carries.alternates ih

end Lives

/-- An open connection awaits a command, and nothing of the next line is read. -/
structure Con.HonoursRset (con : Con) : Prop where
  fd : con.fd ≠ none
  reads : con.r ≠ 0
  state : con.state = .mailIn ∨ con.state = .rcptIn
  empty : con.inP = 0

instance (con : Con) : Decidable con.HonoursRset :=
  decidable_of_iff (con.fd ≠ none ∧ con.r ≠ 0 ∧ (con.state = .mailIn ∨ con.state = .rcptIn) ∧
    con.inP = 0) ⟨fun ⟨a, b, c, d⟩ => ⟨a, b, c, d⟩, fun ⟨a, b, c, d⟩ => ⟨a, b, c, d⟩⟩

/-- The line and its end are read at once. -/
def crlfLine (line : CStr) : List Char := line ++ "\r\n".toList

/-- A line as a client sends it. -/
structure PlainLine (line : CStr) : Prop where
  noNul : nul ∉ line
  noCr : '\r' ∉ line
  noLf : '\n' ∉ line
  short : line.length < 100

instance (line : CStr) : Decidable (PlainLine line) :=
  decidable_of_iff (nul ∉ line ∧ '\r' ∉ line ∧ '\n' ∉ line ∧ line.length < 100)
    ⟨fun ⟨a, b, c, d⟩ => ⟨a, b, c, d⟩, fun ⟨a, b, c, d⟩ => ⟨a, b, c, d⟩⟩

section Reading

variable {con : Con} {line : CStr}

theorem store_inBuf (hempty : con.inP = 0) : (con.store (crlfLine line)).inBuf =
    line ++ '\r' :: '\n' :: nul :: con.inBuf.drop (line.length + 3) := by
  unfold Con.store crlfLine
  dsimp only
  rw [hempty]
  simp [overwrite]

theorem trimEnd_front {line rest : List Char} (hline : PlainLine line) :
    trimEnd (line ++ rest) line.length = line.length := by
  rcases line.eq_nil_or_concat with rfl | ⟨front, c, rfl⟩
  · rfl
  · have hcr := hline.noCr
    have hlf := hline.noLf
    simp only [List.concat_eq_append, List.mem_append, List.mem_singleton, not_or] at hcr hlf
    rw [List.concat_eq_append, List.length_append, List.length_singleton, trimEnd, if_neg]
    rw [List.append_assoc, List.getD_append_right _ _ _ _ le_rfl, Nat.sub_self]
    rintro (h | h)
    · exact hcr.2 h.symm
    · exact hlf.2 h.symm

theorem received_input (hempty : con.inP = 0) (hline : PlainLine line) :
    (con.received (crlfLine line)).input = line := by
  have hp : (con.store (crlfLine line)).inP = line.length + 2 := by
    show con.inP + (crlfLine line).length = _
    rw [hempty, zero_add]
    simp [crlfLine]
  have htrim : trimEnd (con.store (crlfLine line)).inBuf (con.store (crlfLine line)).inP =
      line.length := by
    rw [hp, store_inBuf hempty, trimEnd, if_pos (.inr (by simp)), trimEnd, if_pos (.inl (by simp))]
    exact trimEnd_front hline
  show cstr (overwrite (con.store (crlfLine line)).inBuf (trimEnd _ _) [nul]) = line
  rw [htrim, store_inBuf hempty, overwrite, List.take_left, List.append_assoc]
  exact cstr_append_nul hline.noNul _

theorem completes (hempty : con.inP = 0) (hends : con.rEndChars = ['\n']) (hline : PlainLine line) :
    con.Completes (crlfLine line) := by
  left
  rw [hends, hempty, store_inBuf hempty]
  refine ⟨by simp, List.any_eq_true.mpr ⟨'\n', ?_, by simp⟩⟩
  have hcstr : cstr (line ++ '\r' :: '\n' :: nul :: con.inBuf.drop (line.length + 3)) =
      line ++ ['\r', '\n'] := by
    have hno : nul ∉ line ++ ['\r', '\n'] := by
      simp only [List.mem_append, not_or]
      exact ⟨hline.noNul, by decide⟩
    have h := cstr_append_nul hno (con.inBuf.drop (line.length + 3))
    rwa [List.append_assoc] at h
  rw [List.drop_zero, hcstr]
  simp

end Reading

/-! ## Lives that go on -/

section GoingOn

variable {env : ConEnv} {accepts : GreydState → Sockaddr → Prop} {turns : List Turn}
  {p : Con × GreydState}

theorem conWrite_one (con : Con) (state : GreydState) :
    ∃ seen, conWrite con state ⟨1, 1⟩ = ((con.sawCr seen).sent 1, state) := by
  refine ⟨decide (con.outBuf.getD con.outP nul = '\r'), ?_⟩
  unfold conWrite
  dsimp only
  rw [if_neg (by simp), if_neg (by simp)]
  rfl

/-- Once the reply is written, the next command is awaited. -/
theorem conNextState_answered {con : Con} {state : GreydState} {now : Int} (hgreeted : con.Greeted)
    (hanswers : con.state.Answers) : ∃ n, (n = .mailIn ∨ n = .rcptIn) ∧
      conNextState env now none con state = (con.await n now, state) := by
  have hquit := hgreeted.quit hanswers
  have hrset := hgreeted.rset
  unfold conNextState
  rw [if_neg (by rw [hquit]; simp)]
  rcases hanswers with hs | hs | hs
  · rw [if_neg (by rw [hs]; simp [ConState.code]), hs]
    exact ⟨_, .inl rfl, rfl⟩
  · rw [if_neg (by rw [hrset (.inl hs)]; simp), hs]
    exact ⟨_, .inr rfl, rfl⟩
  · rw [if_neg (by rw [hrset (.inr hs)]; simp), hs]
    exact ⟨_, .inr rfl, rfl⟩

/-- A reply is to be written. -/
structure Con.IsReplying (con : Con) : Prop where
  fd : con.fd ≠ none
  w : con.w ≠ 0
  pending : 0 < con.outRemaining
  state : con.state.Answers

theorem Con.settleStutter_stutter (con : Con) (now : Int) (state : GreydState) :
    (con.settleStutter now state).stutter = con.stutter ∨
      (con.settleStutter now state).stutter = 0 := by
  unfold Con.settleStutter
  split
  · exact .inr rfl
  · exact .inl rfl

/-- The connection once a byte of its reply is sent. -/
structure Con.SentByte (con sent : Con) : Prop where
  fd : sent.fd ≠ none
  state : sent.state.Answers
  greeted : sent.Greeted
  remaining : sent.outRemaining = con.outRemaining - 1

/-- A byte of the reply is written, and the next one is due at a time other than 0. -/
theorem ConLife.writeByte {con : Con} {state : GreydState}
    (hlife : ConLife env accepts turns (con, state)) (hgreeted : con.Greeted)
    (hreplies : con.IsReplying) : ∃ t now due sent, t.said = none ∧ now ≠ 0 ∧ due ≠ 0 ∧
      con.SentByte sent ∧ ConLife env accepts (t :: turns)
        (if con.outRemaining - 1 = 0 then conNextState env now none (sent.wait 0) state
          else (sent.wait due, state)) := by
  obtain ⟨hfd, hw, hpending, hanswers⟩ := hreplies
  -- late enough for this write and for the next one
  obtain ⟨now, hnow⟩ : ∃ now : Int, now = |con.w| + |con.stutter| + 1 := ⟨_, rfl⟩
  have habs := abs_nonneg con.w
  have habs' := abs_nonneg con.stutter
  have hle := le_abs_self con.w
  have hge := neg_abs_le con.stutter
  let t : Turn := ⟨con, state, now, none, .write ⟨1, 1⟩⟩
  obtain ⟨stutter, hsettle⟩ := con.settleStutter_frame now state
  have hstutter : stutter = con.stutter ∨ stutter = 0 := by
    have h := con.settleStutter_stutter now state
    rwa [hsettle] at h
  have henabled : t.act.Enabled t.now t.con t.state := by
    refine ⟨hfd, hw, ?_, by decide, ?_⟩
    · show con.w ≤ now
      omega
    · show 1 ≤ toBeWritten (con.settleStutter now state) state
      rw [hsettle]
      unfold toBeWritten
      split
      · exact le_refl 1
      · exact hpending
  obtain ⟨seen, hwrite⟩ := conWrite_one (con.settleStutter now state) state
  have hnext : t.next env =
      (if con.outRemaining - 1 = 0 then conNextState env now none
          ((((con.settleStutter now state).sawCr seen).sent 1).wait 0) state
        else ((((con.settleStutter now state).sawCr seen).sent 1).wait (now + stutter), state)) := by
    refine (conHandleWrite_eq env now none ⟨1, 1⟩ con state hw).trans ?_
    rw [hwrite, hsettle]
    rfl
  have hturn : ConLife env accepts (t :: turns) (t.next env) := .turn hlife rfl rfl rfl henabled
  rw [hnext] at hturn
  refine ⟨t, now, now + stutter, _, rfl, by omega, by omega, ?_, hturn⟩
  rw [hsettle]
  exact ⟨hfd, hanswers, hgreeted.congr rfl rfl, rfl⟩

/-- The reply is written one byte at a time. -/
theorem ConLife.drain (hlife : ConLife env accepts turns p) (hgreeted : p.1.Greeted)
    (hreplies : p.1.IsReplying) : ∃ later q, ConLife env accepts (later ++ turns) q ∧
      saidIn later = [] ∧ q.1.Greeted ∧ q.1.HonoursRset := by
  obtain ⟨con, state⟩ := p
  generalize hn : con.outRemaining.toNat = n
  induction n generalizing con state turns with
  | zero =>
    have hpending := hreplies.pending
    dsimp only at hpending
    omega
  | succ n ih =>
    obtain ⟨t, now, due, sent, hsaid, hnow, hdue, hsent, hturn⟩ := hlife.writeByte hgreeted hreplies
    have hpending : 0 < con.outRemaining := hreplies.pending
    have hremaining := hsent.remaining
    by_cases hlast : con.outRemaining - 1 = 0
    · rw [if_pos hlast] at hturn
      obtain ⟨m, hm, hawait⟩ := @conNextState_answered env (sent.wait 0) state now
        (hsent.greeted.congr rfl rfl) hsent.state
      rw [hawait] at hturn
      refine ⟨[t], _, hturn, ?_, ?_, ?_⟩
      · rw [saidIn_cons, hsaid]
        rfl
      · apply Con.Greeted.of_state
        · show m.AfterHelo
          rcases hm with rfl | rfl <;> decide
        · show ¬ m.Answers
          rcases hm with rfl | rfl <;> simp [ConState.Answers]
      · exact ⟨hsent.fd, hnow, hm, rfl⟩
    · rw [if_neg hlast] at hturn
      have hmore : (sent.wait due).IsReplying :=
        ⟨hsent.fd, hdue, show 0 < sent.outRemaining by omega, hsent.state⟩
      obtain ⟨later, q, hq, hquiet, hdone⟩ := ih _ _ hturn (hsent.greeted.congr rfl rfl) hmore
        (show sent.outRemaining.toNat = n by omega)
      refine ⟨later ++ [t], q, by rwa [List.append_assoc], ?_, hdone⟩
      rw [saidIn_append, hquiet, saidIn_cons, hsaid]
      rfl

/-- A command that is answered with 250 in the given stage. -/
def Said.Answered (stage : Stage) (said : Said) : Prop :=
  said.hasCommand "RSET".toList = true ∨ said.hasCommand "RCPT".toList = true ∨
    (stage = .mail ∧ said.hasCommand "MAIL".toList = true)

theorem reply_isReplying {con : Con} {next : ConState} {now : Int} (hfd : con.fd ≠ none)
    (hsize : con.outSize = conOutBufSize) (hw : now + con.stutter ≠ 0) (hnext : next.Answers) :
    (con.reply "250 OK\r\n".toList next now).IsReplying where
  fd := hfd
  w := hw
  pending := Int.natCast_pos.mpr (cstr_pos (Con.print_head (by rw [hsize]; decide) (by decide)))
  state := hnext

theorem conNextState_isReplying {con : Con} {state : GreydState} {now : Int} {nat : NatReply}
    (hstate : con.state = .mailIn ∨ con.state = .rcptIn) (hfd : con.fd ≠ none)
    (hsize : con.outSize = conOutBufSize) (hw : now + con.stutter ≠ 0)
    (hanswered : (con.said nat).Answered con.state.stage) :
    (conNextState env now nat con state).1.IsReplying := by
  rcases hanswered with hrset | hrcpt | ⟨hstage, hmail⟩
  · have hquit := Transaction.hasCommand_other (b := "QUIT".toList) hrset (by decide) (by decide)
    have hcode : ConState.heloOut.code < con.state.code ∧ con.state.code < ConState.dataIn.code := by
      rcases hstate with hs | hs <;> rw [hs] <;> decide
    unfold conNextState
    rw [if_neg fun h => Bool.false_ne_true (hquit.symm.trans h.1), if_pos ⟨hrset, hcode⟩]
    exact reply_isReplying hfd hsize hw (.inl rfl)
  · have hquit := Transaction.hasCommand_other (b := "QUIT".toList) hrcpt (by decide) (by decide)
    have hrset := Transaction.hasCommand_other (b := "RSET".toList) hrcpt (by decide) (by decide)
    have hmail := Transaction.hasCommand_other (b := "MAIL".toList) hrcpt (by decide) (by decide)
    have htake : (conRcpt now nat con state).1.IsReplying := by
      have hreply : (con.takeRcpt.reply "250 OK\r\n".toList .rcptOut now).IsReplying :=
        reply_isReplying hfd hsize hw (.inr (.inr rfl))
      rw [conRcpt_taken hrcpt]
      split
      · rw [conGetOrigDst_eq]
        exact ⟨hreply.fd, hreply.w, hreply.pending, hreply.state⟩
      · exact hreply
    have hskip : conMail now nat con state = conRcpt now nat con state :=
      if_neg fun h => Bool.false_ne_true (hmail.symm.trans h)
    unfold conNextState
    rw [if_neg fun h => Bool.false_ne_true (hquit.symm.trans h.1),
      if_neg fun h => Bool.false_ne_true (hrset.symm.trans h.1)]
    rcases hstate with hs | hs <;> rw [hs]
    · exact hskip ▸ htake
    · exact htake
  · have hs : con.state = .mailIn := by
      rcases hstate with hs | hs
      · exact hs
      · rw [hs] at hstage
        cases hstage
    rw [conNextState_mail (.inr hs) hmail]
    exact reply_isReplying hfd hsize hw (.inr (.inl rfl))

/-- The client sends one more line. -/
theorem ConLife.say {said : Said} (hlife : ConLife env accepts turns p) (hgreeted : p.1.Greeted)
    (hready : p.1.HonoursRset) (hplain : PlainLine said.line)
    (hanswered : said.Answered p.1.state.stage) :
    ∃ later q, ConLife env accepts (later ++ turns) q ∧ saidIn later = [said] ∧ q.1.Greeted ∧
      q.1.HonoursRset := by
  obtain ⟨con, state⟩ := p
  obtain ⟨hfd, hr, hstate, hempty⟩ := hready
  dsimp only at hfd hr hstate hempty hanswered hgreeted
  have hsound : con.Sound := hlife.sound
  have hsize : con.outSize = conOutBufSize := by
    rcases hsound.buffered with hclosed | hclose | hsize
    · exact absurd hclosed hfd
    · rw [hclose] at hstate
      simp at hstate
    · exact hsize
  let now : Int := |con.stutter| + 1
  have hw : now + con.stutter ≠ 0 := by
    have habs := neg_abs_le con.stutter
    omega
  let t : Turn := ⟨con, state, now, said.nat, .read (.data (crlfLine said.line))⟩
  have hlen : (crlfLine said.line).length = said.line.length + 2 := by simp [crlfLine]
  have henabled : t.act.Enabled t.now t.con t.state := by
    refine ⟨hfd, hr, ?_, ?_⟩
    · simp [crlfLine]
    · have hroom := hsound.room hr
      have hshort := hplain.short
      show ((crlfLine said.line).length : Int) ≤ con.inRemaining
      rw [hempty] at hroom
      rw [hlen]
      have hsize : (conBufSize : Int) = 8192 := rfl
      omega
  have hline : t.line = some (con.received (crlfLine said.line)) :=
    if_pos (completes hempty hsound.ends hplain)
  have hsaid : t.said = some said := by
    unfold Turn.said
    rw [hline]
    show some (⟨(con.received _).input, said.nat⟩ : Said) = _
    rw [received_input hempty hplain]
  have hturn : ConLife env accepts (t :: turns) (t.next env) := .turn hlife rfl rfl rfl henabled
  obtain ⟨-, hnext⟩ := @Turn.next_of_line env _ _ hline henabled hlife.hasRoom
  have hback : Awaits con.lastState con.state := by
    apply hlife.carries.alternates.back
    unfold Con.InCommand
    tauto
  have hreplies : (t.next env).1.IsReplying := by
    rw [hnext]
    apply @conNextState_isReplying env (con.received (crlfLine said.line)) state now said.nat hstate
      hfd hsize hw
    show Said.Answered _ ⟨(con.received (crlfLine said.line)).input, said.nat⟩
    rw [received_input hempty hplain]
    exact hanswered
  have hgreeted' : (t.next env).1.Greeted := by
    rw [hnext]
    exact @conNextState_greeted env now said.nat (con.received (crlfLine said.line)) state hstate hback
  obtain ⟨later, q, hq, hquiet, hdone⟩ := hturn.drain hgreeted' hreplies
  refine ⟨later ++ [t], q, by rwa [List.append_assoc], ?_, hdone⟩
  rw [saidIn_append, hquiet, saidIn_cons, hsaid]
  rfl

/-- Every line is one that is answered with 250 where it is said. -/
def Transaction.Takes (party : Party) (txn : Transaction) : List Said → Prop
  | [] => True
  | said :: rest => PlainLine said.line ∧ said.Answered txn.stage ∧
      (txn.hear party said).Takes party rest

/-- The client sends one line after the other. -/
theorem ConLife.sayAll {hello : Turn} {before c : List Turn} {lines : List Said}
    (hlife : ConLife env accepts (c ++ hello :: before) p) (hhello : hello.SaysHello env)
    (hready : p.1.HonoursRset)
    (htakes : p.1.transaction.Takes ((hello.next env).1.party (hello.next env).2) lines) :
    ∃ d q, ConLife env accepts (d ++ (c ++ hello :: before)) q ∧ saidIn d = lines := by
  induction lines generalizing c p with
  | nil => exact ⟨[], p, hlife, rfl⟩
  | cons said lines ih =>
    obtain ⟨hplain, hanswered, hrest⟩ := htakes
    have hsession := hlife.session hhello
    obtain ⟨later, q, hq, hsaid, -, hready'⟩ :=
      hlife.say hsession.greeted hready hplain hanswered
    rw [← List.append_assoc] at hq
    have hhear : q.1.transaction =
        p.1.transaction.hear ((hello.next env).1.party (hello.next env).2) said := by
      rw [(hq.session hhello).transaction, saidIn_append, hsaid, hsession.transaction]
      unfold Transaction.hearAll
      rw [List.foldl_append]
      rfl
    obtain ⟨d, q', hq', hd⟩ := ih hq hready' (hhear ▸ hrest)
    refine ⟨d ++ later, q', by simpa only [List.append_assoc] using hq', ?_⟩
    rw [saidIn_append, hsaid, hd]
    rfl

end GoingOn

/-! ## What RSET leaves -/

section Reset

variable {env : ConEnv} {accepts : GreydState → Sockaddr → Prop} {before c c' : List Turn}
  {hello : Turn} {p p' : Con × GreydState} {party : Party} {txn : Transaction}

theorem mailBuffer_text {args : List CStr} (hargs : ∀ arg ∈ args, nul ∉ arg) :
    ∃ s, MailText (mailBuffer args) s := by
  induction args with
  | nil => exact ⟨[], .empty⟩
  | cons arg args ih =>
    rw [List.forall_mem_cons] at hargs
    obtain ⟨s, hs⟩ := ih hargs.2
    refine ⟨_, hs.normalize (fun h => hargs.1 (List.mem_of_mem_take h)) ?_⟩
    exact (List.length_take_le _ _).trans_lt (by decide)

theorem MailText.cstr {buf : List Char} {s : CStr} (h : MailText buf s) : MailText buf (Greyd.cstr buf) := by
  rw [h.holds.cstr]
  exact h

/-- The buffers of a connection hold its addresses. -/
theorem ConLife.texts {turns : List Turn} (h : ConLife env accepts turns p) :
    p.1.transaction.Texts (cstr p.1.mail) (cstr p.1.rcpt) := by
  have hcarries := h.carries
  constructor
  · show MailText p.1.mail _
    rw [hcarries.mail]
    obtain ⟨s, hs⟩ := @mailBuffer_text (mailCommands turns) fun arg harg => by
      obtain ⟨t, -, ht⟩ := List.mem_filterMap.mp harg
      exact nul_not_mem_mailFrom ht
    exact hs.cstr
  · show MailText p.1.rcpt _
    rw [hcarries.rcpt]
    obtain ⟨s, hs⟩ := @mailBuffer_text (rcptCommands turns) fun arg harg => by
      obtain ⟨t, -, ht⟩ := List.mem_filterMap.mp harg
      exact nul_not_mem_rcptTo ht
    exact hs.cstr

/-- A turn without an unrecognised line. -/
theorem Turn.sameBadCmd {t : Turn} (halt : t.con.Alternates) (hknown : t.unrecognised = false)
    (hcourse : t.Course env p) : p.1.badCmd = t.con.badCmd := by
  cases hcourse with
  | @line bytes _ hline =>
    have hrecognised : ¬ (t.con.received bytes).Unrecognised := by
      unfold Turn.unrecognised at hknown
      rw [hline] at hknown
      simpa using hknown
    by_cases hin : (t.con.received bytes).InCommand
    · rw [conNextState_badCmd hin, if_neg hrecognised]
      rfl
    · exact (conNextState_step ..).sameBadCmd hin
  | @written con state _ hw hsame hinput _ =>
    have hin : ¬ con.InCommand := by
      intro hin
      unfold Con.InCommand at hin
      rw [hsame.state] at hin
      exact hw (halt.command hin)
    exact ((conNextState_step ..).sameBadCmd hin).trans hinput.badCmd
  | quiet _ _ hbad _ _ => exact hbad

theorem ConLife.sameBadCmd (hlife : ConLife env accepts (c ++ hello :: before) p)
    (hknown : ∀ t ∈ c, t.unrecognised = false) : p.1.badCmd = (hello.next env).1.badCmd := by
  induction c generalizing p with
  | nil =>
    cases hlife with
    | turn _ _ _ _ _ => rfl
  | cons t c ih =>
    rw [List.forall_mem_cons] at hknown
    cases hlife with
    | turn hbefore hcon _ _ henabled =>
      subst hcon
      have hcourse := @Turn.course env t henabled hbefore.hasRoom
      exact (Turn.sameBadCmd hbefore.carries.alternates hknown.1 hcourse).trans
        (ih hbefore hknown.2)

/-- The transaction once RSET has been taken. -/
def Transaction.afterRset (txn : Transaction) : Transaction := { txn with stage := .mail }

theorem emitsAll_rset {said : Said} {rest : List Said} (hopen : txn.stage ≠ .over)
    (hrset : said.hasCommand "RSET".toList = true) :
    txn.emitsAll party (said :: rest) = txn.afterRset.emitsAll party rest := by
  obtain ⟨hhear, hemits⟩ := @Transaction.hear_rset party txn said hopen hrset
  rw [Transaction.emitsAll, hemits, hhear]
  rfl

theorem Con.HonoursRset.open_ {con : Con} (h : con.HonoursRset) : con.transaction.stage ≠ .over := by
  show con.state.stage ≠ .over
  rcases h.state with hs | hs <;> rw [hs] <;> decide

/-- The lines that show the addresses are answered after RSET. -/
theorem takes_probes (hopen : txn.stage ≠ .over) {lines : List Said} (hlines : lines ∈ probes) :
    txn.Takes party (plainSaid "RSET".toList :: lines) := by
  obtain ⟨hhear, -⟩ := @Transaction.hear_rset party txn (plainSaid "RSET".toList) hopen (by decide)
  refine ⟨by decide, .inl (by decide), ?_⟩
  rw [hhear]
  have hmail : ∀ {txn : Transaction} {line : CStr}, txn.stage = .mail → PlainLine line →
      (plainSaid line).hasCommand "RCPT".toList = true →
      txn.Takes party [plainSaid "MAIL FROM:<a>".toList, plainSaid line] := by
    intro txn line hstage hplain hrcpt
    exact ⟨by decide, .inr (.inr ⟨hstage, by decide⟩), hplain, .inr (.inl hrcpt), trivial⟩
  unfold probes at hlines
  rcases List.mem_cons.mp hlines with rfl | hlines
  · exact ⟨by decide, .inr (.inl (by decide)), trivial⟩
  · rcases List.mem_cons.mp hlines with rfl | hlines
    · exact hmail rfl (by decide) (by decide)
    · obtain rfl := List.mem_singleton.mp hlines
      exact hmail rfl (by decide) (by decide)

/-- The first of the lines is an RSET. -/
def BeginsWithRset (lines : List Said) : Prop :=
  ∃ said rest, lines = said :: rest ∧ said.hasCommand "RSET".toList = true

/-- Two lives that go on after the same HELO, without an unrecognised line, to where RSET is
honoured: RSET and any lines that follow it have the same grey messages written if and only
if none are written for the client, or the two connections already agree on the sender, the
recipient and the destination. -/
theorem rset_forgets_iff (hlife : ConLife env accepts (c ++ hello :: before) p)
    (hlife' : ConLife env accepts (c' ++ hello :: before) p') (hhello : hello.SaysHello env)
    (hknown : ∀ t ∈ c, t.unrecognised = false) (hknown' : ∀ t ∈ c', t.unrecognised = false)
    (hready : p.1.HonoursRset) (hready' : p'.1.HonoursRset) :
    (∀ d q d' q', ConLife env accepts (d ++ (c ++ hello :: before)) q →
      ConLife env accepts (d' ++ (c' ++ hello :: before)) q' → saidIn d = saidIn d' →
      BeginsWithRset (saidIn d) → emittedIn env d = emittedIn env d') ↔
    (p.2.greylist = false ∨ p.1.listed = true ∨
      (cstr p.1.mail = cstr p'.1.mail ∧ cstr p.1.rcpt = cstr p'.1.rcpt ∧
        p.1.dstAddr = p'.1.dstAddr)) := by
  have hsession := hlife.session hhello
  have hsession' := hlife'.session hhello
  have hparty : p.1.party p.2 = (hello.next env).1.party (hello.next env).2 :=
    hsession.party.resolve_left hready.fd
  generalize hgen : (hello.next env).1.party (hello.next env).2 = party at hparty
  have hgrey : party.greyed = false ↔ p.2.greylist = false ∨ p.1.listed = true := by
    rw [← hparty]
    show (p.2.greylist && !p.1.listed) = false ↔ _
    cases p.2.greylist <;> simp
  have hlater : ∀ {d q}, ConLife env accepts (d ++ (c ++ hello :: before)) q →
      emittedIn env d = p.1.transaction.emitsAll party (saidIn d) := by
    intro d q hq
    rw [← List.append_assoc] at hq
    rw [← hgen]
    exact hsession.later (hq.session hhello)
  have hlater' : ∀ {d q}, ConLife env accepts (d ++ (c' ++ hello :: before)) q →
      emittedIn env d = p'.1.transaction.emitsAll party (saidIn d) := by
    intro d q hq
    rw [← List.append_assoc] at hq
    rw [← hgen]
    exact hsession'.later (hq.session hhello)
  rw [← or_assoc, ← hgrey]
  constructor
  · intro hsame
    by_cases hungreyed : party.greyed = false
    · exact .inl hungreyed
    · right
      have hon : party.greyed = true := Bool.eq_true_of_not_eq_false hungreyed
      have hreset : ∀ {con : Con} {mail rcpt : CStr}, con.transaction.Texts mail rcpt →
          con.transaction.afterRset.Texts mail rcpt := fun h => ⟨h.mail, h.rcpt⟩
      refine (hreset hlife.texts).eq_of_probes (hreset hlife'.texts) hon rfl rfl ?_
      intro lines hlines
      obtain ⟨d, q, hd, hsaid⟩ := hlife.sayAll hhello hready (takes_probes hready.open_ hlines)
      obtain ⟨d', q', hd', hsaid'⟩ :=
        hlife'.sayAll hhello hready' (takes_probes hready'.open_ hlines)
      have hequal := hsame d q d' q' hd hd' (hsaid.trans hsaid'.symm)
        ⟨_, _, hsaid, by decide⟩
      rw [hlater hd, hlater' hd', hsaid, hsaid'] at hequal
      rwa [emitsAll_rset hready.open_ (by decide), emitsAll_rset hready'.open_ (by decide)] at hequal
  · intro hcond d q d' q' hd hd' hsaid hbegins
    obtain ⟨said, rest, hbegin, hrset⟩ := hbegins
    rw [hlater hd, hlater' hd', ← hsaid, hbegin, emitsAll_rset hready.open_ hrset,
      emitsAll_rset hready'.open_ hrset]
    rcases hcond with hungreyed | ⟨hmail, hrcpt, hdst⟩
    · rw [Transaction.emitsAll_ungreyed hungreyed, Transaction.emitsAll_ungreyed hungreyed]
    · have hmail' : p.1.mail = p'.1.mail := hlife.texts.mail.ext (hmail ▸ hlife'.texts.mail)
      have hrcpt' : p.1.rcpt = p'.1.rcpt := hlife.texts.rcpt.ext (hrcpt ▸ hlife'.texts.rcpt)
      have hbad : p.1.badCmd = p'.1.badCmd :=
        (hlife.sameBadCmd hknown).trans (hlife'.sameBadCmd hknown').symm
      have htxn : p.1.transaction.afterRset = p'.1.transaction.afterRset := by
        show (⟨.mail, p.1.mail, p.1.rcpt, p.1.dstAddr, p.1.badCmd⟩ : Transaction) = _
        rw [hmail', hrcpt', hdst, hbad]
        rfl
      rw [htxn]

end Reset

/-! ## A sender that is named before RSET -/

theorem playTurns_base (env : ConEnv) (nat : NatReply) (acts : List (Int × ConAct))
    (turns : List Turn) (p : Con × GreydState) : playTurns env nat acts turns p =
      ((playTurns env nat acts [] p).1 ++ turns, (playTurns env nat acts [] p).2) := by
  induction acts generalizing turns p with
  | nil => rfl
  | cons step acts ih =>
    obtain ⟨now, act⟩ := step
    unfold playTurns
    dsimp only
    rw [ih, ih [_]]
    simp

/-- The greeting and the client's HELO. -/
def helloLife : List Turn × (Con × GreydState) :=
  playTurns plainEnv none [(2, .write ⟨1, 48⟩), (2, .read (.data "HELO x\r\n".toList))] [] plainStart

/-- The client waits for the answer to its HELO. -/
def silentActs : List (Int × ConAct) := [(3, .write ⟨1, 12⟩)]

/-- The client also names a sender. -/
def senderActs : List (Int × ConAct) :=
  silentActs ++ [(3, .read (.data "MAIL FROM:<a@b>\r\n".toList)), (4, .write ⟨1, 8⟩)]

/-- RSET, and a recipient. -/
def resetActs : List (Int × ConAct) :=
  [(5, .read (.data "RSET\r\n".toList)), (6, .write ⟨1, 8⟩),
    (6, .read (.data "RCPT TO:<c@d>\r\n".toList))]

def helloTurn : Turn := helloLife.1.head (by decide +kernel)

def afterHello (acts : List (Int × ConAct)) : List Turn × (Con × GreydState) :=
  playTurns plainEnv none acts [] helloLife.2

/-- What follows on RSET. -/
def afterReset (acts : List (Int × ConAct)) : List Turn × (Con × GreydState) :=
  playTurns plainEnv none resetActs [] (afterHello acts).2

theorem helloLife_eq : helloLife.1 = helloTurn :: helloLife.1.tail :=
  (List.cons_head_tail (by decide +kernel)).symm

theorem afterHello_life {acts : List (Int × ConAct)} (h : Playable plainEnv none acts helloLife.2) :
    ConLife plainEnv (fun _ _ => True) ((afterHello acts).1 ++ helloTurn :: helloLife.1.tail)
      (afterHello acts).2 := by
  have hstart : ConLife plainEnv (fun _ _ => True) [] plainStart := .accept trivial
  have hhello : ConLife plainEnv (fun _ _ => True) helloLife.1 helloLife.2 :=
    hstart.play (by decide +kernel)
  have hlife := hhello.play h
  rw [playTurns_base, helloLife_eq] at hlife
  exact hlife

theorem afterReset_life {acts : List (Int × ConAct)} (h : Playable plainEnv none acts helloLife.2)
    (hreset : Playable plainEnv none resetActs (afterHello acts).2) :
    ConLife plainEnv (fun _ _ => True)
      ((afterReset acts).1 ++ ((afterHello acts).1 ++ helloTurn :: helloLife.1.tail))
      (afterReset acts).2 := by
  have hlife := (afterHello_life h).play hreset
  rw [playTurns_base] at hlife
  exact hlife

/-- With a sender and without one. -/
theorem rset_forgets_iff_sender :
    (∀ d q d' q', ConLife plainEnv (fun _ _ => True)
        (d ++ ((afterHello senderActs).1 ++ helloTurn :: helloLife.1.tail)) q →
      ConLife plainEnv (fun _ _ => True)
        (d' ++ ((afterHello silentActs).1 ++ helloTurn :: helloLife.1.tail)) q' →
      saidIn d = saidIn d' → BeginsWithRset (saidIn d) →
      emittedIn plainEnv d = emittedIn plainEnv d') ↔
    ((afterHello senderActs).2.2.greylist = false ∨ (afterHello senderActs).2.1.listed = true ∨
      (cstr (afterHello senderActs).2.1.mail = cstr (afterHello silentActs).2.1.mail ∧
        cstr (afterHello senderActs).2.1.rcpt = cstr (afterHello silentActs).2.1.rcpt ∧
        (afterHello senderActs).2.1.dstAddr = (afterHello silentActs).2.1.dstAddr)) :=
  rset_forgets_iff (afterHello_life (by decide +kernel)) (afterHello_life (by decide +kernel))
    (by decide +kernel) (by decide +kernel) (by decide +kernel) (by decide +kernel)
    (by decide +kernel)

/-- The sender from before RSET is combined with the recipient named after it. -/
theorem sender_survives_rset :
    ∃ before hello c p c' p' d q d' q',
      (ConLife plainEnv (fun _ _ => True) (c ++ hello :: before) p ∧
        ConLife plainEnv (fun _ _ => True) (c' ++ hello :: before) p' ∧ hello.SaysHello plainEnv ∧
        (∀ t ∈ c, t.unrecognised = false) ∧ (∀ t ∈ c', t.unrecognised = false) ∧
        p.1.HonoursRset ∧ p'.1.HonoursRset) ∧
      (ConLife plainEnv (fun _ _ => True) (d ++ (c ++ hello :: before)) q ∧
        ConLife plainEnv (fun _ _ => True) (d' ++ (c' ++ hello :: before)) q' ∧
        saidIn d = saidIn d' ∧ BeginsWithRset (saidIn d)) ∧
      (emittedIn plainEnv d).map (fun m => (m.from_, m.to_)) = [("a@b".toList, "c@d".toList)] ∧
      emittedIn plainEnv d' = [] := by
  have hsaid : saidIn (afterReset senderActs).1 =
      [plainSaid "RSET".toList, plainSaid "RCPT TO:<c@d>".toList] := by decide +kernel
  refine ⟨_, _, _, _, _, _, _, _, _, _,
    ⟨@afterHello_life senderActs (by decide +kernel), @afterHello_life silentActs (by decide +kernel),
      by decide +kernel, by decide +kernel, by decide +kernel, by decide +kernel, by decide +kernel⟩,
    ⟨@afterReset_life senderActs (by decide +kernel) (by decide +kernel),
      @afterReset_life silentActs (by decide +kernel) (by decide +kernel), ?_, ⟨_, _, hsaid, by decide⟩⟩,
    by decide +kernel, by decide +kernel⟩
  rw [hsaid]
  decide +kernel

end Greyd
