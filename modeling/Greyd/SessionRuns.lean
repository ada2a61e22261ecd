import Greyd.Transactions

/-!
# Sessions (con.c)

In every life of a connection whose client has said hello, the completed lines lead from
transaction to transaction, and the grey messages are those of the transactions.
-/
namespace Greyd

def ConState.stage : ConState → Stage
  | .heloOut | .mailIn => .mail
  | .mailOut | .rcptIn | .rcptOut => .rcpt
  | _ => .over

def Con.transaction (con : Con) : Transaction :=
  ⟨con.state.stage, con.mail, con.rcpt, con.dstAddr, con.badCmd⟩

def Con.party (con : Con) (state : GreydState) : Party :=
  ⟨con.helo, con.srcAddr, state.proxyProtocolEnabled, state.greylist && !con.listed⟩

/-- The line in the input buffer. -/
def Con.said (con : Con) (nat : NatReply) : Said := ⟨con.input, nat⟩

/-- The states behind HELO that are reached. -/
def ConState.AfterHelo (s : ConState) : Prop := 2 ≤ s.code ∧ s ≠ .dataIn

instance (s : ConState) : Decidable s.AfterHelo := inferInstanceAs (Decidable (_ ∧ _))

/-- The client has said hello, and what is being answered is not taken for another command. -/
structure Con.Greeted (con : Con) : Prop where
  place : con.state.AfterHelo
  quit : con.state = .heloOut ∨ con.state = .mailOut ∨ con.state = .rcptOut →
    con.hasCommand "QUIT".toList = false
  rset : con.state = .mailOut ∨ con.state = .rcptOut → con.hasCommand "RSET".toList = false

section Steps

variable {env : ConEnv} {now : Int} {nat : NatReply} {con con' : Con} {state : GreydState}
  {next : Con × GreydState}

/-- A step follows the transaction of the line in the buffer. -/
structure Hears (nat : NatReply) (con : Con) (state : GreydState) (next : Con × GreydState) : Prop where
  transaction : next.1.transaction = con.transaction.hear (con.party state) (con.said nat)
  messages : next.2.greyOut =
    state.greyOut ++ con.transaction.emits (con.party state) (con.said nat)

theorem conDone_transaction (con : Con) :
    (conDone now con state).1.transaction = { con.transaction with stage := .over } := by
  obtain ⟨_, _, _, _, hdone⟩ := conDone_frame now con state
  rw [hdone]
  rfl

theorem conGetOrigDst_eq (con : Con) : conGetOrigDst con state nat =
    { con with dstAddr := (con.party state).dst con.dstAddr nat } := by
  unfold conGetOrigDst Party.dst Con.party
  dsimp only
  split
  · rfl
  · cases nat <;> rfl

theorem conGetOrigDst_transaction (con : Con) : (conGetOrigDst con state nat).transaction =
    { con.transaction with dst := (con.party state).dst con.dstAddr nat } := by
  rw [conGetOrigDst_eq]
  rfl

theorem conGetOrigDst_message (con : Con) : (conGetOrigDst con state nat).greyMessage =
    (conGetOrigDst con state nat).transaction.message (con.party state) := by
  rw [conGetOrigDst_eq]
  rfl

theorem due_iff_complete : con.transaction.Due (con.party state) ↔ con.Complete state := by
  unfold Transaction.Due Con.Complete Con.party Con.transaction
  simp

/-- A line that names no address. -/
theorem conSpam_hears (hstage : con.transaction.stage ≠ .over)
    (hback : con.lastState.stage = con.state.stage)
    (hquit : (con.said nat).hasCommand "QUIT".toList = false)
    (hrset : (con.said nat).hasCommand "RSET".toList = false)
    (hmail : ¬ (con.transaction.stage = .mail ∧ (con.said nat).hasCommand "MAIL".toList = true))
    (hrcpt : (con.said nat).hasCommand "RCPT".toList = false) :
    Hears nat con state (conSpam now con state) := by
  have hhear : con.transaction.hear (con.party state) (con.said nat) =
      if (con.said nat).hasCommand "DATA".toList then { con.transaction with stage := .over }
      else if (con.said nat).hasCommand "NOOP".toList then con.transaction
      else { con.transaction with
        stage := if con.badCmd + 1 > conMaxBadCmd then .over else con.transaction.stage
        badCmd := con.badCmd + 1 } := by
    unfold Transaction.hear
    rw [if_neg (by rw [hquit]; simpa using hstage), if_neg (by rw [hrset]; simp), if_neg hmail,
      if_neg (by rw [hrcpt]; simp)]
    rfl
  have hemits : con.transaction.emits (con.party state) (con.said nat) = [] :=
    if_neg fun h => Bool.false_ne_true (hrcpt.symm.trans h.2.1)
  -- the state in which the line was read is taken up again
  have hstay : ∀ con' : Con, con'.lastState = con.lastState →
      (con'.stay now).transaction = { con'.transaction with stage := con.state.stage } := by
    intro con' hlast
    rw [← hback, ← hlast]
    rfl
  by_cases hdata : (con.said nat).hasCommand "DATA".toList = true
  · rw [if_pos hdata] at hhear
    have hspam : conSpam now con state = if state.greylist ∧ !con.listed then
        conDone now (con.ready354 now).toReply state else (con.ready354 now, state) := by
      unfold conSpam
      rw [if_pos (show con.hasCommand _ = true from hdata)]
      rfl
    rw [hspam]
    split
    · exact ⟨by rw [hhear, conDone_transaction]; rfl, by rw [hemits, List.append_nil, conDone_greyOut]⟩
    · exact ⟨by rw [hhear]; rfl, by rw [hemits, List.append_nil]⟩
  · rw [if_neg hdata] at hhear
    by_cases hnoop : (con.said nat).hasCommand "NOOP".toList = true
    · rw [if_pos hnoop] at hhear
      rw [conSpam_noop hnoop]
      exact ⟨by rw [hhear, hstay _ (by simp)]; rfl, by rw [hemits, List.append_nil]⟩
    · rw [if_neg hnoop] at hhear
      rw [conSpam_unknown (Bool.eq_false_iff.mpr hdata) (Bool.eq_false_iff.mpr hnoop)]
      split
      · next hmany =>
        rw [if_pos hmany] at hhear
        exact ⟨by rw [hhear, conDone_transaction]; rfl,
          by rw [hemits, List.append_nil, conDone_greyOut]⟩
      · next hfew =>
        rw [if_neg hfew] at hhear
        refine ⟨?_, by rw [hemits, List.append_nil]⟩
        rw [hhear, hstay _ (by simp [Con.unknownCommand, Con.countBad])]
        rfl

theorem conRcpt_taken (hrcpt : con.hasCommand "RCPT".toList = true) : conRcpt now nat con state =
    if con.takeRcpt.Complete state then
      (conGetOrigDst (con.takeRcpt.reply "250 OK\r\n".toList .rcptOut now) state nat,
        state.emit (conGetOrigDst (con.takeRcpt.reply "250 OK\r\n".toList .rcptOut now) state
          nat).greyMessage)
    else (con.takeRcpt.reply "250 OK\r\n".toList .rcptOut now, state) := by
  unfold conRcpt
  rw [if_pos hrcpt]
  rfl

theorem Con.party_congr {state' : GreydState} (hhelo : con'.helo = con.helo)
    (hsrc : con'.srcAddr = con.srcAddr) (hlists : con'.blacklists = con.blacklists)
    (hproxy : state'.proxyProtocolEnabled = state.proxyProtocolEnabled := by rfl)
    (hconfig : state'.config = state.config := by rfl) : con'.party state' = con.party state := by
  unfold Con.party Con.listed GreydState.greylist
  rw [hhelo, hsrc, hlists, hproxy, hconfig]

/-- A line that names a recipient, or no address. -/
theorem conRcpt_hears (hstage : con.transaction.stage ≠ .over)
    (hback : con.lastState.stage = con.state.stage)
    (hquit : (con.said nat).hasCommand "QUIT".toList = false)
    (hrset : (con.said nat).hasCommand "RSET".toList = false)
    (hmail : ¬ (con.transaction.stage = .mail ∧ (con.said nat).hasCommand "MAIL".toList = true)) :
    Hears nat con state (conRcpt now nat con state) := by
  by_cases hrcpt : (con.said nat).hasCommand "RCPT".toList = true
  · have hhear := @Transaction.hear_rcpt (con.party state) _ _ hstage hrcpt
    have hwas := @conRcpt_taken now nat con state hrcpt
    have hdue : (con.transaction.takeRcpt con.input).Due (con.party state) ↔
        con.takeRcpt.Complete state := @due_iff_complete con.takeRcpt state
    have htake : (con.takeRcpt.reply "250 OK\r\n".toList .rcptOut now).transaction =
      con.transaction.takeRcpt con.input := rfl
    have hparty : (con.takeRcpt.reply "250 OK\r\n".toList .rcptOut now).party state =
      con.party state := Con.party_congr (by simp) (by simp) (by simp)
    have hdst : (con.takeRcpt.reply "250 OK\r\n".toList .rcptOut now).dstAddr = con.dstAddr := rfl
    rw [hwas]
    generalize con.takeRcpt.reply "250 OK\r\n".toList .rcptOut now = replied at htake hparty hdst
    split
    · next hcomplete =>
      have hlook : (con.transaction.takeRcpt con.input).lookUp (con.party state) nat =
          (conGetOrigDst replied state nat).transaction := by
        rw [conGetOrigDst_transaction, htake, hparty, hdst]
        exact if_pos (hdue.mpr hcomplete)
      have hemits : con.transaction.emits (con.party state) (con.said nat) =
          [((con.transaction.takeRcpt con.input).lookUp (con.party state) nat).message
            (con.party state)] := if_pos ⟨hstage, hrcpt, hdue.mpr hcomplete⟩
      constructor
      · rw [hhear]
        exact hlook.symm
      · rw [hemits, hlook, ← hparty, ← conGetOrigDst_message]
        rfl
    · next hincomplete =>
      have hlook : (con.transaction.takeRcpt con.input).lookUp (con.party state) nat =
          con.transaction.takeRcpt con.input := if_neg fun h => hincomplete (hdue.mp h)
      have hemits : con.transaction.emits (con.party state) (con.said nat) = [] :=
        if_neg fun h => hincomplete (hdue.mp h.2.2)
      constructor
      · rw [hhear]
        exact htake.trans hlook.symm
      · rw [hemits, List.append_nil]
  · have hskip : conRcpt now nat con state = conSpam now con state := if_neg hrcpt
    rw [hskip]
    exact conSpam_hears hstage hback hquit hrset hmail (Bool.eq_false_iff.mpr hrcpt)

/-- A line that is looked at as a command. -/
theorem conNextState_hears (hstate : con.state = .mailIn ∨ con.state = .rcptIn)
    (hback : con.lastState.stage = con.state.stage) :
    Hears nat con state (conNextState env now nat con state) := by
  have hopen : con.state.stage ≠ .over := by
    rcases hstate with hs | hs <;> rw [hs] <;> decide
  have hstage : con.transaction.stage ≠ .over := hopen
  have hcode : con.state.code < ConState.close.code ∧ ConState.heloOut.code < con.state.code ∧
      con.state.code < ConState.dataIn.code := by
    rcases hstate with hs | hs <;> rw [hs] <;> decide
  by_cases hquit : (con.said nat).hasCommand "QUIT".toList = true
  · have hrcpt := Transaction.hasCommand_other (b := "RCPT".toList) hquit (by decide) (by decide)
    unfold conNextState
    rw [if_pos ⟨hquit, hcode.1⟩]
    constructor
    · unfold Transaction.hear
      rw [if_pos (.inr hquit)]
      rfl
    · unfold Transaction.emits
      rw [if_neg fun h => Bool.false_ne_true (hrcpt.symm.trans h.2.1), List.append_nil]
  · by_cases hrset : (con.said nat).hasCommand "RSET".toList = true
    · obtain ⟨hhear, hemits⟩ := @Transaction.hear_rset (con.party state) _ _ hstage hrset
      unfold conNextState
      rw [if_neg fun h => hquit h.1, if_pos ⟨hrset, hcode.2⟩]
      exact ⟨by rw [hhear]; rfl, by rw [hemits, List.append_nil]⟩
    · have hquit' := Bool.eq_false_iff.mpr hquit
      have hrset' := Bool.eq_false_iff.mpr hrset
      unfold conNextState
      rw [if_neg fun h => hquit h.1, if_neg fun h => hrset h.1]
      rcases hstate with hs | hs
      · rw [hs]
        show Hears nat con state (conMail now nat con state)
        by_cases hmail : (con.said nat).hasCommand "MAIL".toList = true
        · have hmailStage : con.transaction.stage = .mail := by
            unfold Con.transaction
            rw [hs]
            rfl
          obtain ⟨hhear, hemits⟩ := @Transaction.hear_mail (con.party state) _ _ hmailStage hmail
          unfold conMail
          rw [if_pos (show con.hasCommand _ = true from hmail)]
          exact ⟨by rw [hhear]; rfl, by rw [hemits, List.append_nil]⟩
        · have hskip : conMail now nat con state = conRcpt now nat con state := if_neg hmail
          rw [hskip]
          exact conRcpt_hears hstage hback hquit' hrset' fun h => hmail h.2
      · rw [hs]
        show Hears nat con state (conRcpt now nat con state)
        apply conRcpt_hears hstage hback hquit' hrset'
        intro h
        have hno : con.state.stage = .mail := h.1
        rw [hs] at hno
        cases hno

/-! ### What a step keeps -/

/-- The states in which a command is answered. -/
def ConState.Answers (s : ConState) : Prop := s = .heloOut ∨ s = .mailOut ∨ s = .rcptOut

/-- The states in which no command is looked at any more. -/
def ConState.Ends (s : ConState) : Prop := s = .dataOut ∨ s = .message ∨ s = .reply ∨ s = .close

theorem ConState.Answers.awaits {s : ConState} (h : s.Answers) :
    ∃ n, Awaits s n ∧ (n = .mailIn ∨ n = .rcptIn) ∧ n.stage = s.stage := by
  unfold ConState.Answers at h
  rcases h with rfl | rfl | rfl
  · exact ⟨.mailIn, .helo, .inl rfl, rfl⟩
  · exact ⟨.rcptIn, .mail, .inr rfl, rfl⟩
  · exact ⟨.rcptIn, .rcpt, .inr rfl, rfl⟩

theorem Con.Greeted.cases (h : con.Greeted) :
    (con.state = .mailIn ∨ con.state = .rcptIn) ∨ con.state.Answers ∨ con.state.Ends := by
  have hplace := h.place
  unfold ConState.AfterHelo at hplace
  unfold ConState.Answers ConState.Ends
  revert hplace
  cases con.state <;> simp [ConState.code]

theorem Con.Greeted.of_state (hplace : con.state.AfterHelo)
    (hno : ¬ con.state.Answers) : con.Greeted where
  place := hplace
  quit := fun h => absurd h hno
  rset := fun h => absurd (.inr h) hno

theorem Con.hasCommand_congr (h : con'.inBuf = con.inBuf) (command : CStr) :
    con'.hasCommand command = con.hasCommand command := by
  unfold Con.hasCommand Con.input
  rw [h]

theorem conDone_inBuf (con : Con) : (conDone now con state).1.inBuf = con.inBuf := by
  obtain ⟨_, _, _, _, hdone⟩ := conDone_frame now con state
  rw [hdone]

theorem NextStep.sameInBuf (h : NextStep env now nat con state next) (hno : con.state ≠ .message) :
    next.1.inBuf = con.inBuf := by
  cases h with
  | refused _ _ => exact conDone_inBuf _
  | dataReply _ _ => exact conDone_inBuf _
  | badCmd _ => exact conDone_inBuf _
  | reply _ => exact conDone_inBuf _
  | grey _ _ _ =>
    rw [conGetOrigDst_eq]
    rfl
  | @stay text con' _ hcon _ =>
    have hsame : con'.inBuf = con.inBuf := by rcases hcon with rfl | rfl <;> rfl
    exact Eq.trans rfl hsame
  | body hstate => exact absurd hstate hno
  | bodyEnd hstate => exact absurd hstate hno
  | _ => rfl

theorem conDone_party (con : Con) :
    (conDone now con state).1.party (conDone now con state).2 = con.party state := by
  obtain ⟨_, _, _, _, hdone⟩ := conDone_frame now con state
  rw [hdone]
  rfl

theorem NextStep.party (h : NextStep env now nat con state next) (hgreeted : con.Greeted)
    (hopen : con.state ≠ .close) : next.1.party next.2 = con.party state := by
  have hplace := hgreeted.place
  cases h with
  | refused hs _ => exact absurd hplace (by rw [hs]; decide)
  | proxied hs _ _ => exact absurd hplace (by rw [hs]; decide)
  | noHelo hs => exact absurd hplace (by rw [hs]; decide)
  | helo hs => exact absurd hplace (by rw [hs]; decide)
  | close hs => exact absurd hs hopen
  | dataReply _ _ => exact conDone_party _
  | badCmd _ => exact conDone_party _
  | bodyEnd _ => exact conDone_party _
  | reply _ => exact conDone_party _
  | grey _ _ _ =>
    rw [conGetOrigDst_eq]
    exact Con.party_congr (by simp) (by simp) (by simp)
  | mail _ _ => exact Con.party_congr (Con.reply_helo ..) (by simp) (by simp)
  | rcpt _ _ _ => exact Con.party_congr (by simp) (by simp) (by simp)
  | @stay text con' _ hcon _ =>
    have hsame : con'.party state = con.party state := by rcases hcon with rfl | rfl <;> rfl
    exact Eq.trans rfl hsame
  | _ => rfl

/-- A step where no command is looked at. -/
theorem NextStep.transaction (h : NextStep env now nat con state next) (hgreeted : con.Greeted)
    (hno : con.state.Answers ∨ con.state.Ends) : next.1.Greeted ∧
      next.1.transaction = con.transaction ∧ next.2.greyOut = state.greyOut := by
  have hcommand : ¬ con.InCommand := by
    unfold Con.InCommand ConState.Answers ConState.Ends at *
    intro h
    rcases h with h | h | h | h <;> rw [h] at hno <;> simp at hno
  have hmail : ¬ (con.state = .heloIn ∨ con.state = .mailIn) := fun hs =>
    hcommand (hs.imp_right .inl)
  have hrcpt : ¬ (con.state = .heloIn ∨ con.state = .mailIn ∨ con.state = .rcptIn) := fun hs =>
    hcommand (hs.imp_right fun hs => hs.imp_right .inl)
  have hplace := hgreeted.place
  have hends : ∀ {con' : Con}, con'.state = .close → con'.Greeted := fun hs =>
    .of_state (by rw [hs]; decide) (by rw [hs]; simp [ConState.Answers])
  have hover : con.state.Ends → { con.transaction with stage := .over } = con.transaction := by
    intro hs
    unfold ConState.Ends at hs
    unfold Con.transaction
    rcases hs with hs | hs | hs | hs <;> rw [hs] <;> rfl
  have hdone : ∀ con' : Con, con'.transaction = { con.transaction with stage := con'.state.stage } →
      con.state.Ends → (conDone now con' state).1.Greeted ∧
      (conDone now con' state).1.transaction = con.transaction ∧
        (conDone now con' state).2.greyOut = state.greyOut := by
    intro con' hcon' hs
    refine ⟨hends ?_, ?_, conDone_greyOut _ _ _⟩
    · obtain ⟨_, _, _, _, hdone⟩ := conDone_frame now con' state
      rw [hdone]
    · rw [conDone_transaction, hcon']
      exact hover hs
  cases h with
  | quit hquit hs =>
    have hans : ¬ con.state.Answers := fun ha =>
      Bool.false_ne_true ((hgreeted.quit ha).symm.trans hquit)
    exact ⟨hends rfl, hover (hno.resolve_left hans), rfl⟩
  | rset hrset hs =>
    rcases hs with hs | hs | hs | hs
    · exact absurd (.inr (.inl hs)) hcommand
    · exact absurd hrset (by rw [hgreeted.rset (.inl hs)]; simp)
    · exact absurd (.inr (.inr (.inl hs))) hcommand
    · exact absurd hrset (by rw [hgreeted.rset (.inr hs)]; simp)
  | @await s hwaits =>
    refine ⟨?_, ?_, rfl⟩
    · apply Con.Greeted.of_state
      · show s.AfterHelo
        generalize con.state = l at hwaits hplace
        cases hwaits with
        | banner => exact absurd hplace (by decide)
        | proxy => exact absurd hplace (by decide)
        | _ => decide
      · show ¬ s.Answers
        unfold ConState.Answers
        generalize con.state = l at hwaits
        cases hwaits <;> simp
    · show (⟨s.stage, _, _, _, _⟩ : Transaction) = ⟨con.state.stage, _, _, _, _⟩
      have hstage : s.stage = con.state.stage := by
        generalize con.state = l at hwaits hplace
        cases hwaits with
        | proxy => exact absurd hplace (by decide)
        | banner => exact absurd hplace (by decide)
        | _ => rfl
      rw [hstage]
      rfl
  | banner hs => exact absurd hplace (by rw [hs]; decide)
  | proxied hs _ _ => exact absurd hplace (by rw [hs]; decide)
  | refused hs _ => exact absurd hplace (by rw [hs]; decide)
  | noHelo hs => exact absurd hplace (by rw [hs]; decide)
  | helo hs => exact absurd hplace (by rw [hs]; decide)
  | mail hs _ => exact absurd hs hmail
  | rcpt hs _ _ => exact absurd hs hrcpt
  | grey hs _ _ => exact absurd hs hrcpt
  | data hin => exact absurd hin hcommand
  | dataReply hin _ => exact absurd hin hcommand
  | stay hin _ _ => exact absurd hin hcommand
  | badCmd hin => exact absurd hin hcommand
  | body hs =>
    refine ⟨.of_state ?_ ?_, rfl, rfl⟩
    · exact hplace
    · show ¬ con.state.Answers
      rw [hs]
      simp [ConState.Answers]
  | bodyEnd hs => exact hdone _ rfl (.inr (.inl hs))
  | reply hs => exact hdone _ rfl (.inr (.inr (.inl hs)))
  | close hs => exact ⟨hends hs, rfl, rfl⟩

theorem NextStep.place (h : NextStep env now nat con state next)
    (hstate : con.state = .mailIn ∨ con.state = .rcptIn) (hback : Awaits con.lastState con.state) :
    next.1.state.AfterHelo := by
  have hno : ∀ {s : ConState}, con.state = s → s ≠ .mailIn → s ≠ .rcptIn → False := by
    intro s hs hmail hrcpt
    rcases hstate with h | h
    · exact hmail (hs.symm.trans h)
    · exact hrcpt (hs.symm.trans h)
  have hdone : ∀ con' : Con, (conDone now con' state).1.state.AfterHelo := by
    intro con'
    obtain ⟨_, _, _, _, hdone⟩ := conDone_frame now con' state
    rw [hdone]
    exact show ConState.AfterHelo .close by decide
  cases h with
  | quit _ _ => exact show ConState.AfterHelo .close by decide
  | rset _ _ => exact show ConState.AfterHelo .heloOut by decide
  | await hwaits => exact absurd hwaits hback.not_out
  | banner hs => exact (hno hs (by decide) (by decide)).elim
  | proxied hs _ _ => exact (hno hs (by decide) (by decide)).elim
  | refused hs _ => exact (hno hs (by decide) (by decide)).elim
  | noHelo hs => exact (hno hs (by decide) (by decide)).elim
  | helo hs => exact (hno hs (by decide) (by decide)).elim
  | body hs => exact (hno hs (by decide) (by decide)).elim
  | bodyEnd hs => exact (hno hs (by decide) (by decide)).elim
  | reply hs => exact (hno hs (by decide) (by decide)).elim
  | close hs => exact (hno hs (by decide) (by decide)).elim
  | mail _ _ => exact show ConState.AfterHelo .mailOut by decide
  | rcpt _ _ _ => exact show ConState.AfterHelo .rcptOut by decide
  | grey _ _ _ =>
    rw [conGetOrigDst_eq]
    exact show ConState.AfterHelo .rcptOut by decide
  | data _ => exact show ConState.AfterHelo .dataOut by decide
  | dataReply _ _ => exact hdone _
  | badCmd _ => exact hdone _
  | @stay text con' _ hcon _ =>
    have hlast : con'.lastState = con.lastState := by rcases hcon with rfl | rfl <;> rfl
    show con'.lastState.AfterHelo
    rw [hlast]
    generalize con.state = s at hback hstate
    generalize con.lastState = l at hback
    cases hback with
    | proxy => simp at hstate
    | banner => simp at hstate
    | data => simp at hstate
    | _ => decide

theorem conNextState_greeted (hstate : con.state = .mailIn ∨ con.state = .rcptIn)
    (hback : Awaits con.lastState con.state) : (conNextState env now nat con state).1.Greeted := by
  have hcode : con.state.code < ConState.close.code ∧ ConState.heloOut.code < con.state.code ∧
      con.state.code < ConState.dataIn.code := by
    rcases hstate with hs | hs <;> rw [hs] <;> decide
  by_cases hquit : con.hasCommand "QUIT".toList = true
  · unfold conNextState
    rw [if_pos ⟨hquit, hcode.1⟩]
    exact .of_state (show ConState.AfterHelo .close by decide)
      (show ¬ ConState.Answers .close by simp [ConState.Answers])
  · have hquit' := Bool.eq_false_iff.mpr hquit
    by_cases hrset : con.hasCommand "RSET".toList = true
    · unfold conNextState
      rw [if_neg fun h => hquit h.1, if_pos ⟨hrset, hcode.2⟩]
      refine ⟨show ConState.AfterHelo .heloOut by decide, fun _ => hquit', ?_⟩
      intro h
      rcases h with h | h <;> cases h
    · have hstep := conNextState_step env now nat con state
      have hin := hstep.sameInBuf (by rcases hstate with hs | hs <;> rw [hs] <;> decide)
      exact ⟨hstep.place hstate hback, fun _ => (Con.hasCommand_congr hin _).trans hquit',
        fun _ => (Con.hasCommand_congr hin _).trans (Bool.eq_false_iff.mpr hrset)⟩

end Steps

/-! ## Lives -/

/-- The line that is completed in the turn. -/
def Turn.said (t : Turn) : Option Said := t.line.map fun con => con.said t.nat

/-- The lines that the turns have completed, the first one first. -/
def saidIn (turns : List Turn) : List Said := (turns.filterMap Turn.said).reverse

/-- The grey messages that were written in the turns. -/
def emittedIn (env : ConEnv) (turns : List Turn) : List GreyMessage :=
  turns.reverse.flatMap (Turn.emitted env)

section Lives

variable {env : ConEnv} {accepts : GreydState → Sockaddr → Prop} {turns before : List Turn} {t : Turn}
  {p : Con × GreydState} {party : Party}

/-- What a turn does to the transaction. -/
structure Turn.Follows (env : ConEnv) (t : Turn) (p : Con × GreydState) : Prop where
  greeted : p.1.Greeted
  party : p.1.fd = none ∨ p.1.party p.2 = t.con.party t.state
  transaction : p.1.transaction =
    t.said.elim t.con.transaction (t.con.transaction.hear (t.con.party t.state))
  messages : p.2.greyOut =
    t.state.greyOut ++ t.said.elim [] (t.con.transaction.emits (t.con.party t.state))

/-- A turn in which no line is completed and the connection is not taken on. -/
theorem Turn.Follows.quiet (hline : t.line = none) (hgreeted : p.1.Greeted)
    (hparty : p.1.fd = none ∨ p.1.party p.2 = t.con.party t.state)
    (htxn : p.1.transaction = t.con.transaction) (hout : p.2.greyOut = t.state.greyOut) :
    t.Follows env p := by
  have hsaid : t.said = none := by
    unfold Turn.said
    rw [hline]
    rfl
  refine ⟨hgreeted, hparty, ?_, ?_⟩
  · rw [hsaid]
    exact htxn
  · rw [hsaid, hout]
    exact (List.append_nil _).symm

theorem Transaction.hear_over {txn : Transaction} {said : Said} (h : txn.stage = .over) :
    txn.hear party said = txn ∧ txn.emits party said = [] := by
  constructor
  · unfold Transaction.hear
    rw [if_pos (.inl h), ← h]
  · exact if_neg fun hc => hc.1 h

theorem Con.Greeted.congr {con con' : Con} (h : con.Greeted) (hstate : con'.state = con.state)
    (hbuf : con'.inBuf = con.inBuf) : con'.Greeted := by
  refine ⟨hstate ▸ h.place, fun hs => ?_, fun hs => ?_⟩
  · exact (Con.hasCommand_congr hbuf _).trans (h.quit (hstate ▸ hs))
  · exact (Con.hasCommand_congr hbuf _).trans (h.rset (hstate ▸ hs))

/-- While a command is answered nothing is read. -/
theorem Con.Alternates.reading {con : Con} (h : con.Alternates) (hr : con.r ≠ 0) :
    ¬ con.state.Answers := by
  intro hs
  obtain ⟨n, hawaits, -⟩ := hs.awaits
  exact hr (h.out hawaits)

/-- A connection after `Con_next_state`, as open as the step leaves it. -/
theorem conNextState_party {now : Int} {nat : NatReply} {con : Con} {state : GreydState}
    (h : con.Greeted) : (conNextState env now nat con state).1.fd = none ∨
      ((conNextState env now nat con state).1.fd = con.fd ∧
        (conNextState env now nat con state).1.party (conNextState env now nat con state).2 =
          con.party state) := by
  have hstep := conNextState_step env now nat con state
  by_cases hclose : con.state = .close
  · rw [conNextState_close env now nat con state hclose]
    exact .inl rfl
  · exact .inr ⟨(hstep.staysOpen hclose).fd, hstep.party h hclose⟩

/-- What writing keeps. -/
theorem Wrote.keeps {now : Int} {con con' : Con} {state state' : GreydState} {result : WriteResult}
    (h : Wrote (con.settleStutter now state) state result (con', state')) :
    (con'.state = con.state ∧ con'.inBuf = con.inBuf) ∧
      (con'.transaction = con.transaction ∧ state'.greyOut = state.greyOut) ∧
        (con'.fd = none ∨ con'.party state' = con.party state) := by
  obtain ⟨_, hsettle⟩ := con.settleStutter_frame now state
  rw [hsettle] at h
  cases h with
  | closed => exact ⟨⟨rfl, rfl⟩, ⟨rfl, rfl⟩, .inl rfl⟩
  | sent _ _ => exact ⟨⟨rfl, rfl⟩, ⟨rfl, rfl⟩, .inr rfl⟩

/-- A completed line. -/
theorem Turn.Follows.line {bytes : List Char} (hline : t.line = some (t.con.received bytes))
    (halt : t.con.Alternates) (hgreeted : t.con.Greeted) (hr : t.con.r ≠ 0) :
    t.Follows env (conNextState env t.now t.nat (t.con.received bytes) t.state) := by
  have hsaid : t.said = some ((t.con.received bytes).said t.nat) := by
    unfold Turn.said
    rw [hline]
    rfl
  have hreceived : (t.con.received bytes).Greeted := .of_state hgreeted.place (halt.reading hr)
  have hparty := (@conNextState_party env t.now t.nat _ t.state hreceived).imp_right And.right
  rcases hreceived.cases with hcommand | hno
  · have hin : t.con.InCommand := by
      have hs : t.con.state = .mailIn ∨ t.con.state = .rcptIn := hcommand
      unfold Con.InCommand
      tauto
    have hback : Awaits (t.con.received bytes).lastState (t.con.received bytes).state :=
      halt.back hin
    have hstage : (t.con.received bytes).lastState.stage = (t.con.received bytes).state.stage := by
      generalize (t.con.received bytes).lastState = l at hback
      generalize (t.con.received bytes).state = s at hback hcommand
      cases hback <;> simp at hcommand <;> rfl
    have hhears := @conNextState_hears env t.now t.nat _ t.state hcommand hstage
    refine ⟨conNextState_greeted hcommand hback, hparty, ?_, ?_⟩
    · rw [hsaid]
      exact hhears.transaction
    · rw [hsaid]
      exact hhears.messages
  · obtain ⟨hnext, htxn, hout⟩ :=
      (conNextState_step env t.now t.nat (t.con.received bytes) t.state).transaction hreceived hno
    have hends := hno.resolve_left (halt.reading hr)
    have hover : t.con.transaction.stage = .over := by
      show (t.con.received bytes).state.stage = .over
      unfold ConState.Ends at hends
      rcases hends with hs | hs | hs | hs <;> rw [hs] <;> rfl
    obtain ⟨hhear, hemits⟩ := @Transaction.hear_over (t.con.party t.state) _
      ((t.con.received bytes).said t.nat) hover
    refine ⟨hnext, hparty, ?_, ?_⟩
    · rw [hsaid, htxn]
      exact hhear.symm
    · rw [hsaid, hout, Option.elim_some, hemits, List.append_nil]

theorem Turn.follows (henabled : t.act.Enabled t.now t.con t.state) (hroom : t.con.HasRoom)
    (halt : t.con.Alternates) (hgreeted : t.con.Greeted) : t.Follows env (t.next env) := by
  have hstep := henabled.step env t.nat hroom
  have hnone : ∀ {act}, t.act = act → (∀ bytes, act ≠ .read (.data bytes)) → t.line = none := by
    intro act hact hno
    unfold Turn.line
    rw [hact]
    split
    · next bytes => exact absurd rfl (hno bytes)
    · rfl
  unfold Turn.next
  generalize hact : t.act = act at hstep henabled ⊢
  generalize act.run env t.now t.nat t.con t.state = next at hstep ⊢
  cases hstep with
  | readClosed hresult =>
    refine .quiet (hnone hact ?_) (hgreeted.congr rfl rfl) (.inl rfl) rfl rfl
    rcases hresult with rfl | rfl <;> simp
  | readMore hmore =>
    refine .quiet ?_ (.of_state hgreeted.place (halt.reading henabled.reads)) (.inr rfl) rfl rfl
    unfold Turn.line
    rw [hact]
    exact if_neg hmore
  | readLine hline =>
    refine .line ?_ halt hgreeted henabled.reads
    unfold Turn.line
    rw [hact]
    exact if_pos hline
  | writeMore hwrote _ =>
    obtain ⟨⟨hstate, hbuf⟩, ⟨htxn, hout⟩, hparty⟩ := hwrote.keeps
    exact .quiet (hnone hact (by simp)) (hgreeted.congr hstate hbuf) hparty htxn hout
  | @writeDone result con' state' hwrote _ =>
    obtain ⟨⟨hstate, hbuf⟩, ⟨htxn, hout⟩, hparty⟩ := hwrote.keeps
    have hgreeted' : (con'.wait 0).Greeted := hgreeted.congr hstate hbuf
    -- commands are only looked at by connections that have nothing to write
    have hno : (con'.wait 0).state.Answers ∨ (con'.wait 0).state.Ends := by
      refine hgreeted'.cases.resolve_left fun hcommand => henabled.2.1 (halt.command ?_)
      have hs : t.con.state = .mailIn ∨ t.con.state = .rcptIn := hstate ▸ hcommand
      unfold Con.InCommand
      tauto
    obtain ⟨hnext, htxn', hout'⟩ :=
      (conNextState_step env t.now t.nat (con'.wait 0) state').transaction hgreeted' hno
    refine .quiet (hnone hact (by simp)) hnext ?_ (htxn'.trans htxn) (hout'.trans hout)
    rcases @conNextState_party env t.now t.nat _ state' hgreeted' with hclosed | ⟨hfd, hsame⟩
    · exact .inl hclosed
    · exact hparty.imp hfd.trans hsame.trans
  | close => exact .quiet (hnone hact (by simp)) (hgreeted.congr rfl rfl) (.inl rfl) rfl rfl

/-- The turn in which the client's HELO is accepted. -/
def Turn.SaysHello (env : ConEnv) (t : Turn) : Prop :=
  ∃ line, t.line = some line ∧ line.state = .heloIn ∧
    (line.hasCommand "HELO".toList = true ∨ line.hasCommand "EHLO".toList = true) ∧
    (t.next env).1.state = .heloOut

instance (t : Turn) : Decidable (t.SaysHello env) :=
  decidable_of_iff (t.line.any (fun line => decide (line.state = .heloIn ∧
      (line.hasCommand "HELO".toList = true ∨ line.hasCommand "EHLO".toList = true) ∧
      (t.next env).1.state = .heloOut)) = true) (by
    unfold Turn.SaysHello
    rw [Option.any_eq_true]
    simp only [decide_eq_true_eq])

theorem Turn.SaysHello.greeted (h : t.SaysHello env)
    (henabled : t.act.Enabled t.now t.con t.state) (hroom : t.con.HasRoom) :
    (t.next env).1.Greeted := by
  obtain ⟨line, hline, hstate, hhello, hout⟩ := h
  obtain ⟨-, hnext⟩ := @Turn.next_of_line env _ _ hline henabled hroom
  have hbuf : (t.next env).1.inBuf = line.inBuf := by
    rw [hnext]
    exact (conNextState_step ..).sameInBuf (by rw [hstate]; simp)
  refine ⟨by rw [hout]; decide, fun _ => ?_, fun hs => ?_⟩
  · rw [Con.hasCommand_congr hbuf]
    rcases hhello with h | h
    · exact Con.hasCommand_other h (by decide) (by decide)
    · exact Con.hasCommand_other h (by decide) (by decide)
  · rw [hout] at hs
    simp at hs

theorem saidIn_cons (t : Turn) (turns : List Turn) :
    saidIn (t :: turns) = saidIn turns ++ t.said.toList := by
  unfold saidIn
  rw [List.filterMap_cons]
  cases t.said with
  | none => simp
  | some said => simp

theorem emittedIn_cons (t : Turn) (turns : List Turn) :
    emittedIn env (t :: turns) = emittedIn env turns ++ t.emitted env := by
  simp [emittedIn]

theorem saidIn_append (later turns : List Turn) :
    saidIn (later ++ turns) = saidIn turns ++ saidIn later := by
  simp [saidIn]

theorem emittedIn_append (later turns : List Turn) :
    emittedIn env (later ++ turns) = emittedIn env turns ++ emittedIn env later := by
  simp [emittedIn]

/-- A life after HELO has followed the transactions of its lines. -/
structure InSession (env : ConEnv) (hello : Con × GreydState) (later : List Turn)
    (p : Con × GreydState) : Prop where
  greeted : p.1.Greeted
  party : p.1.fd = none ∨ p.1.party p.2 = hello.1.party hello.2
  transaction : p.1.transaction =
    hello.1.transaction.hearAll (hello.1.party hello.2) (saidIn later)
  messages : emittedIn env later =
    hello.1.transaction.emitsAll (hello.1.party hello.2) (saidIn later)

theorem ConLife.session {later : List Turn} {hello : Turn}
    (hlife : ConLife env accepts (later ++ hello :: before) p) (hhello : hello.SaysHello env) :
    InSession env (hello.next env) later p := by
  induction later generalizing p with
  | nil =>
    cases hlife with
    | turn hbefore hcon _ _ henabled =>
      subst hcon
      exact ⟨hhello.greeted henabled hbefore.hasRoom, .inr rfl, rfl, rfl⟩
  | cons t later ih =>
    cases hlife with
    | @turn _ con state _ hlater hcon hproxy hconfig henabled =>
      subst hcon
      obtain ⟨hgreeted, hparty, htxn, hmessages⟩ := ih hlater
      have hsame : t.con.party t.state = (hello.next env).1.party (hello.next env).2 :=
        (Con.party_congr rfl rfl rfl hproxy hconfig).trans (hparty.resolve_left henabled.1)
      obtain ⟨hnext, hparty', htxn', hmessages'⟩ :=
        t.follows henabled hlater.hasRoom hlater.carries.alternates hgreeted
      have hemitted : t.emitted env =
          t.said.elim [] (t.con.transaction.emits (t.con.party t.state)) := by
        unfold Turn.emitted
        rw [hmessages', List.drop_left]
      rw [hsame] at hparty' htxn' hemitted
      rw [htxn] at htxn' hemitted
      refine ⟨hnext, hparty', ?_, ?_⟩
      · rw [htxn', saidIn_cons]
        cases t.said with
        | none => rw [Option.toList_none, List.append_nil]; rfl
        | some said =>
          unfold Transaction.hearAll
          rw [Option.toList_some, List.foldl_append]
          rfl
      · rw [emittedIn_cons, hmessages, hemitted, saidIn_cons, Transaction.emitsAll_append]
        cases t.said with
        | none => rfl
        | some said => rw [Option.toList_some, Transaction.emitsAll_singleton]; rfl

/-- What is written for the lines behind some turns. -/
theorem InSession.later {hello : Con × GreydState} {later d : List Turn} {q : Con × GreydState}
    (h : InSession env hello later p) (h' : InSession env hello (d ++ later) q) :
    emittedIn env d = p.1.transaction.emitsAll (hello.1.party hello.2) (saidIn d) := by
  have hmessages := h'.messages
  rw [saidIn_append, emittedIn_append, Transaction.emitsAll_append, h.messages,
    ← h.transaction] at hmessages
  exact List.append_cancel_left hmessages

end Lives

end Greyd
