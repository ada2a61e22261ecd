import Greyd.ConRuns

/-!
# The envelope of a grey message

The sender and the recipient live in buffers that each command overwrites from the front on.
What a command leaves in its buffer is the normal form of its argument exactly as long as
nothing longer was there before, and the argument was not cut off.
-/
namespace Greyd

/-! ## Buffers of mail addresses -/

/-- The argument of a MAIL FROM or RCPT TO command: the first word behind the colon. -/
def mailArgument (f : CStr) : CStr :=
  match (strsep ":".toList f).2 with
  | none => []
  | some f => (strsep " \t\n\r".toList (f.dropWhile isBlank)).1

/-- The argument's normal form replaces what the buffer holds. -/
def Fits (arg : CStr) (buf : List Char) : Prop :=
  normalForm (arg.take (greyMaxMail - 1)) = normalForm arg ∧
    (cstr buf).length ≤ (normalForm arg).length

instance (arg : CStr) (buf : List Char) : Decidable (Fits arg buf) :=
  inferInstanceAs (Decidable (_ ∧ _))

/-- A buffer that holds a string and nothing but NULs behind it. -/
structure HoldsMail (buf : List Char) (s : CStr) : Prop where
  length : buf.length = greyMaxMail
  getD : ∀ i, buf.getD i nul = s.getD i nul
  noNul : nul ∉ s

theorem getD_of_le {s : CStr} {i : Nat} (h : s.length ≤ i) : s.getD i nul = nul :=
  List.getD_eq_default _ _ h

theorem HoldsMail.cstr {buf : List Char} {s : CStr} (h : HoldsMail buf s) : Greyd.cstr buf = s :=
  cstr_of_getD h.noNul (fun i _ => h.getD i) ((h.getD _).trans (getD_of_le le_rfl))

theorem HoldsMail.empty : HoldsMail Con.zero.mail [] where
  length := List.length_replicate
  getD := fun i => by
    show (List.replicate greyMaxMail nul).getD i nul = nul
    rw [List.getD_eq_getElem?_getD, List.getElem?_replicate]
    split <;> rfl
  noNul := by simp

/-- `normalize_email_addr` with an argument that fits. -/
theorem HoldsMail.normalize {buf : List Char} {s arg : CStr} (h : HoldsMail buf s)
    (harg : nul ∉ arg) (hfits : Fits arg buf) :
    HoldsMail (normalizeEmailAddr (arg.take (greyMaxMail - 1)) buf greyMaxMail) (normalForm arg) := by
  obtain ⟨hcut, hlong⟩ := hfits
  have hshort : (normalForm arg).length ≤ greyMaxMail - 1 := by
    rw [← hcut]
    exact (normalForm_length_le _).trans (List.length_take_le _ _)
  have hbuf : normalizeEmailAddr (arg.take (greyMaxMail - 1)) buf greyMaxMail =
      (normalForm arg ++ buf.drop (normalForm arg).length).set (greyMaxMail - 1) nul := by
    unfold normalizeEmailAddr
    rw [mailChars_eq, hcut]
  have hlen : (normalForm arg ++ buf.drop (normalForm arg).length).length = greyMaxMail := by
    rw [List.length_append, List.length_drop, h.length]
    have : greyMaxMail - 1 ≤ greyMaxMail := Nat.sub_le _ _
    omega
  refine ⟨by rw [hbuf, List.length_set, hlen], fun i => ?_, nul_not_mem_normalForm harg⟩
  rw [hbuf]
  by_cases hlast : i = greyMaxMail - 1
  · rw [hlast, List.getD_eq_getElem?_getD, List.getElem?_set_self (by rw [hlen]; decide),
      getD_of_le hshort]
    rfl
  · rw [List.getD_eq_getElem?_getD, List.getElem?_set_ne (Ne.symm hlast),
      ← List.getD_eq_getElem?_getD]
    rcases Nat.lt_or_ge i (normalForm arg).length with hfront | hback
    · exact List.getD_append _ _ _ _ hfront
    · rw [List.getD_append_right _ _ _ _ hback, getD_of_le hback, List.getD_eq_getElem?_getD,
        List.getElem?_drop, ← List.getD_eq_getElem?_getD, Nat.add_sub_cancel' hback, h.getD]
      rw [h.cstr] at hlong
      exact getD_of_le (hlong.trans hback)

/-- `set_log` finds the argument and cuts it off. -/
theorem setLog_eq (f : CStr) :
    setLog greyMaxMail f = (mailArgument f).take (greyMaxMail - 1) := by
  unfold setLog mailArgument
  cases (strsep ":".toList f).2 with
  | none => rfl
  | some rest =>
    show ((List.take _ ((rest.dropWhile isBlank).takeWhile _)).takeWhile _) =
      ((rest.dropWhile isBlank).takeWhile _).take _
    rw [← List.take_takeWhile, List.takeWhile_takeWhile]
    congr 2
    funext c
    simp only [decide_eq_true_eq]
    rw [decide_eq_decide]
    simp
    tauto

theorem strsep_rest_subset {delims f rest : CStr} (h : (strsep delims f).2 = some rest) :
    rest ⊆ f := by
  unfold strsep at h
  dsimp only at h
  intro c hc
  cases hdrop : f.dropWhile (· ∉ delims) with
  | nil => rw [hdrop] at h; simp at h
  | cons d tail =>
    rw [hdrop] at h
    simp only [Option.some.injEq] at h
    apply List.dropWhile_subset (· ∉ delims)
    rw [hdrop, h]
    exact List.mem_cons_of_mem _ hc

theorem nul_not_mem_mailArgument {f : CStr} (h : nul ∉ f) : nul ∉ mailArgument f := by
  unfold mailArgument
  split
  · simp
  · next rest hrest =>
    intro hmem
    have hmem' := List.dropWhile_subset _ (List.takeWhile_subset _ hmem)
    exact h (strsep_rest_subset hrest hmem')

/-! ## Reading and writing take turns -/

/-- A connection waits for input or for its output to be written, as its state says, and a
command's state tells where the connection came from. -/
structure Con.Alternates (con : Con) : Prop where
  one : con.r = 0 ∨ con.w = 0
  out : ∀ {n}, Awaits con.state n → con.r = 0
  command : con.InCommand → con.w = 0
  back : con.InCommand → Awaits con.lastState con.state

section Alternates

variable {env : ConEnv} {now : Int} {nat : NatReply} {con con' : Con} {state : GreydState}
  {next : Con × GreydState}

/-- A connection that does not wait for input and is in no state in which commands are looked
at. -/
theorem Con.Alternates.ofReply (hr : con.r = 0) (hcommand : ¬ con.InCommand) : con.Alternates where
  one := .inl hr
  out := fun _ => hr
  command := fun h => absurd h hcommand
  back := fun h => absurd h hcommand

theorem Con.Alternates.congr (h : con.Alternates) (hr : con'.r = con.r) (hw : con'.w = con.w)
    (hstate : con'.state = con.state) (hlast : con'.lastState = con.lastState) :
    con'.Alternates := by
  have hcommand : con'.InCommand ↔ con.InCommand := by
    unfold Con.InCommand
    rw [hstate]
  refine ⟨by rw [hr, hw]; exact h.one, fun hout => hr.trans (h.out (hstate ▸ hout)),
    fun hc => hw.trans (h.command (hcommand.mp hc)), fun hc => ?_⟩
  rw [hstate, hlast]
  exact h.back (hcommand.mp hc)

theorem conDone_alternates (hr : con.r = 0) : (conDone now con state).1.Alternates := by
  obtain ⟨_, _, _, _, hdone⟩ := conDone_frame now con state
  rw [hdone]
  exact .ofReply hr (by simp [Con.InCommand])

/-- A step of a connection that waits for nothing. -/
theorem NextStep.alternates (h : NextStep env now nat con state next) (hr : con.r = 0)
    (hw : con.w = 0) (hback : con.InCommand → Awaits con.lastState con.state) :
    next.1.Alternates := by
  cases h with
  | quit _ _ => exact .ofReply hr (by simp [Con.InCommand])
  | rset _ _ => exact .ofReply hr (by simp [Con.InCommand])
  | await hwaits =>
    exact ⟨.inr hw, fun hout => absurd hout hwaits.not_out, fun _ => hw, fun _ => hwaits⟩
  | banner _ => exact .ofReply hr (by simp [Con.InCommand, conStart])
  | proxied _ _ _ => exact .ofReply hr (by simp [Con.InCommand, conStart])
  | refused _ _ => exact conDone_alternates hr
  | noHelo _ => exact .ofReply hr (by simp [Con.InCommand])
  | helo _ => exact .ofReply hr (by simp [Con.InCommand])
  | mail _ _ => exact .ofReply (by simpa using hr) (by simp [Con.InCommand])
  | rcpt _ _ _ => exact .ofReply (by simpa using hr) (by simp [Con.InCommand])
  | grey _ _ _ =>
    obtain ⟨_, hnat⟩ := conGetOrigDst_frame (con.takeRcpt.reply "250 OK\r\n".toList .rcptOut now)
      state nat
    rw [hnat]
    exact .ofReply (by simpa using hr) (by simp [Con.InCommand])
  | data _ =>
    exact .ofReply hr (by simp [Con.InCommand, Con.ready354, Con.window, Con.resetInput, Con.setState])
  | dataReply _ _ => exact conDone_alternates hr
  | stay hcommand hcon _ =>
    have hlast := (hback hcommand).back hcommand
    refine .ofReply ?_ ?_
    · rcases hcon with rfl | rfl <;> simpa [Con.countBad] using hr
    · unfold Con.InCommand
      rcases hcon with rfl | rfl <;>
        rcases hlast with hlast | hlast | hlast | hlast <;> simp [Con.countBad, hlast]
  | badCmd _ => exact conDone_alternates hr
  | body hstate =>
    refine ⟨.inr hw, fun hout => ?_, fun _ => hw, fun hc => ?_⟩
    · have hout' : Awaits con.state _ := hout
      rw [hstate] at hout'
      cases hout'
    · exact hback hc
  | bodyEnd _ => exact conDone_alternates hr
  | reply _ => exact conDone_alternates hr
  | close hstate =>
    refine .ofReply hr ?_
    have hstate' : (conClose con state).1.state = .close := hstate
    simp [Con.InCommand, hstate']

/-- The calls of `Con_next_state` in a turn find a connection that waits for nothing. -/
theorem TurnStep.alternates {act : ConAct} (h : TurnStep env now nat con state act next)
    (henabled : act.Enabled now con state) (halt : con.Alternates) : next.1.Alternates := by
  obtain ⟨hone, hout, hcommand, hback⟩ := halt
  cases h with
  | readClosed _ => exact Con.Alternates.congr ⟨hone, hout, hcommand, hback⟩ rfl rfl rfl rfl
  | readMore _ => exact Con.Alternates.congr ⟨hone, hout, hcommand, hback⟩ rfl rfl rfl rfl
  | readLine _ =>
    have hw : con.w = 0 := hone.resolve_left henabled.reads
    exact (conNextState_step _ _ _ _ _).alternates rfl hw hback
  | writeMore hwrote _ =>
    have hw := henabled.2.1
    have hr : con.r = 0 := hone.resolve_right hw
    obtain ⟨hsame, -⟩ := hwrote.same (now + _)
    refine .ofReply (hwrote.r.trans hr) fun hc => hw (hcommand ?_)
    unfold Con.InCommand at hc ⊢
    rw [hsame.state] at hc
    exact hc
  | writeDone hwrote _ =>
    obtain ⟨hsame, -⟩ := hwrote.same 0
    apply (conNextState_step _ _ _ _ _).alternates
    · exact hwrote.r.trans (hone.resolve_right henabled.2.1)
    · rfl
    · unfold Con.InCommand
      rw [hsame.state, hsame.lastState]
      exact hback
  | close => exact Con.Alternates.congr ⟨hone, hout, hcommand, hback⟩ rfl rfl rfl rfl

end Alternates

/-! ## The commands of a life -/

/-- The connection as a completed line is looked at. -/
def Turn.line (t : Turn) : Option Con :=
  match t.act with
  | .read (.data bytes) => if t.con.Completes bytes then some (t.con.received bytes) else none
  | _ => none

/-- The argument of a MAIL FROM command that is taken in this turn. -/
def Turn.mailFrom (t : Turn) : Option CStr :=
  t.line.bind fun con =>
    if (con.state = .heloIn ∨ con.state = .mailIn) ∧ con.hasCommand "MAIL".toList then
      some (mailArgument con.input)
    else none

/-- The argument of a RCPT TO command that is taken in this turn. -/
def Turn.rcptTo (t : Turn) : Option CStr :=
  t.line.bind fun con =>
    if (con.state = .heloIn ∨ con.state = .mailIn ∨ con.state = .rcptIn) ∧
        con.hasCommand "RCPT".toList then
      some (mailArgument con.input)
    else none

/-- The argument of the most recent MAIL FROM command. -/
def lastMail (turns : List Turn) : Option CStr := turns.findSome? Turn.mailFrom

/-- What the argument of a command of this turn replaces. -/
def Turn.Fits (t : Turn) : Prop :=
  (∀ arg ∈ t.mailFrom, Greyd.Fits arg t.con.mail) ∧ ∀ arg ∈ t.rcptTo, Greyd.Fits arg t.con.rcpt

instance (t : Turn) : Decidable t.Fits := inferInstanceAs (Decidable (_ ∧ _))

section Commands

variable {env : ConEnv} {now : Int} {nat : NatReply} {con : Con} {state : GreydState}
  {next : Con × GreydState}

/-- A line is one command only. -/
theorem Con.hasCommand_other {a b : CStr} (h : con.hasCommand a = true)
    (hlen : b.length = a.length) (hne : b.map Char.toLower ≠ a.map Char.toLower) :
    con.hasCommand b = false := by
  unfold Con.hasCommand hasPrefixNocase at h ⊢
  rw [decide_eq_true_eq] at h
  rw [decide_eq_false_iff_not, hlen, h]
  exact hne.symm

theorem conNextState_mail (hstate : con.state = .heloIn ∨ con.state = .mailIn)
    (hmail : con.hasCommand "MAIL".toList = true) :
    conNextState env now nat con state =
      (con.takeMail.reply "250 OK\r\n".toList .mailOut now, state) := by
  have hquit := Con.hasCommand_other (b := "QUIT".toList) hmail (by decide) (by decide)
  have hrset := Con.hasCommand_other (b := "RSET".toList) hmail (by decide) (by decide)
  have hhelo := Con.hasCommand_other (b := "HELO".toList) hmail (by decide) (by decide)
  have hehlo := Con.hasCommand_other (b := "EHLO".toList) hmail (by decide) (by decide)
  have htake : conMail now nat con state =
      (con.takeMail.reply "250 OK\r\n".toList .mailOut now, state) := by
    unfold conMail
    rw [if_pos hmail]
    rfl
  unfold conNextState
  rw [if_neg (by rw [hquit]; simp), if_neg (by rw [hrset]; simp)]
  rcases hstate with hstate | hstate
  · rw [hstate]
    show conHelo now nat con state = _
    unfold conHelo
    rw [if_neg (by rw [hhelo, hehlo]; simp), htake]
  · rw [hstate]
    exact htake

/-- Only the two commands change the envelope. -/
theorem NextStep.envelope (h : NextStep env now nat con state next) :
    (next.1.mail = con.mail ∨
      (con.state = .heloIn ∨ con.state = .mailIn) ∧ con.hasCommand "MAIL".toList = true) ∧
    (next.1.rcpt = con.rcpt ∨
      ((con.state = .heloIn ∨ con.state = .mailIn ∨ con.state = .rcptIn) ∧
        con.hasCommand "RCPT".toList = true) ∧ next.1.rcpt = con.takeRcpt.rcpt) := by
  cases h with
  | mail hstate hmail => exact ⟨.inr ⟨hstate, hmail⟩, .inl (by simp)⟩
  | rcpt hstate hrcpt _ => exact ⟨.inl (by simp), .inr ⟨⟨hstate, hrcpt⟩, by simp⟩⟩
  | grey hstate hrcpt _ =>
    obtain ⟨_, hnat⟩ := conGetOrigDst_frame (con.takeRcpt.reply "250 OK\r\n".toList .rcptOut now)
      state nat
    rw [hnat]
    exact ⟨.inl (by simp), .inr ⟨⟨hstate, hrcpt⟩, by simp⟩⟩
  | refused _ _ => exact ⟨.inl (conDone_mail _ _ _), .inl (conDone_rcpt _ _ _)⟩
  | dataReply _ _ => exact ⟨.inl (conDone_mail _ _ _), .inl (conDone_rcpt _ _ _)⟩
  | badCmd _ => exact ⟨.inl (conDone_mail _ _ _), .inl (conDone_rcpt _ _ _)⟩
  | bodyEnd _ => exact ⟨.inl (conDone_mail _ _ _), .inl (conDone_rcpt _ _ _)⟩
  | reply _ => exact ⟨.inl (conDone_mail _ _ _), .inl (conDone_rcpt _ _ _)⟩
  | stay _ hcon _ =>
    rcases hcon with rfl | rfl <;> exact ⟨.inl (by simp [Con.countBad]), .inl (by simp [Con.countBad])⟩
  | quit _ _ => exact ⟨.inl rfl, .inl rfl⟩
  | rset _ _ => exact ⟨.inl rfl, .inl rfl⟩
  | await _ => exact ⟨.inl rfl, .inl rfl⟩
  | banner _ => exact ⟨.inl rfl, .inl rfl⟩
  | proxied _ _ _ => exact ⟨.inl rfl, .inl rfl⟩
  | noHelo _ => exact ⟨.inl rfl, .inl rfl⟩
  | helo _ => exact ⟨.inl rfl, .inl rfl⟩
  | data _ => exact ⟨.inl rfl, .inl rfl⟩
  | body _ => exact ⟨.inl rfl, .inl rfl⟩
  | close _ => exact ⟨.inl rfl, .inl rfl⟩

/-- A step changes the sender where it takes a MAIL FROM command, and nowhere else. -/
theorem conNextState_sender :
    (conNextState env now nat con state).1.mail =
      if (con.state = .heloIn ∨ con.state = .mailIn) ∧ con.hasCommand "MAIL".toList = true then
        con.takeMail.mail
      else con.mail := by
  split
  · next h => rw [conNextState_mail h.1 h.2]; rfl
  · next h =>
    exact (conNextState_step env now nat con state).envelope.1.resolve_right h

theorem conNextState_rcpt (hstate : con.state = .heloIn ∨ con.state = .mailIn ∨ con.state = .rcptIn)
    (hrcpt : con.hasCommand "RCPT".toList = true) :
    (conNextState env now nat con state).1.rcpt = con.takeRcpt.rcpt := by
  have hquit := Con.hasCommand_other (b := "QUIT".toList) hrcpt (by decide) (by decide)
  have hrset := Con.hasCommand_other (b := "RSET".toList) hrcpt (by decide) (by decide)
  have hhelo := Con.hasCommand_other (b := "HELO".toList) hrcpt (by decide) (by decide)
  have hehlo := Con.hasCommand_other (b := "EHLO".toList) hrcpt (by decide) (by decide)
  have hmail := Con.hasCommand_other (b := "MAIL".toList) hrcpt (by decide) (by decide)
  have htake : (conRcpt now nat con state).1.rcpt = con.takeRcpt.rcpt := by
    have hreply : (con.takeRcpt.reply "250 OK\r\n".toList .rcptOut now).rcpt = con.takeRcpt.rcpt := by
      simp
    obtain ⟨_, hnat⟩ := conGetOrigDst_frame (con.takeRcpt.reply "250 OK\r\n".toList .rcptOut now)
      state nat
    show (if con.hasCommand "RCPT".toList = true then
      if con.takeRcpt.Complete state then (conGetOrigDst (con.takeRcpt.reply _ .rcptOut now) state nat, _)
      else (con.takeRcpt.reply "250 OK\r\n".toList .rcptOut now, state)
      else conSpam now con state).1.rcpt = _
    rw [if_pos hrcpt, hnat]
    split <;> exact hreply
  have hskip : conMail now nat con state = conRcpt now nat con state := by
    unfold conMail
    rw [if_neg (by rw [hmail]; simp)]
  unfold conNextState
  rw [if_neg (by rw [hquit]; simp), if_neg (by rw [hrset]; simp)]
  rcases hstate with hstate | hstate | hstate <;> rw [hstate]
  · show (conHelo now nat con state).1.rcpt = _
    unfold conHelo
    rw [if_neg (by rw [hhelo, hehlo]; simp), hskip, htake]
  · exact (congrArg (·.1.rcpt) hskip).trans htake
  · exact htake

/-- A step changes the recipient where it takes a RCPT TO command, and nowhere else. -/
theorem conNextState_recipient :
    (conNextState env now nat con state).1.rcpt =
      if (con.state = .heloIn ∨ con.state = .mailIn ∨ con.state = .rcptIn) ∧
          con.hasCommand "RCPT".toList = true then
        con.takeRcpt.rcpt
      else con.rcpt := by
  split
  · next h => exact conNextState_rcpt h.1 h.2
  · next h =>
    exact (conNextState_step env now nat con state).envelope.2.resolve_right fun hc => h hc.1

end Commands

/-! ## The envelope of a life -/

/-- A buffer after commands with the given arguments, the latest first. -/
def mailBuffer : List CStr → List Char
  | [] => Con.zero.mail
  | arg :: args => normalizeEmailAddr (arg.take (greyMaxMail - 1)) (mailBuffer args) greyMaxMail

/-- The arguments of the MAIL FROM commands of a life, the latest first. -/
def mailCommands (turns : List Turn) : List CStr := turns.filterMap Turn.mailFrom

def rcptCommands (turns : List Turn) : List CStr := turns.filterMap Turn.rcptTo

/-- The commands of the turns before have filled the connection's buffers. -/
structure Carries (turns : List Turn) (con : Con) : Prop where
  mail : con.mail = mailBuffer (mailCommands turns)
  rcpt : con.rcpt = mailBuffer (rcptCommands turns)
  alternates : con.Alternates

section Lives

variable {env : ConEnv} {turns : List Turn} {t : Turn} {con : Con}

theorem Turn.line_none (h : t.line = none) : t.mailFrom = none ∧ t.rcptTo = none := by
  unfold Turn.mailFrom Turn.rcptTo
  rw [h]
  exact ⟨rfl, rfl⟩

/-- A turn in which no line is completed. -/
theorem Carries.same (h : Carries turns t.con) (hline : t.line = none)
    (hmail : con.mail = t.con.mail) (hrcpt : con.rcpt = t.con.rcpt) (halt : con.Alternates) :
    Carries (t :: turns) con where
  mail := by
    rw [mailCommands, List.filterMap_cons_none (Turn.line_none hline).1, hmail]
    exact h.mail
  rcpt := by
    rw [rcptCommands, List.filterMap_cons_none (Turn.line_none hline).2, hrcpt]
    exact h.rcpt
  alternates := halt

/-- A turn in which a line is completed. -/
theorem Carries.readLine (h : Carries turns t.con) {bytes : List Char}
    (hline : t.line = some (t.con.received bytes))
    (halt : (conNextState env t.now t.nat (t.con.received bytes) t.state).1.Alternates) :
    Carries (t :: turns) (conNextState env t.now t.nat (t.con.received bytes) t.state).1 := by
  have hmail : (t.con.received bytes).mail = mailBuffer (mailCommands turns) := h.mail
  have hrcpt : (t.con.received bytes).rcpt = mailBuffer (rcptCommands turns) := h.rcpt
  refine ⟨?_, ?_, halt⟩
  · rw [conNextState_sender]
    split
    · next hcommand =>
      have harg : t.mailFrom = some (mailArgument (t.con.received bytes).input) := by
        unfold Turn.mailFrom
        rw [hline]
        exact if_pos hcommand
      rw [mailCommands, List.filterMap_cons_some harg]
      show normalizeEmailAddr (setLog greyMaxMail _) _ greyMaxMail = _
      rw [setLog_eq, hmail]
      rfl
    · next hcommand =>
      have hnone : t.mailFrom = none := by
        unfold Turn.mailFrom
        rw [hline]
        exact if_neg hcommand
      rw [mailCommands, List.filterMap_cons_none hnone]
      exact hmail
  · rw [conNextState_recipient]
    split
    · next hcommand =>
      have harg : t.rcptTo = some (mailArgument (t.con.received bytes).input) := by
        unfold Turn.rcptTo
        rw [hline]
        exact if_pos hcommand
      rw [rcptCommands, List.filterMap_cons_some harg]
      show normalizeEmailAddr (setLog greyMaxMail _) _ greyMaxMail = _
      rw [setLog_eq, hrcpt]
      rfl
    · next hcommand =>
      have hnone : t.rcptTo = none := by
        unfold Turn.rcptTo
        rw [hline]
        exact if_neg hcommand
      rw [rcptCommands, List.filterMap_cons_none hnone]
      exact hrcpt

/-- One turn. -/
theorem Carries.turn (h : Carries turns t.con) (hroom : t.con.HasRoom)
    (henabled : t.act.Enabled t.now t.con t.state) : Carries (t :: turns) (t.next env).1 := by
  have hstep := henabled.step env t.nat hroom
  have halt := hstep.alternates henabled h.alternates
  unfold Turn.next
  generalize hact : t.act = act at hstep henabled halt ⊢
  generalize act.run env t.now t.nat t.con t.state = next at hstep halt ⊢
  cases hstep with
  | readClosed hresult =>
    refine h.same ?_ rfl rfl halt
    unfold Turn.line
    rcases hresult with rfl | rfl <;> rw [hact]
  | readMore hmore =>
    refine h.same ?_ rfl rfl halt
    unfold Turn.line
    rw [hact]
    exact if_neg hmore
  | readLine hline =>
    refine h.readLine ?_ halt
    unfold Turn.line
    rw [hact]
    exact if_pos hline
  | writeMore hwrote _ =>
    obtain ⟨hsame, -⟩ := hwrote.same (t.now + _)
    refine h.same ?_ hsame.mail hsame.rcpt halt
    unfold Turn.line
    rw [hact]
  | @writeDone result con' state' hwrote _ =>
    obtain ⟨hsame, -⟩ := hwrote.same 0
    -- commands are only looked at by connections that have nothing to write
    have hcommand : ¬ (con'.wait 0).InCommand := by
      intro hc
      unfold Con.InCommand at hc
      rw [hsame.state] at hc
      exact henabled.2.1 (h.alternates.command hc)
    obtain ⟨hmail, hrcpt⟩ := (conNextState_step env t.now t.nat (con'.wait 0) state').envelope
    unfold Con.InCommand at hcommand
    refine h.same ?_ ((hmail.resolve_right fun hc => hcommand (by tauto)).trans hsame.mail)
      ((hrcpt.resolve_right fun hc => hcommand (by tauto)).trans hsame.rcpt) halt
    unfold Turn.line
    rw [hact]
  | close =>
    refine h.same ?_ rfl rfl halt
    unfold Turn.line
    rw [hact]

theorem conInit_carries (fd : Nat) (src : Sockaddr) (now : Int) (nat : NatReply)
    (state : GreydState) : Carries [] (conInit env fd src now nat state).1 := by
  obtain ⟨stutter, hinit⟩ := conInit_eq env fd src now nat state
  have hcommand := (acceptedCon_begins env fd src now stutter state).2
  rw [hinit]
  generalize hcon : acceptedCon env fd src now stutter state = con at hcommand ⊢
  generalize ({ state with clients := _, blackClients := _ } : GreydState) = state₁
  have hstep := conNextState_step env now nat con state₁
  obtain ⟨hmail, hrcpt⟩ := hstep.envelope
  unfold Con.InCommand at hcommand
  refine ⟨?_, ?_, hstep.alternates (hcon ▸ rfl) (hcon ▸ rfl) fun hc => absurd hc hcommand⟩
  · rw [hmail.resolve_right fun hc => hcommand (by tauto), ← hcon]
    rfl
  · rw [hrcpt.resolve_right fun hc => hcommand (by tauto), ← hcon]
    rfl

/-- In every life, a connection's buffers are what its commands have left in them. -/
theorem ConLife.carries {accepts : GreydState → Sockaddr → Prop} {p : Con × GreydState}
    (h : ConLife env accepts turns p) : Carries turns p.1 := by
  induction h with
  | accept _ => exact conInit_carries _ _ _ _ _
  | turn hlife hcon _ _ henabled ih =>
    subst hcon
    exact ih.turn hlife.hasRoom henabled

/-! ### Arguments that fit -/

theorem nul_not_mem_mailFrom {arg : CStr} (h : t.mailFrom = some arg) : nul ∉ arg := by
  obtain ⟨con, -, hcon⟩ := Option.bind_eq_some_iff.mp h
  rw [Option.ite_none_right_eq_some, Option.some.injEq] at hcon
  exact hcon.2 ▸ nul_not_mem_mailArgument (nul_not_mem_cstr con.inBuf)

theorem nul_not_mem_rcptTo {arg : CStr} (h : t.rcptTo = some arg) : nul ∉ arg := by
  obtain ⟨con, -, hcon⟩ := Option.bind_eq_some_iff.mp h
  rw [Option.ite_none_right_eq_some, Option.some.injEq] at hcon
  exact hcon.2 ▸ nul_not_mem_mailArgument (nul_not_mem_cstr con.inBuf)

/-- Where every argument replaces what its buffer holds, the sender's buffer holds the latest
one only, and the recipient's some argument. -/
theorem ConLife.holdsMail {accepts : GreydState → Sockaddr → Prop} {p : Con × GreydState}
    (h : ConLife env accepts turns p) (hfits : ∀ g ∈ turns, g.Fits) :
    HoldsMail (mailBuffer (mailCommands turns)) ((lastMail turns).elim [] normalForm) ∧
      HoldsMail (mailBuffer (rcptCommands turns))
        ((turns.findSome? Turn.rcptTo).elim [] normalForm) := by
  induction h with
  | accept _ => exact ⟨.empty, .empty⟩
  | @turn turns con state t hlife hcon _ _ _ ih =>
    subst hcon
    rw [List.forall_mem_cons] at hfits
    obtain ⟨hmail, hrcpt⟩ := ih hfits.2
    have hcarries := hlife.carries
    refine ⟨?_, ?_⟩
    · unfold mailCommands lastMail
      rw [List.findSome?_cons]
      cases hcommand : t.mailFrom with
      | none => rwa [List.filterMap_cons_none hcommand]
      | some arg =>
        rw [List.filterMap_cons_some hcommand]
        exact hmail.normalize (nul_not_mem_mailFrom hcommand)
          (hcarries.mail ▸ hfits.1.1 arg hcommand)
    · unfold rcptCommands
      rw [List.findSome?_cons]
      cases hcommand : t.rcptTo with
      | none => rwa [List.filterMap_cons_none hcommand]
      | some arg =>
        rw [List.filterMap_cons_some hcommand]
        exact hrcpt.normalize (nul_not_mem_rcptTo hcommand)
          (hcarries.rcpt ▸ hfits.1.2 arg hcommand)

/-- A grey message is written for a line that is completed in the turn. -/
theorem Turn.emitted_line (halt : t.con.Alternates) (hroom : t.con.HasRoom)
    (henabled : t.act.Enabled t.now t.con t.state) {m : GreyMessage} (hm : m ∈ t.emitted env) :
    ∃ bytes, t.rcptTo = some (mailArgument (t.con.received bytes).input) ∧
      cstr t.con.mail ≠ [] ∧ (t.next env).1.state = .rcptOut ∧
      m = ⟨(t.next env).1.dstAddr, t.con.srcAddr, t.con.helo, cstr t.con.mail,
        cstr (t.con.received bytes).takeRcpt.rcpt⟩ := by
  have hstep := henabled.step env t.nat hroom
  unfold Turn.emitted at hm
  unfold Turn.next at hm ⊢
  generalize hact : t.act = act at hstep henabled hm ⊢
  generalize act.run env t.now t.nat t.con t.state = next at hstep hm ⊢
  have hsilent : next.2.greyOut ≠ t.state.greyOut := by
    intro h
    rw [h, List.drop_length] at hm
    simp at hm
  cases hstep with
  | readClosed _ => exact absurd rfl hsilent
  | readMore _ => exact absurd rfl hsilent
  | @readLine bytes hline =>
    have hline' : t.line = some (t.con.received bytes) := by
      unfold Turn.line
      rw [hact]
      exact if_pos hline
    rcases (conNextState_step env t.now t.nat (t.con.received bytes) t.state).emits with
      hquiet | ⟨hstate, hrcpt, hmail, hout, hemit⟩
    · exact absurd hquiet hsilent
    · rw [hemit, List.drop_left, List.mem_singleton] at hm
      refine ⟨bytes, ?_, hmail, hout, hm⟩
      unfold Turn.rcptTo
      rw [hline']
      exact if_pos ⟨hstate, hrcpt⟩
  | writeMore hwrote _ => exact absurd (hwrote.same 0).2 hsilent
  | @writeDone result con' state' hwrote _ =>
    obtain ⟨hsame, hgrey⟩ := hwrote.same 0
    rcases (conNextState_step env t.now t.nat (con'.wait 0) state').emits with
      hquiet | ⟨hstate, -⟩
    · exact absurd (hquiet.trans hgrey) hsilent
    · rw [hsame.state] at hstate
      exact absurd (halt.command (by unfold Con.InCommand; tauto)) henabled.2.1
  | close => exact absurd rfl hsilent

/-- The texts of a grey message: the buffers are those that the commands have left. -/
theorem ConLife.emitted_texts {accepts : GreydState → Sockaddr → Prop} {p : Con × GreydState}
    (hlife : ConLife env accepts (t :: turns) p) {m : GreyMessage} (hm : m ∈ t.emitted env) :
    ∃ arg, t.rcptTo = some arg ∧ cstr (mailBuffer (mailCommands turns)) ≠ [] ∧
      p.1.state = .rcptOut ∧ m = ⟨p.1.dstAddr, t.con.srcAddr, t.con.helo, cstr (mailBuffer (mailCommands turns)),
        cstr (mailBuffer (rcptCommands (t :: turns)))⟩ := by
  cases hlife with
  | turn hbefore hcon _ _ henabled =>
    subst hcon
    have hcarries := hbefore.carries
    obtain ⟨bytes, hrcptTo, hsender, hout, rfl⟩ :=
      Turn.emitted_line hcarries.alternates hbefore.hasRoom henabled hm
    have hrcpt : (t.con.received bytes).takeRcpt.rcpt = mailBuffer (rcptCommands (t :: turns)) := by
      show normalizeEmailAddr (setLog greyMaxMail _) t.con.rcpt greyMaxMail = _
      rw [setLog_eq, rcptCommands, List.filterMap_cons_some hrcptTo, hcarries.rcpt]
      rfl
    rw [hcarries.mail] at hsender ⊢
    exact ⟨_, hrcptTo, hsender, hout, by rw [hrcpt]⟩

/-- In a life in which every MAIL FROM and RCPT TO argument replaces what its buffer holds,
the sender and the recipient of a grey message are the normal forms of the argument of the
most recent MAIL FROM command and of the RCPT TO command it is written for. -/
theorem envelope_faithful {accepts : GreydState → Sockaddr → Prop} {p : Con × GreydState}
    (hlife : ConLife env accepts (t :: turns) p) (hfits : ∀ g ∈ t :: turns, g.Fits) :
    ∀ m ∈ t.emitted env, (∃ arg, lastMail turns = some arg ∧ m.from_ = normalForm arg) ∧
      ∃ arg, t.rcptTo = some arg ∧ m.to_ = normalForm arg := by
  intro m hm
  have hrcpt := (hlife.holdsMail hfits).2.cstr
  obtain ⟨arg, hto, hsender, -, rfl⟩ := hlife.emitted_texts hm
  rw [List.findSome?_cons, hto] at hrcpt
  rw [List.forall_mem_cons] at hfits
  cases hlife with
  | turn hbefore _ _ _ _ =>
    have hmail := (hbefore.holdsMail hfits.2).1.cstr
    refine ⟨?_, arg, hto, hrcpt⟩
    cases hlast : lastMail turns with
    | none =>
      rw [hlast] at hmail
      exact absurd hmail hsender
    | some sender =>
      rw [hlast] at hmail
      exact ⟨sender, rfl, hmail⟩

end Lives

/-- A client that names two recipients one after the other; a HELO is not asked for. -/
def twoRecipients (first second : CStr) : List (Int × ConAct) :=
  let line (s : CStr) : ConAct := .read (.data (s ++ "\r\n".toList))
  let ok : ConAct := .write ⟨1, 8⟩
  [(2, .write ⟨1, 48⟩), (2, line "MAIL FROM:<a@b.example>".toList), (3, ok),
    (3, line ("RCPT TO:".toList ++ first)), (4, ok), (4, line ("RCPT TO:".toList ++ second))]

def plainEnv : ConEnv := ⟨fun _ => "192.0.2.1".toList, fun _ _ => "192.0.2.1".toList, fun _ => []⟩

def plainStart : Con × GreydState :=
  conInit plainEnv 5 ⟨afInet, .ofSAddr 0x010200c0, 4711⟩ 1 none
    (.start configCreate 5 5 false (blacklistCreate [] [] .list))

/-- A second recipient that is longer than the first. -/
def longerTurns : List Turn :=
  (playTurns plainEnv none (twoRecipients "<c@d>".toList "<e@f.example>".toList) [] plainStart).1

/-- The second grey message names the second recipient. -/
theorem envelope_faithful_longer :
    ∃ t before m, longerTurns = t :: before ∧ m ∈ t.emitted plainEnv ∧
      (∃ arg, lastMail before = some arg ∧ m.from_ = normalForm arg) ∧
        ∃ arg, t.rcptTo = some arg ∧ m.to_ = normalForm arg := by
  have hne : longerTurns ≠ [] := by decide +kernel
  have hstart : ConLife plainEnv (fun _ _ => True) [] plainStart := .accept trivial
  have hlife := @ConLife.play _ _ none (twoRecipients "<c@d>".toList "<e@f.example>".toList) _ _
    hstart (by decide +kernel)
  have hturns : longerTurns = longerTurns.head hne :: longerTurns.tail :=
    (List.cons_head_tail hne).symm
  rw [show (playTurns _ _ _ _ _).1 = _ from hturns] at hlife
  obtain ⟨m, hm⟩ := List.exists_mem_of_ne_nil _
    (show (longerTurns.head (by decide +kernel)).emitted plainEnv ≠ [] by decide +kernel)
  refine ⟨_, _, m, hturns, hm, envelope_faithful hlife ?_ m hm⟩
  rw [← hturns]
  show ∀ g ∈ longerTurns, g.Fits
  decide +kernel

/-- A second recipient that is shorter than the first: the end of the first is left over. -/
theorem shorter_recipient_keeps_tail :
    ∃ t before p, ConLife plainEnv (fun _ _ => True) (t :: before) p ∧
      t.rcptTo = some "<e@f>".toList ∧ normalForm "<e@f>".toList = "e@f".toList ∧
      (t.emitted plainEnv).map GreyMessage.to_ = ["e@fd.example".toList] := by
  have hstart : ConLife plainEnv (fun _ _ => True) [] plainStart := .accept trivial
  have hlife := @ConLife.play _ _ none (twoRecipients "<cc@d.example>".toList "<e@f>".toList) _ _
    hstart (by decide +kernel)
  exact ⟨_, _, _, hlife, by decide +kernel, by decide +kernel, by decide +kernel⟩

end Greyd
