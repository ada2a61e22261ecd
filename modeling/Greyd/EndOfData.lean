import Greyd.MessageLines
import Greyd.ResetRuns

/-!
# The end of DATA (con.c)

The reads of a message are joined to inputs, and each input is looked at when it is complete.
Where the inputs of a life are clean, the message ends where its lines say, however the client
has split them into reads.
-/
namespace Greyd

/-! ## Reads and inputs -/

/-- An input is complete with a newline, or when the buffer is full. -/
def InputDone (input : List Char) : Prop := '\n' ∈ input ∨ input.length = conBufSize - 1

instance (input : List Char) : Decidable (InputDone input) := inferInstanceAs (Decidable (_ ∨ _))

/-- What has been read of an input that is not complete; the latest read comes first. -/
def openInput : List (List Char) → List Char
  | [] => []
  | bytes :: reads => if InputDone (openInput reads ++ bytes) then [] else openInput reads ++ bytes

/-- The bytes of the inputs that are complete. -/
def handled : List (List Char) → List Char
  | [] => []
  | bytes :: reads =>
    if InputDone (openInput reads ++ bytes) then handled reads ++ (openInput reads ++ bytes)
    else handled reads

/-- The bytes of all reads. -/
def stream (reads : List (List Char)) : List Char := reads.reverse.flatten

/-- An input that begins with no command and whose lines are clean. -/
structure CleanInput (s : Progress) (input : List Char) : Prop where
  command : hasPrefixNocase input "QUIT".toList = false
  lines : CleanLines s true (input.splitOn '\n')

instance (s : Progress) (input : List Char) : Decidable (CleanInput s input) :=
  decidable_of_iff (hasPrefixNocase input "QUIT".toList = false ∧
    CleanLines s true (input.splitOn '\n')) ⟨fun ⟨a, b⟩ => ⟨a, b⟩, fun ⟨a, b⟩ => ⟨a, b⟩⟩

/-- Every input is clean, in the place it has in the message. -/
def CleanReads : List (List Char) → Prop
  | [] => True
  | bytes :: reads => CleanReads reads ∧ (InputDone (openInput reads ++ bytes) →
      CleanInput (progress (endedLines (handled reads))) (openInput reads ++ bytes))

instance decidableCleanReads : (reads : List (List Char)) → Decidable (CleanReads reads)
  | [] => inferInstanceAs (Decidable True)
  | _ :: reads =>
    have := decidableCleanReads reads
    inferInstanceAs (Decidable (_ ∧ (_ → _)))

section Reads

variable {reads : List (List Char)} {bytes whole rest : List Char}

theorem stream_cons (bytes : List Char) (reads : List (List Char)) :
    stream (bytes :: reads) = stream reads ++ bytes := by
  simp [stream]

theorem handled_append_openInput (reads : List (List Char)) : handled reads ++ openInput reads = stream reads := by
  induction reads with
  | nil => rfl
  | cons bytes reads ih =>
    rw [stream_cons, ← ih, handled, openInput]
    split <;> simp

theorem newline_not_mem_openInput (reads : List (List Char)) : '\n' ∉ openInput reads := by
  cases reads with
  | nil => simp [openInput]
  | cons bytes reads =>
    rw [openInput]
    split
    · simp
    · next h => exact fun hmem => h (.inl hmem)

theorem nul_not_mem_openInput (h : ∀ bytes ∈ reads, nul ∉ bytes) : nul ∉ openInput reads := by
  induction reads with
  | nil => simp [openInput]
  | cons bytes reads ih =>
    rw [openInput]
    split
    · simp
    · rw [List.mem_append, not_or]
      exact ⟨ih fun b hb => h b (List.mem_cons_of_mem _ hb), h bytes List.mem_cons_self⟩

/-- The lines of a stream that ends in a newline are ended. -/
theorem endedLines_append (h : whole = [] ∨ ∃ init, whole = init ++ ['\n']) :
    endedLines (whole ++ rest) = endedLines whole ++ endedLines rest := by
  rcases h with rfl | ⟨init, rfl⟩
  · rfl
  · have hne : rest.splitOn '\n' ≠ [] := List.splitOn_ne_nil _ _
    have hinit : (init ++ ['\n']).splitOn '\n' = init.splitOn '\n' ++ [[]] :=
      List.splitOn_append_cons_self init []
    have hall : (init ++ ['\n'] ++ rest).splitOn '\n' = init.splitOn '\n' ++ rest.splitOn '\n' := by
      rw [List.append_assoc]
      exact List.splitOn_append_cons_self init rest
    rw [endedLines, hall, List.dropLast_append_of_ne_nil hne, List.map_append, endedLines, hinit,
      List.dropLast_concat, endedLines]

theorem endedLines_open (h : '\n' ∉ rest) : endedLines rest = [] := by
  rw [endedLines, List.splitOn_eq_singleton h]
  rfl

end Reads

/-! ## One input of a connection -/

section Input

variable {con : Con} {input bytes : List Char}

theorem trimEnd_eq (input rest : List Char) :
    trimEnd (input ++ rest) input.length = (input.rdropWhile isEol).length := by
  induction input using List.reverseRecOn generalizing rest with
  | nil => rfl
  | append_singleton init last ih =>
    have hget : (init ++ [last] ++ rest).getD init.length nul = last := by
      rw [List.append_assoc, List.getD_append_right _ _ _ _ le_rfl, Nat.sub_self]
      rfl
    rw [List.length_append, List.length_singleton, trimEnd, hget]
    by_cases hlast : last = '\r' ∨ last = '\n'
    · have heol : isEol last = true := by simpa [isEol] using hlast
      rw [if_pos hlast, List.rdropWhile_concat_pos _ _ _ heol, List.append_assoc, ih]
    · have heol : ¬isEol last = true := by simpa [isEol] using hlast
      rw [if_neg hlast, List.rdropWhile_concat_neg _ _ _ heol, List.length_append,
        List.length_singleton]

/-- The buffer holds what has been read of the input. -/
structure Con.Holds (con : Con) (input : List Char) : Prop where
  ends : con.rEndChars = ['\n']
  inP : con.inP = input.length
  inBuf : ∃ junk, con.inBuf = input ++ junk
  room : con.inRemaining = conBufSize - 1 - input.length

theorem Con.Holds.store (h : con.Holds input) (bytes : List Char) :
    (con.store bytes).Holds (input ++ bytes) ∧
      ∃ junk, (con.store bytes).inBuf = input ++ bytes ++ nul :: junk := by
  obtain ⟨junk, hbuf⟩ := h.inBuf
  have hstore : (con.store bytes).inBuf =
      input ++ bytes ++ nul :: junk.drop (bytes.length + 1) := by
    show overwrite con.inBuf con.inP (bytes ++ [nul]) = _
    rw [hbuf, h.inP, overwrite, List.take_left, ← List.drop_drop, List.drop_left]
    simp
  refine ⟨⟨h.ends, ?_, ⟨_, hstore⟩, ?_⟩, _, hstore⟩
  · show con.inP + bytes.length = _
    rw [h.inP, List.length_append]
  · show con.inRemaining - bytes.length = _
    rw [h.room, List.length_append]
    push_cast
    ring

theorem Con.Holds.completes (h : con.Holds input) (hopen : '\n' ∉ input) (hnul : nul ∉ bytes) :
    con.Completes bytes ↔ InputDone (input ++ bytes) := by
  obtain ⟨hholds, junk, hbuf⟩ := h.store bytes
  have hcstr : cstr ((con.store bytes).inBuf.drop con.inP) = bytes := by
    rw [hbuf, h.inP, List.append_assoc, List.drop_left]
    exact cstr_append_nul hnul junk
  have hfull : (con.store bytes).inRemaining = 0 ↔ (input ++ bytes).length = conBufSize - 1 := by
    rw [hholds.room]
    have : conBufSize = 8192 := rfl
    omega
  unfold Con.Completes InputDone
  rw [hcstr, hfull, h.ends, List.mem_append]
  simp [hopen]

/-- A complete input is handed on without the CRs and LFs at its end. -/
theorem Con.Holds.received (h : con.Holds input) (bytes : List Char) :
    (con.received bytes).inP = ((input ++ bytes).rdropWhile isEol).length ∧
      ∃ junk, (con.received bytes).inBuf = (input ++ bytes).rdropWhile isEol ++ nul :: junk := by
  obtain ⟨hholds, junk, hbuf⟩ := h.store bytes
  have htrim : trimEnd (con.store bytes).inBuf (con.store bytes).inP =
      ((input ++ bytes).rdropWhile isEol).length := by
    rw [hbuf, hholds.inP]
    exact trimEnd_eq _ _
  obtain ⟨cut, hcut⟩ := List.rdropWhile_prefix isEol (input ++ bytes)
  refine ⟨htrim, ?_⟩
  show ∃ junk, overwrite (con.store bytes).inBuf (trimEnd _ _) [nul] = _
  rw [htrim, hbuf]
  nth_rewrite 1 [← hcut]
  rw [overwrite, List.append_assoc, List.append_assoc, List.take_left]
  exact ⟨_, rfl⟩

theorem hasPrefixNocase_of_front {s text command : CStr} (hfront : s <+: text)
    (h : hasPrefixNocase s command = true) : hasPrefixNocase text command = true := by
  obtain ⟨rest, rfl⟩ := hfront
  unfold hasPrefixNocase at h ⊢
  rw [decide_eq_true_eq] at h ⊢
  have hlen := congrArg List.length h
  simp only [List.length_map, List.length_take] at hlen
  rw [List.take_append_of_le_length (by omega), h]

end Input

/-! ## One turn -/

section Fields

variable (con : Con) (text : CStr) (next : ConState) (now : Int)

@[simp] theorem Con.reply_dataLines : (con.reply text next now).dataLines = con.dataLines := rfl
@[simp] theorem Con.reply_dataBody : (con.reply text next now).dataBody = con.dataBody := rfl
@[simp] theorem Con.stay_dataLines : (con.stay now).dataLines = con.dataLines := rfl
@[simp] theorem Con.stay_dataBody : (con.stay now).dataBody = con.dataBody := rfl
@[simp] theorem Con.print_dataLines : (con.print text).dataLines = con.dataLines := rfl
@[simp] theorem Con.print_dataBody : (con.print text).dataBody = con.dataBody := rfl
@[simp] theorem Con.takeMail_dataLines : con.takeMail.dataLines = con.dataLines := rfl
@[simp] theorem Con.takeMail_dataBody : con.takeMail.dataBody = con.dataBody := rfl
@[simp] theorem Con.takeRcpt_dataLines : con.takeRcpt.dataLines = con.dataLines := rfl
@[simp] theorem Con.takeRcpt_dataBody : con.takeRcpt.dataBody = con.dataBody := rfl

end Fields

/-- The connection reads a message, and remembers what its lines so far have come to. -/
structure Con.Reads (con : Con) (reads : List (List Char)) : Prop where
  state : con.state = .message
  w : con.w = 0
  holds : con.Holds (openInput reads)
  whole : handled reads = [] ∨ ∃ init, handled reads = init ++ ['\n']
  progress : progress (endedLines (handled reads)) = ⟨con.dataLines, con.dataBody, false⟩

/-- The final reply is on its way. -/
structure Con.Replied (con : Con) : Prop where
  state : con.state = .close
  lastState : con.lastState = .reply
  r : con.r = 0

section Turns

variable {env : ConEnv} {now : Int} {nat : NatReply} {con : Con} {state : GreydState}
  {reads : List (List Char)} {bytes : List Char}

theorem conDone_replied (con : Con) (state : GreydState) (now : Int) (hr : con.r = 0) :
    (conDone now con.toReply state).1.Replied := by
  obtain ⟨_, _, _, _, hdone⟩ := conDone_frame now con.toReply state
  rw [hdone]
  exact ⟨rfl, rfl, hr⟩

/-- No line of a clean input is taken for a command. -/
theorem CleanInput.noCommand {s : Progress} {input junk : List Char} (h : CleanInput s input)
    (hnul : nul ∉ input) (hbuf : con.inBuf = input.rdropWhile isEol ++ nul :: junk) :
    con.hasCommand "QUIT".toList = false := by
  have hfront := List.rdropWhile_prefix isEol input
  have htext : con.input = input.rdropWhile isEol := by
    unfold Con.input
    rw [hbuf]
    exact cstr_append_nul (fun hmem => hnul (hfront.subset hmem)) junk
  rw [Con.hasCommand, htext, Bool.eq_false_iff]
  intro hhas
  have hcommand := hasPrefixNocase_of_front hfront hhas
  rw [h.command] at hcommand
  cases hcommand

theorem conNextState_message (hstate : con.state = .message)
    (hquit : con.hasCommand "QUIT".toList = false) :
    conNextState env now nat con state = conMessage now con state := by
  unfold conNextState
  rw [if_neg (by rw [hquit]; simp), if_neg, hstate]
  rw [hstate]
  simp [ConState.code]

/-- A complete input takes the lines of the message further, or ends it. -/
theorem Con.Reads.input (h : con.Reads reads) (hdone : InputDone (openInput reads ++ bytes))
    (hnul : nul ∉ openInput reads ++ bytes)
    (hclean : CleanInput (Greyd.progress (endedLines (handled reads))) (openInput reads ++ bytes)) :
    let next := (conNextState env now nat (con.received bytes) state).1
    next.Reads (bytes :: reads) ∨ next.Replied ∧ MessageEnds (endedLines (stream (bytes :: reads))) := by
  intro next
  obtain ⟨hinP, junk, hbuf⟩ := h.holds.received bytes
  obtain ⟨input, hinput⟩ : ∃ input, input = openInput reads ++ bytes := ⟨_, rfl⟩
  have hhandled : handled (bytes :: reads) = handled reads ++ input := by
    rw [handled, if_pos hdone, hinput]
  have hopenInput : openInput (bytes :: reads) = [] := by rw [openInput, if_pos hdone]
  have hstream : stream (bytes :: reads) = handled reads ++ input := by
    rw [← handled_append_openInput, hopenInput, hhandled, List.append_nil]
  rw [← hinput] at hdone hnul hclean hinP hbuf
  have hquit := hclean.noCommand hnul hbuf
  obtain ⟨b, hb⟩ : ∃ b : Body, b = ⟨(con.received bytes).inBuf, con.dataLines, con.dataBody⟩ :=
    ⟨_, rfl⟩
  have hprogress : b.progress = Greyd.progress (endedLines (handled reads)) := by
    rw [h.progress, hb]
    rfl
  have hne : input ≠ [] := by
    rintro rfl
    rcases hdone with hmem | hlen
    · cases hmem
    · cases hlen
  have hloop := @bodyLoop_input b [] junk _ ((con.received bytes).inP + 1) 0 true input
    (hprogress ▸ hclean.lines) hne hnul (by rw [hb]; exact hbuf)
    (hinP.trans (Nat.zero_add _).symm) rfl (.inl rfl) (by omega)
  obtain ⟨r, hr⟩ : ∃ r, r = bodyLoop (con.received bytes).inP ((con.received bytes).inP + 1) 0 0 b :=
    ⟨_, rfl⟩
  have hnext : next = (if r.2 = true then
      conDone now ((con.received bytes).setBody r.1).toReply state
      else ({ ((con.received bytes).setBody r.1).resetInput with r := now }, state)).1 := by
    have hmessage := @conNextState_message env now nat (con.received bytes) state h.state hquit
    show (conNextState env now nat (con.received bytes) state).1 = _
    rw [hmessage, hr, hb]
    rfl
  have hall : Greyd.progress (endedLines (handled reads ++ input)) =
      (endedLines input).foldl Progress.line b.progress := by
    rw [endedLines_append h.whole, progress_append, hprogress]
  rw [← hall, List.length_nil, ← hr] at hloop
  obtain ⟨hended, hkept⟩ := hloop
  rw [hnext, hstream]
  cases hend : (Greyd.progress (endedLines (handled reads ++ input))).ended with
  | true =>
    rw [hended, hend, if_pos rfl]
    exact .inr ⟨conDone_replied _ _ _ rfl, (progress_spec _).1.mp hend⟩
  | false =>
    obtain ⟨hsame, init, hinit⟩ := hkept hend
    rw [hended, hend, if_neg Bool.false_ne_true]
    refine .inl ⟨h.state, h.w, ?_, ?_, ?_⟩
    · rw [hopenInput]
      exact ⟨h.holds.ends, rfl, ⟨_, rfl⟩, by simp [Con.resetInput]⟩
    · rw [hhandled, hinit]
      exact .inr ⟨handled reads ++ init, by rw [List.append_assoc]⟩
    · rw [hhandled, ← hsame]
      rfl

/-- What a read does to a connection that reads a message. -/
theorem Con.Reads.read (h : con.Reads reads) (henabled : ConAct.Enabled (.read (.data bytes)) now con state)
    (hroom : con.HasRoom) (hnul : ∀ b ∈ bytes :: reads, nul ∉ b) (hclean : CleanReads (bytes :: reads)) :
    let next := (ConAct.run env now nat (.read (.data bytes)) con state).1
    next.Reads (bytes :: reads) ∨ next.Replied ∧ MessageEnds (endedLines (stream (bytes :: reads))) := by
  have hbytes := hnul bytes List.mem_cons_self
  have hopenInput := nul_not_mem_openInput fun b hb => hnul b (List.mem_cons_of_mem _ hb)
  have hcompletes := h.holds.completes (newline_not_mem_openInput reads) hbytes
  have hstep := henabled.step env nat hroom
  generalize ConAct.run env now nat (.read (.data bytes)) con state = next at hstep ⊢
  cases hstep with
  | readClosed hresult => rcases hresult with hresult | hresult <;> cases hresult
  | readMore hmore =>
    have hopen := mt hcompletes.mpr hmore
    left
    refine ⟨h.state, h.w, ?_, ?_, ?_⟩
    · rw [openInput, if_neg hopen]
      exact (h.holds.store bytes).1
    · rw [handled, if_neg hopen]
      exact h.whole
    · rw [handled, if_neg hopen]
      exact h.progress
  | readLine hline =>
    have hdone := hcompletes.mp hline
    exact h.input hdone (by rw [List.mem_append, not_or]; exact ⟨hopenInput, hbytes⟩) (hclean.2 hdone)

/-- The final reply is written, or the connection is closed before it is. -/
theorem Con.Replied.turn {act : ConAct} {next : Con × GreydState} (h : con.Replied)
    (hstep : TurnStep env now nat con state act next) : next.1.Replied := by
  cases hstep with
  | readClosed _ => exact ⟨h.state, h.lastState, h.r⟩
  | readMore _ => exact ⟨h.state, h.lastState, h.r⟩
  | @readLine bytes _ =>
    rw [conNextState_close env now nat (con.received bytes) state h.state]
    exact ⟨h.state, h.lastState, rfl⟩
  | @writeMore result con' state' hwrote _ =>
    obtain ⟨hsame, -⟩ := hwrote.same (now + con'.stutter)
    exact ⟨hsame.state.trans h.state, hsame.lastState.trans h.lastState, hwrote.r.trans h.r⟩
  | @writeDone result con' state' hwrote _ =>
    obtain ⟨hsame, -⟩ := hwrote.same 0
    rw [conNextState_close env now nat (con'.wait 0) state' (hsame.state.trans h.state)]
    exact ⟨hsame.state.trans h.state, hsame.lastState.trans h.lastState, hwrote.r.trans h.r⟩
  | close => exact ⟨h.state, h.lastState, h.r⟩

/-! ## The state in which a message begins -/

/-- No line of a message has been counted, unless there is or was one. -/
def Con.Bodiless (con : Con) : Prop :=
  con.state = .message ∨ con.state = .close ∨ (con.dataLines = 0 ∧ con.dataBody = false)

theorem Con.Bodiless.none (h : con.Bodiless) (hmessage : con.state ≠ .message)
    (hclose : con.state ≠ .close) : con.dataLines = 0 ∧ con.dataBody = false :=
  (h.resolve_left hmessage).resolve_left hclose

theorem reply_bodiless {con' : Con} (h : con.Bodiless) (hmessage : con.state ≠ .message)
    (hclose : con.state ≠ .close) (hlines : con'.dataLines = con.dataLines)
    (hbody : con'.dataBody = con.dataBody) : con'.Bodiless := by
  obtain ⟨hnoLines, hnoBody⟩ := h.none hmessage hclose
  exact .inr (.inr ⟨hlines.trans hnoLines, hbody.trans hnoBody⟩)

theorem NextStep.bodiless {next : Con × GreydState} (h : NextStep env now nat con state next)
    (hcon : con.Bodiless) : next.1.Bodiless := by
  have hdone : ∀ con' : Con, (conDone now con' state).1.Bodiless := fun con' => by
    obtain ⟨_, _, _, _, hdone⟩ := conDone_frame now con' state
    rw [hdone]
    exact .inr (.inl rfl)
  have hcommand : con.InCommand → con.state ≠ .message ∧ con.state ≠ .close := by
    rintro (h | h | h | h) <;> simp [h]
  cases h with
  | quit _ _ => exact .inr (.inl rfl)
  | rset _ hstate =>
    refine reply_bodiless hcon ?_ ?_ rfl rfl <;>
      rcases hstate with h | h | h | h <;> simp [h]
  | await hwaits =>
    refine reply_bodiless hcon ?_ ?_ rfl rfl <;> intro h <;> rw [h] at hwaits <;> cases hwaits
  | banner hstate => exact reply_bodiless hcon (by simp [hstate]) (by simp [hstate]) rfl rfl
  | proxied hstate _ _ => exact reply_bodiless hcon (by simp [hstate]) (by simp [hstate]) rfl rfl
  | noHelo hstate => exact reply_bodiless hcon (by simp [hstate]) (by simp [hstate]) rfl rfl
  | helo hstate => exact reply_bodiless hcon (by simp [hstate]) (by simp [hstate]) rfl rfl
  | mail hstate _ =>
    refine reply_bodiless hcon ?_ ?_ (by simp) (by simp) <;> rcases hstate with h | h <;> simp [h]
  | rcpt hstate _ _ =>
    refine reply_bodiless hcon ?_ ?_ (by simp) (by simp) <;>
      rcases hstate with h | h | h <;> simp [h]
  | grey hstate _ _ =>
    rw [conGetOrigDst_eq]
    refine reply_bodiless hcon ?_ ?_ (by simp) (by simp) <;>
      rcases hstate with h | h | h <;> simp [h]
  | data hin => exact reply_bodiless hcon (hcommand hin).1 (hcommand hin).2 rfl rfl
  | @stay _ con' hin hsame _ =>
    have hcounts : con'.dataLines = con.dataLines ∧ con'.dataBody = con.dataBody := by
      rcases hsame with rfl | rfl <;> exact ⟨rfl, rfl⟩
    exact reply_bodiless hcon (hcommand hin).1 (hcommand hin).2 (by simp [hcounts.1])
      (by simp [hcounts.2])
  | body hstate => exact .inl hstate
  | close hstate => exact .inr (.inl hstate)
  | refused _ _ => exact hdone _
  | dataReply _ _ => exact hdone _
  | badCmd _ => exact hdone _
  | bodyEnd _ => exact hdone _
  | reply _ => exact hdone _

theorem Con.Bodiless.congr {con' : Con} (h : con.Bodiless) (hstate : con'.state = con.state)
    (hlines : con'.dataLines = con.dataLines) (hbody : con'.dataBody = con.dataBody) :
    con'.Bodiless := by
  unfold Con.Bodiless
  rw [hstate, hlines, hbody]
  exact h

theorem TurnStep.bodiless {act : ConAct} {next : Con × GreydState}
    (h : TurnStep env now nat con state act next) (hcon : con.Bodiless) : next.1.Bodiless := by
  cases h with
  | readClosed _ => exact hcon.congr rfl rfl rfl
  | readMore _ => exact hcon.congr rfl rfl rfl
  | @readLine bytes _ =>
    exact (conNextState_step env now nat (con.received bytes) state).bodiless (hcon.congr rfl rfl rfl)
  | writeMore hwrote _ =>
    obtain ⟨_, hsettle⟩ := con.settleStutter_frame now state
    rw [hsettle] at hwrote
    cases hwrote <;> exact hcon.congr rfl rfl rfl
  | writeDone hwrote _ =>
    apply (conNextState_step env now nat _ _).bodiless
    obtain ⟨_, hsettle⟩ := con.settleStutter_frame now state
    rw [hsettle] at hwrote
    cases hwrote <;> exact hcon.congr rfl rfl rfl
  | close => exact hcon.congr rfl rfl rfl

/-- Once the 354 reply is written, the message is read unless the input said QUIT. -/
theorem conNextState_dataOut (hstate : con.state = .dataOut)
    (hnext : (conNextState env now nat con state).1.state = .message) :
    conNextState env now nat con state = (con.await .message now, state) := by
  unfold conNextState at hnext ⊢
  by_cases hquit : con.hasCommand "QUIT".toList = true ∧ con.state.code < ConState.close.code
  · rw [if_pos hquit] at hnext
    cases hnext
  · rw [if_neg hquit, if_neg (by rw [hstate]; simp [ConState.code]), hstate]

end Turns

/-! ## The reads of a life -/

/-- The 354 reply has been written in this turn. -/
structure Turn.EntersMessage (env : ConEnv) (t : Turn) : Prop where
  replies : t.con.state = .dataOut
  reads : (t.next env).1.state = .message

instance (env : ConEnv) (t : Turn) : Decidable (t.EntersMessage env) :=
  decidable_of_iff (t.con.state = .dataOut ∧ (t.next env).1.state = .message)
    ⟨fun ⟨a, b⟩ => ⟨a, b⟩, fun ⟨a, b⟩ => ⟨a, b⟩⟩

def Turn.bytes (t : Turn) : Option (List Char) :=
  match t.act with
  | .read (.data bytes) => some bytes
  | _ => none

/-- What is read in the turns, the latest first. -/
def readsIn (turns : List Turn) : List (List Char) := turns.filterMap Turn.bytes

/-- The connection is where the lines of the message have brought it: it reads on, or the
final reply is given. -/
def Con.Follows (con : Con) (lines : List CStr) : Prop :=
  if MessageEnds lines then con.state = .close ∧ con.lastState = .reply else con.state = .message

theorem Turn.act_of_bytes (t : Turn) {bytes : List Char} (h : t.bytes = some bytes) :
    t.act = .read (.data bytes) := by
  unfold Turn.bytes at h
  split at h
  · next hact => rw [hact, Option.some.inj h]
  · cases h

section Lives

variable {env : ConEnv} {accepts : GreydState → Sockaddr → Prop} {turns before d : List Turn} {t : Turn}
  {q : Con × GreydState}

theorem ConLife.bodiless (h : ConLife env accepts turns q) : q.1.Bodiless := by
  induction h with
  | @accept fd src now nat state _ =>
    obtain ⟨stutter, hinit⟩ := conInit_eq env fd src now nat state
    rw [hinit]
    exact (conNextState_step env now nat _ _).bodiless (.inr (.inr ⟨rfl, rfl⟩))
  | @turn turns con state t hlife hcon _ _ henabled ih =>
    subst hcon
    exact (henabled.step env t.nat hlife.hasRoom).bodiless ih

/-- A turn in which nothing is read leaves the message where it is: there is nothing to write
either, and a connection that is closed keeps its state. -/
theorem Con.Reads.quiet {reads : List (List Char)} {next : Con × GreydState} (h : t.con.Reads reads)
    (henabled : t.act.Enabled t.now t.con t.state)
    (hstep : TurnStep env t.now t.nat t.con t.state t.act next) (hbytes : t.bytes = none) :
    next.1.Reads reads := by
  have hclose : (conClose t.con t.state).1.Reads reads :=
    ⟨h.state, h.w, ⟨h.holds.ends, h.holds.inP, h.holds.inBuf, h.holds.room⟩, h.whole, h.progress⟩
  unfold Turn.bytes at hbytes
  generalize t.act = act at hstep henabled hbytes
  cases hstep with
  | readClosed _ => exact hclose
  | readMore _ => cases hbytes
  | readLine _ => cases hbytes
  | writeMore _ _ => exact absurd h.w henabled.2.1
  | writeDone _ _ => exact absurd h.w henabled.2.1
  | close => exact hclose

/-- A message begins with an empty buffer and nothing counted. -/
theorem Turn.EntersMessage.begins (h : t.EntersMessage env)
    (henabled : t.act.Enabled t.now t.con t.state) (hroom : t.con.HasRoom) (halt : t.con.Alternates)
    (hsound : t.con.Sound) (hbody : t.con.Bodiless) : (t.next env).1.Reads [] := by
  have hends : (t.next env).1.rEndChars = ['\n'] := (Turn.sound henabled hroom halt hsound).ends
  have hnone := hbody.none (by rw [h.replies]; simp) (by rw [h.replies]; simp)
  have hr : t.con.r = 0 := @Con.Alternates.out _ halt .message (by rw [h.replies]; exact .data)
  have hnext := h.reads
  have hstep := henabled.step env t.nat hroom
  unfold Turn.next at hends hnext ⊢
  generalize t.act = act at hstep henabled hnext hends ⊢
  generalize act.run env t.now t.nat t.con t.state = next at hstep hnext hends ⊢
  cases hstep with
  | readClosed _ => exact absurd hr henabled.reads
  | readMore _ => exact absurd hr henabled.reads
  | readLine _ => exact absurd hr henabled.reads
  | @writeMore result con' state' hwrote _ =>
    have hsame : con'.state = t.con.state := (hwrote.same 0).1.state
    have hmessage : con'.state = .message := hnext
    rw [hsame, h.replies] at hmessage
    cases hmessage
  | @writeDone result con' state' hwrote _ =>
    have hsame := (hwrote.same 0).1.state
    have hcounts : con'.dataLines = t.con.dataLines ∧ con'.dataBody = t.con.dataBody := by
      obtain ⟨_, hsettle⟩ := t.con.settleStutter_frame t.now t.state
      rw [hsettle] at hwrote
      cases hwrote <;> exact ⟨rfl, rfl⟩
    rw [conNextState_dataOut (hsame.trans h.replies) hnext] at hends ⊢
    refine ⟨rfl, rfl, ⟨hends, rfl, ⟨_, rfl⟩, rfl⟩, .inl rfl, ?_⟩
    show Greyd.progress (endedLines []) = ⟨con'.dataLines, con'.dataBody, false⟩
    rw [hcounts.1, hcounts.2, hnone.1, hnone.2]
    rfl
  | close =>
    have hclosed : t.con.state = .message := hnext
    rw [h.replies] at hclosed
    cases hclosed

/-- In a life whose inputs are clean, the message is read on, or it has ended. -/
theorem ConLife.message (hlife : ConLife env accepts (d ++ t :: before) q)
    (henters : t.EntersMessage env) (hnul : ∀ bytes ∈ readsIn d, nul ∉ bytes)
    (hclean : CleanReads (readsIn d)) : q.1.Reads (readsIn d) ∨
      q.1.Replied ∧ MessageEnds (endedLines (stream (readsIn d))) := by
  induction d generalizing q with
  | nil =>
    cases hlife with
    | turn hlife hcon _ _ henabled =>
      subst hcon
      exact .inl (henters.begins henabled hlife.hasRoom hlife.carries.alternates hlife.sound
        hlife.bodiless)
  | cons u d ih =>
    cases hlife with
    | turn hlife hcon _ _ henabled =>
      subst hcon
      have hstep := henabled.step env u.nat hlife.hasRoom
      cases hbytes : u.bytes with
      | none =>
        rw [readsIn, List.filterMap_cons_none hbytes] at hnul hclean ⊢
        rcases ih hlife hnul hclean with hreads | ⟨hreplied, hends⟩
        · exact .inl (hreads.quiet henabled hstep hbytes)
        · exact .inr ⟨hreplied.turn hstep, hends⟩
      | some bytes =>
        have hact := u.act_of_bytes hbytes
        rw [readsIn, List.filterMap_cons_some hbytes] at hnul hclean ⊢
        rcases ih hlife (fun b hb => hnul b (List.mem_cons_of_mem _ hb)) hclean.1 with
          hreads | ⟨hreplied, -⟩
        · unfold Turn.next
          rw [hact] at henabled ⊢
          exact hreads.read henabled hlife.hasRoom hnul hclean
        · rw [hact] at henabled
          exact absurd hreplied.r henabled.reads

/-- For every stream and every way to split it into reads whose inputs are clean, the message
ends at the first of its lines that is a dot or the tenth behind the first empty one, and no
line is taken for a command. -/
theorem end_of_data (hlife : ConLife env accepts (d ++ t :: before) q)
    (henters : t.EntersMessage env) (hnul : ∀ bytes ∈ readsIn d, nul ∉ bytes)
    (hclean : CleanReads (readsIn d)) : q.1.Follows (endedLines (stream (readsIn d))) := by
  unfold Con.Follows
  rcases hlife.message henters hnul hclean with hreads | ⟨hreplied, hends⟩
  · have hlines : endedLines (stream (readsIn d)) = endedLines (handled (readsIn d)) := by
      rw [← handled_append_openInput, endedLines_append hreads.whole,
        endedLines_open (newline_not_mem_openInput _), List.append_nil]
    have hno : ¬MessageEnds (endedLines (handled (readsIn d))) := by
      rw [← (progress_spec _).1, hreads.progress]
      exact Bool.false_ne_true
    rw [hlines, if_neg hno]
    exact hreads.state
  · rw [if_pos hends]
    exact ⟨hreplied.state, hreplied.lastState⟩

end Lives

/-! ## The same message in other reads -/

/-- The client of the plain dialogue is listed. -/
def listedStart : GreydState :=
  { GreydState.start configCreate 5 5 false (blacklistCreate [] [] .list) with
    blacklists := listedBlacklists "192.0.2.1/32".toList }

/-- The dialogue up to the DATA command. -/
def dataActs : List (Int × ConAct) :=
  [(2, .write ⟨1, 48⟩), (2, .read (.data "HELO x\r\n".toList)), (3, .write ⟨1, 12⟩),
    (3, .read (.data "MAIL FROM:<a@b>\r\n".toList)), (4, .write ⟨1, 8⟩),
    (4, .read (.data "RCPT TO:<c@d>\r\n".toList)), (5, .write ⟨1, 8⟩),
    (5, .read (.data "DATA\r\n".toList)), (6, .write ⟨1, 37⟩)]

def dataLife : List Turn × (Con × GreydState) :=
  playTurns plainEnv none dataActs []
    (conInit plainEnv 5 ⟨afInet, .ofSAddr 0x010200c0, 4711⟩ 1 none listedStart)

def dataTurn : Turn := dataLife.1.head (by decide +kernel)

/-- What is read of the message. -/
def messageActs (reads : List String) : List (Int × ConAct) :=
  reads.map fun bytes => (7, .read (.data bytes.toList))

def afterData (reads : List String) : List Turn × (Con × GreydState) :=
  playTurns plainEnv none (messageActs reads) [] dataLife.2

theorem afterData_life {reads : List String}
    (h : Playable plainEnv none (messageActs reads) dataLife.2) :
    ConLife plainEnv (fun _ _ => True) ((afterData reads).1 ++ dataTurn :: dataLife.1.tail)
      (afterData reads).2 := by
  have hstart : ConLife plainEnv (fun _ _ => True) [] (conInit plainEnv 5
    ⟨afInet, .ofSAddr 0x010200c0, 4711⟩ 1 none listedStart) := .accept trivial
  have hdata : ConLife plainEnv (fun _ _ => True) dataLife.1 dataLife.2 :=
    hstart.play (by decide +kernel)
  have hturns : dataLife.1 = dataTurn :: dataLife.1.tail :=
    (List.cons_head_tail (by decide +kernel)).symm
  have hlife := hdata.play h
  rw [playTurns_base, hturns] at hlife
  exact hlife

/-- A header, the empty line and the dot, in reads that end with a line. -/
theorem end_of_data_dot : (afterData ["Subject: x\r\n", "\r\n", ".", "\r\n"]).2.1.Follows
    (endedLines (stream (readsIn (afterData ["Subject: x\r\n", "\r\n", ".", "\r\n"]).1))) :=
  end_of_data (afterData_life (by decide +kernel)) (by decide +kernel) (by decide +kernel)
    (by decide +kernel)

/-- A line that is cut in two ends the message with its second part, and a line that begins with
QUIT is taken for a command. -/
theorem message_split_matters :
    ∃ before t d q d' q' c p,
      (ConLife plainEnv (fun _ _ => True) (d ++ t :: before) q ∧
        ConLife plainEnv (fun _ _ => True) (d' ++ t :: before) q' ∧
        ConLife plainEnv (fun _ _ => True) (c ++ t :: before) p ∧
        t.EntersMessage plainEnv ∧ t.con.listed = true) ∧
      (stream (readsIn d) = "x\r\na.\r\n".toList ∧ stream (readsIn d') = "x\r\na.\r\n".toList ∧
        q.1.state = .close ∧ q.1.lastState = .reply ∧ q'.1.state = .message ∧
        ¬q.1.Follows (endedLines (stream (readsIn d)))) ∧
      stream (readsIn c) = "quit it\r\n".toList ∧ p.1.state = .close ∧
        ¬p.1.Follows (endedLines (stream (readsIn c))) := by
  refine ⟨_, _, _, _, _, _, _, _,
    ⟨@afterData_life ["x\r\na", ".\r\n"] (by decide +kernel),
      @afterData_life ["x\r\na.\r\n"] (by decide +kernel),
      @afterData_life ["quit it\r\n"] (by decide +kernel), by decide +kernel, by decide +kernel⟩,
    ⟨by decide +kernel, by decide +kernel, by decide +kernel, by decide +kernel, by decide +kernel, ?_⟩,
    by decide +kernel, by decide +kernel, ?_⟩
  · have hopen : ¬MessageEnds (endedLines (stream (readsIn (afterData ["x\r\na", ".\r\n"]).1))) := by
      decide +kernel
    rw [Con.Follows, if_neg hopen]
    decide +kernel
  · have hopen : ¬MessageEnds (endedLines (stream (readsIn (afterData ["quit it\r\n"]).1))) := by
      decide +kernel
    rw [Con.Follows, if_neg hopen]
    decide +kernel

end Greyd
