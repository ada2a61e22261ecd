import Mathlib.Tactic
import Greyd.ReplyBounds

/-!
# The format of the reply (con.c)

Each line of the reply begins with the response code, and the mark behind the code is patched
when the line turns out not to be the last one. The lines of a message are read off its
characters; what the buffer holds is these lines with the code in front, and it is a
multi-line reply exactly if the blank behind the code was never cut off, or the lines bring
the mark with them.
-/
namespace Greyd

/-! ## Multi-line replies -/

/-- Lines of text. -/
def linesText (lines : List CStr) : CStr := lines.flatMap (· ++ ['\n'])

/-- A multi-line reply: every line but the last begins with the response code and a dash, the
last one with the code and a blank. -/
def IsReply (code text : CStr) : Prop :=
  ∃ front last, linesText (front ++ [last]) = text ∧ (∀ line ∈ front ++ [last], '\n' ∉ line) ∧
    (∀ line ∈ front, code ++ ['-'] <+: line) ∧ code ++ [' '] <+: last

theorem linesText_inj {xs ys : List CStr} (hx : ∀ x ∈ xs, '\n' ∉ x) (hy : ∀ y ∈ ys, '\n' ∉ y)
    (h : linesText xs = linesText ys) : xs = ys := by
  induction xs generalizing ys with
  | nil =>
    cases ys with
    | nil => rfl
    | cons y ys => simp [linesText] at h
  | cons x xs ih =>
    cases ys with
    | nil => simp [linesText] at h
    | cons y ys =>
      have hsplit : x ++ '\n' :: linesText xs = y ++ '\n' :: linesText ys := by
        simpa [linesText] using h
      have hhead : x = y := by
        have htake := congrArg (List.takeWhile (· ≠ '\n')) hsplit
        have hcut : ∀ z : CStr, '\n' ∉ z → ∀ rest : CStr, (z ++ '\n' :: rest).takeWhile (· ≠ '\n') = z := by
          intro z hz rest
          rw [List.takeWhile_append_of_pos fun c hc => by
            have hne : c ≠ '\n' := fun heq => hz (heq ▸ hc)
            simpa using hne]
          simp
        rwa [hcut x (hx x List.mem_cons_self), hcut y (hy y List.mem_cons_self)] at htake
      subst hhead
      have htail : linesText xs = linesText ys := (List.cons.inj (List.append_cancel_left hsplit)).2
      rw [ih (fun z hz => hx z (List.mem_cons_of_mem x hz))
        (fun z hz => hy z (List.mem_cons_of_mem x hz)) htail]

/-! ## The lines of a message -/

/-- A text in front of its newline. -/
def lineText (text : CStr) : CStr := text.takeWhile (· ≠ '\n')

/-- The lines of the rest of a message, the last one apart: `line` is the text of the current
line, `ended` says whether its newline is there already, and `saved` is the escape character
that waits. A new line begins with the next character, even where that only waits. -/
def messageLines (srcAddr : CStr) (line : CStr) (ended : Bool) (saved : Option Char) :
    CStr → List CStr × CStr
  | [] => ([], line)
  | c :: rest =>
    let text := charText srcAddr saved c
    let behind := messageLines srcAddr ((if ended then [] else line) ++ lineText text.1)
      ('\n' ∈ text.1) text.2 rest
    (if ended then line :: behind.1 else behind.1, behind.2)

/-- A line of the reply: what is written of the response code, and the text behind it. -/
structure ReplyLine where
  code : CStr
  text : CStr

def ReplyLine.whole (line : ReplyLine) : CStr := line.code ++ line.text

/-- The last character in front of the text is the mark that is patched. -/
def ReplyLine.continued (line : ReplyLine) : CStr := line.code.dropLast ++ '-' :: line.text

def continuedText (lines : List ReplyLine) : CStr := linesText (lines.map ReplyLine.continued)

/-- The blank behind the code is cut off where only the code and a NUL fit. -/
def turnCode (code : CStr) (st : Con × Nat × Nat) : CStr :=
  if st.1.outSize - st.2.1 = code.length + 1 then code else code ++ [' ']

/-- The lines of one list's text. -/
def turnLines (code : CStr) (st : Con × Nat × Nat) (blacklist : Blacklist) : List ReplyLine :=
  let lines := messageLines st.1.srcAddr [] false none blacklist.message
  (lines.1 ++ [lines.2]).map (⟨turnCode code st, ·⟩)

/-- The lines of all lists. -/
def replyLines (code : CStr) (st : Con × Nat × Nat) : List Blacklist → List ReplyLine
  | [] => []
  | blacklist :: rest =>
    turnLines code st blacklist ++ replyLines code (replyBlacklist code st blacklist) rest

/-! ## What the buffer shows -/

/-- The buffer holds these lines up to here, all but the last one continued, with a NUL behind
them, and the mark is the last character of what is written of the last code. -/
structure Append.Shows (a : Append) (front : List ReplyLine) (line : ReplyLine) (ended : Bool) : Prop where
  text : a.buf.take (a.off + a.appended) =
    continuedText front ++ (line.whole ++ if ended then ['\n'] else [])
  inside : a.off + a.appended ≤ a.buf.length
  behind : a.buf.getD (a.off + a.appended) nul = nul
  mark : a.lastLineCont = (continuedText front).length + line.code.length - 1
  code_ne : line.code ≠ []
  begun : 2 ≤ (continuedText front).length + line.code.length
  code_line : '\n' ∉ line.code
  text_line : '\n' ∉ line.text

section Shows

variable {a : Append} {front : List ReplyLine} {line : ReplyLine} {ended : Bool} {src code P : CStr}

theorem continuedText_append (xs : List ReplyLine) (line : ReplyLine) :
    continuedText (xs ++ [line]) = continuedText xs ++ (line.continued ++ ['\n']) := by
  simp [continuedText, linesText]

theorem Append.Shows.length (h : a.Shows front line ended) : a.off + a.appended =
    (continuedText front).length + (line.whole.length + if ended then 1 else 0) := by
  have hlen := congrArg List.length h.text
  rw [List.length_take, Nat.min_eq_left h.inside, List.length_append, List.length_append] at hlen
  rw [hlen]
  cases ended <;> rfl

theorem Append.Shows.begun' (h : a.Shows front line ended) : 1 ≤ a.off + a.appended := by
  have hlength := h.length
  have hpos := List.length_pos_of_ne_nil h.code_ne
  rw [ReplyLine.whole, List.length_append] at hlength
  omega

/-- The text ends in a newline exactly if the line has ended. -/
theorem Append.Shows.last (h : a.Shows front line ended) : a.last = '\n' ↔ ended = true := by
  have hlast : a.last = ((a.buf.take (a.off + a.appended)).getLast?).getD nul :=
    getD_eq_getLast? h.begun' h.inside
  have hwhole : line.whole ≠ [] := List.append_ne_nil_of_left_ne_nil h.code_ne _
  rw [hlast, h.text]
  cases ended with
  | true => simp
  | false =>
    have hno : '\n' ∉ line.whole := List.not_mem_append h.code_line h.text_line
    rw [if_neg (by decide), List.append_nil, List.getLast?_append, List.getLast?_eq_getLast_of_ne_nil hwhole]
    refine iff_of_false (fun heq => hno ?_) (by decide)
    have heq : line.whole.getLast hwhole = '\n' := heq
    exact heq ▸ List.getLast_mem hwhole

theorem set_mark {x c : List Char} (hc : c ≠ []) (rest : List Char) :
    (x ++ (c ++ rest)).set (x.length + c.length - 1) '-' = x ++ (c.dropLast ++ '-' :: rest) := by
  have hpos := List.length_pos_of_ne_nil hc
  have hsplit : x ++ (c ++ rest) = (x ++ c.dropLast) ++ c.getLast hc :: rest := by
    conv_lhs => rw [← List.dropLast_append_getLast hc]
    simp
  have hindex : x.length + c.length - 1 = (x ++ c.dropLast).length := by
    rw [List.length_append, List.length_dropLast]
    omega
  rw [hsplit, hindex, List.set_append_right _ _ (Nat.le_refl _), Nat.sub_self, List.set_cons_zero,
    List.append_assoc]

/-- Marked as one that is continued, the last line joins the others. -/
theorem Append.Shows.continued (h : a.Shows front line true) :
    a.continueLine.buf.take (a.off + a.appended) = continuedText (front ++ [line]) := by
  have hbegun := h.begun
  have hmark := h.mark
  have hbuf : a.continueLine.buf = a.buf.set a.lastLineCont '-' := by
    unfold Append.continueLine
    rw [if_pos (by omega)]
  rw [hbuf, List.take_set, h.text, hmark, if_pos rfl, ReplyLine.whole, List.append_assoc,
    set_mark h.code_ne, continuedText_append, ReplyLine.continued]
  simp

/-- The response code of the next line. -/
theorem Append.Shows.ofCode (hfront : a.buf.take (a.off + a.appended) = continuedText front)
    (hinside : a.off + a.appended ≤ a.buf.length) (hlen : a.strLen ≠ 0)
    (hP : snprintf a.strLen (code ++ [' ']) = P) (hne : P ≠ []) (hline : '\n' ∉ P)
    (hbegun : 2 ≤ (continuedText front).length + P.length) : (a.code code).Shows front ⟨P, []⟩ false := by
  have hext := a.code_extends hinside hlen code
  have hbuf := a.code_buf hlen code
  rw [hP] at hext hbuf
  have hlength := congrArg List.length hfront
  rw [List.length_take, Nat.min_eq_left hinside] at hlength
  have happended := hext.appended
  refine ⟨?_, hext.inside, ?_, ?_, hne, hbegun, hline, List.not_mem_nil⟩
  · rw [hext.buf, hfront, ReplyLine.whole]
    simp
  · rw [hext.off, happended, ← Nat.add_assoc, hbuf, overwrite_getD hinside (by simp)]
    simp
  · show a.off + (a.code code).appended - 1 = _
    rw [happended, ← hlength, Nat.add_assoc]

theorem Append.line_strLen (a : Append) (code : CStr) : (a.line code).strLen = a.strLen := by
  unfold Append.line
  split
  · exact a.continueLine_rest.2.2.2.1
  · rfl

/-- The check for a new line. -/
theorem Append.Shows.ofLine (h : a.Shows front line ended) (hlen : a.strLen ≠ 0)
    (hP : snprintf a.strLen (code ++ [' ']) = P) (hne : P ≠ []) (hline : '\n' ∉ P) :
    (a.line code).Shows (if ended then front ++ [line] else front) (if ended then ⟨P, []⟩ else line) false := by
  have hlast : a.buf.getD (a.off + a.appended - 1) nul = '\n' ↔ ended = true := h.last
  unfold Append.line
  cases ended with
  | false =>
    rw [if_neg (by rw [hlast]; decide)]
    exact h
  | true =>
    obtain ⟨-, hoff, happended, hlen', -⟩ := a.continueLine_rest
    have hpos := List.length_pos_of_ne_nil hne
    rw [if_pos (hlast.mpr rfl)]
    refine Append.Shows.ofCode ?_ ?_ (hlen' ▸ hlen) (hlen' ▸ hP) hne hline ?_
    · rw [hoff, happended]
      exact h.continued
    · rw [hoff, happended, a.continueLine_length]
      exact h.inside
    · rw [if_pos rfl, continuedText_append]
      simp only [List.length_append, List.length_singleton]
      omega

/-- An escape character waits, or none does. -/
def Waits (saved : Option Char) : Prop := saved = none ∨ saved = some '\\' ∨ saved = some '%'

theorem lineText_plain {text : CStr} (h : '\n' ∉ text) : lineText text = text := by
  refine List.takeWhile_eq_self_iff.mpr fun c hc => ?_
  have hne : c ≠ '\n' := fun heq => h (heq ▸ hc)
  simpa using hne

/-- A newline only comes last. -/
theorem charText_split {saved : Option Char} (hsaved : Waits saved) (hsrc : '\n' ∉ src) (c : Char) :
    (charText src saved c).1 = lineText (charText src saved c).1 ++
      if '\n' ∈ (charText src saved c).1 then ['\n'] else [] := by
  have hplain : ∀ text : CStr, '\n' ∉ text →
      text = lineText text ++ if '\n' ∈ text then ['\n'] else [] := by
    intro text htext
    rw [if_neg htext, lineText_plain htext, List.append_nil]
  have hends : ∀ text : CStr, '\n' ∉ text →
      text ++ ['\n'] = lineText (text ++ ['\n']) ++ if '\n' ∈ text ++ ['\n'] then ['\n'] else [] := by
    intro text htext
    have hcut : lineText (text ++ ['\n']) = text := by
      rw [lineText, List.takeWhile_append_of_pos fun d hd => by
        have hne : d ≠ '\n' := fun heq => htext (heq ▸ hd)
        simpa using hne]
      simp
    rw [if_pos (by simp), hcut]
  have hwait : ∀ e, saved = some e → '\n' ∉ [e] := by
    intro e he
    rcases hsaved with h | h | h <;> rw [he] at h <;> cases h <;> decide
  unfold charText
  by_cases hc : IsEscape c
  · rw [if_pos hc]
    cases hs : saved with
    | none => exact hplain _ List.not_mem_nil
    | some e => exact hplain _ (hwait e hs)
  · rw [if_neg hc]
    cases hs : saved with
    | none =>
      by_cases hnl : c = '\n'
      · subst hnl
        exact hends [] List.not_mem_nil
      · exact hplain [c] (by simpa using Ne.symm hnl)
    | some e =>
      have he := hwait e hs
      dsimp only
      split
      · by_cases hn : c = 'n'
        · rw [escapeText, if_pos hn]
          exact hends [] List.not_mem_nil
        · rw [escapeText, if_neg hn]
          exact hplain src hsrc
      · by_cases hnl : c = '\n'
        · subst hnl
          exact hends [e] he
        · exact hplain [e, c] (by simp at he; simp [he, Ne.symm hnl])

theorem Append.put_behind (h : a.off + a.appended ≤ a.buf.length) (c : Char) :
    (a.put c).buf.getD ((a.put c).off + (a.put c).appended) nul = nul := by
  show (overwrite a.buf (a.off + a.appended) [c, nul]).getD (a.off + (a.appended + 1)) nul = nul
  rw [← Nat.add_assoc, overwrite_getD h (Nat.lt_succ_self 1)]
  rfl

/-- A NUL stays behind the text. -/
theorem Append.char_behind (h : a.off + a.appended ≤ a.buf.length)
    (hnul : a.buf.getD (a.off + a.appended) nul = nul) (hsrc : src.length < inet6AddrStrlen) (c : Char) :
    (a.char src c).buf.getD ((a.char src c).off + (a.char src c).appended) nul = nul := by
  unfold Append.char
  split
  · split
    · exact hnul
    · exact a.put_behind h _
  · split
    · exact a.put_behind h '\n'
    · split
      · show (overwrite a.buf (a.off + a.appended) (src ++ List.replicate _ nul)).getD
          (a.off + (a.appended + src.length)) nul = nul
        rw [← Nat.add_assoc, overwrite_getD h (by simp; omega), List.getD_append_right _ _ _ _ (Nat.le_refl _)]
        simp
      · split
        · exact a.put_behind h c
        · exact (a.put _).put_behind (Append.Extends.put h _).inside c

/-- One character of the message. -/
theorem Append.Shows.char (h : a.Shows front line false) (hsaved : Waits a.saved) (hsrc : AddressText src)
    (c : Char) : (a.char src c).Shows front ⟨line.code, line.text ++ lineText (charText src a.saved c).1⟩
      (decide ('\n' ∈ (charText src a.saved c).1)) := by
  obtain ⟨hext, -⟩ := Append.char_extends h.inside src c
  have hsplit := charText_split hsaved hsrc.noNewline c
  refine ⟨?_, hext.inside, Append.char_behind h.inside h.behind hsrc.short c, ?_, h.code_ne, h.begun,
    h.code_line, ?_⟩
  · rw [hext.buf, h.text]
    conv_lhs => rw [hsplit]
    simp only [ReplyLine.whole, Bool.false_eq_true, if_false, List.append_nil, decide_eq_true_eq,
      List.append_assoc]
  · rw [(a.char_rest src c).2.2]
    exact h.mark
  · refine List.not_mem_append h.text_line fun hmem => ?_
    have hnot := List.mem_takeWhile_imp hmem
    simp at hnot

end Shows

section Run

variable {a : Append} {front : List ReplyLine} {line : ReplyLine} {ended : Bool} {src code P : CStr}
  {turns : Nat}

theorem Append.room_mark (a : Append) (code : CStr) : (a.room code).lastLineCont = a.lastLineCont := by
  unfold Append.room
  dsimp only
  split <;> rfl

theorem Append.Shows.room (h : a.Shows front line ended) : (a.room code).Shows front line ended := by
  obtain ⟨hbuf, hoff, happended, -⟩ := a.room_rest code
  refine ⟨?_, ?_, ?_, ?_, h.code_ne, h.begun, h.code_line, h.text_line⟩
  · rw [hbuf, hoff, happended]
    exact h.text
  · rw [hbuf, hoff, happended]
    exact h.inside
  · rw [hbuf, hoff, happended]
    exact h.behind
  · rw [a.room_mark]
    exact h.mark

theorem snprintf_whole {n : Nat} (h : code.length + 2 ≤ n) : snprintf n (code ++ [' ']) = code ++ [' '] := by
  refine List.take_of_length_le ?_
  rw [List.length_append, List.length_singleton]
  omega

/-- A buffer that grows has had room for the whole code, and has it again. -/
theorem Append.Sized.room_code (hcode : code.length ≤ 1000) (h : a.Sized code (turns + 1)) :
    snprintf (a.room code).strLen (code ++ [' ']) = snprintf a.strLen (code ++ [' ']) := by
  obtain ⟨hholds, hwraps, hregime, hbound⟩ := h
  rw [Append.room_eq]
  rcases hregime with ⟨hfull, hend, hin⟩ | hsmall | hhuge
  · split
    · have hgrown : sizeSub (conOutBufSize + a.size) (a.off + a.appended) =
          conOutBufSize + a.size - (a.off + a.appended) :=
        sizeSub_of_le (by omega) (by unfold conOutBufSize; omega)
      have hgrownRoom : code.length + 2 ≤ conOutBufSize + a.size - (a.off + a.appended) := by
        unfold conOutBufSize
        omega
      rw [Nat.add_comm a.size, hgrown, snprintf_whole (by omega : code.length + 2 ≤ a.strLen),
        snprintf_whole hgrownRoom]
    · rfl
  · rw [sizeSub_of_lt hsmall (by omega), if_neg (by omega)]
  · rw [sizeSub_of_le (by omega) hwraps, if_neg (by omega)]

theorem ReplyCode.code_line (hcode : ReplyCode code) {n : Nat} (hn : code.length + 1 ≤ n) :
    snprintf n (code ++ [' ']) ≠ [] ∧ '\n' ∉ snprintf n (code ++ [' ']) := by
  have hblank : '\n' ∉ code ++ [' '] := List.not_mem_append hcode.noNewline (by decide)
  exact ⟨(hcode.text hn).ne, fun hmem => hblank (List.mem_of_mem_take hmem)⟩

/-- The loop over the message. -/
theorem Append.Shows.run (hcode : ReplyCode code) (hsrc : AddressText src) (fmt : CStr)
    (hP : snprintf a.strLen (code ++ [' ']) = P) (hplaced : a.Placed)
    (hsized : a.Sized code (fmt.length + turns)) {text : CStr} (h : a.Shows front ⟨P, text⟩ ended) :
    ∃ ended', (a.run src code fmt).Shows
      (front ++ (messageLines src text ended a.saved fmt).1.map (⟨P, ·⟩))
      ⟨P, (messageLines src text ended a.saved fmt).2⟩ ended' := by
  induction fmt generalizing a front text ended with
  | nil => exact ⟨ended, by simpa [messageLines, Append.run] using h⟩
  | cons c rest ih =>
    rw [List.length_cons, Nat.add_right_comm] at hsized
    have hroomCode := (hsized.room_code hcode.short).trans hP
    have hroomSized := hsized.room hcode.short
    have hroom : (a.room code).Placed := hplaced.room
    obtain ⟨hline, hlast, hsaved, hready⟩ := hroom.line hcode hroomSized
    obtain ⟨hchar, hcharSized, -⟩ := hline.char hsrc hready hlast c rest
    obtain ⟨hne, hnl⟩ := hcode.code_line hroomSized.holdsCode
    rw [hroomCode] at hne hnl
    have hholds := hroomSized.holdsCode
    have hshown := h.room.ofLine (by omega) hroomCode hne hnl
    have hsaved' : ((a.room code).line code).saved = a.saved := hsaved.trans (a.room_rest code).2.2.2
    have hwaits : Waits ((a.room code).line code).saved := hline.saved
    have hchars := Append.char_extends hshown.inside src c
    have hstored := hshown.char hwaits hsrc c
    rw [hsaved'] at hstored hchars
    have hstrLen : snprintf (((a.room code).line code).char src c).strLen (code ++ [' ']) = P := by
      rw [(((a.room code).line code).char_rest src c).2.1, Append.line_strLen]
      exact hroomCode
    cases ended with
    | true =>
      obtain ⟨ended', hrun⟩ := ih hstrLen hchar hcharSized hstored
      rw [hchars.2] at hrun
      refine ⟨ended', ?_⟩
      simpa [messageLines, Append.run] using hrun
    | false =>
      obtain ⟨ended', hrun⟩ := ih hstrLen hchar hcharSized hstored
      rw [hchars.2] at hrun
      refine ⟨ended', ?_⟩
      simpa [messageLines, Append.run] using hrun

end Run

/-! ## From list to list -/

/-- The variables when `Con_append_error_string` is entered. -/
def Con.entered (con : Con) (off lastLineCont : Nat) : Append :=
  ⟨con.outBuf, con.outSize, off, 0, sizeSub con.outSize off, none, lastLineCont⟩

/-- What the buffer holds between two lists: nothing yet, or the lines of the lists so far. -/
def Con.Shows (con : Con) (off lastLineCont : Nat) (lines : List ReplyLine) : Prop :=
  (off = 0 ∧ lines = []) ∨
    (off ≠ 0 ∧ ∃ front line, lines = front ++ [line] ∧ (con.entered off lastLineCont).Shows front line true)

/-- The newline at the end of a list's text. -/
theorem Append.Shows.newline {a : Append} {front : List ReplyLine} {line : ReplyLine}
    (h : a.Shows front line false) : (a.put '\n').Shows front line true := by
  have hext := Append.Extends.put h.inside '\n'
  refine ⟨?_, hext.inside, a.put_behind h.inside '\n', h.mark, h.code_ne, h.begun, h.code_line, h.text_line⟩
  rw [hext.buf, h.text]
  simp

theorem Append.Shows.entered {a : Append} {con : Con} {off llc : Nat} {front : List ReplyLine}
    {line : ReplyLine} (h : a.Shows front line true) (hbuf : con.outBuf = a.buf)
    (hoff : off = a.off + a.appended) (hmark : llc = a.lastLineCont) :
    (con.entered off llc).Shows front line true := by
  obtain rfl := hoff
  obtain rfl := hmark
  refine ⟨?_, ?_, ?_, h.mark, h.code_ne, h.begun, h.code_line, h.text_line⟩
  · show con.outBuf.take (a.off + a.appended + 0) = _
    rw [hbuf]
    exact h.text
  · show a.off + a.appended + 0 ≤ con.outBuf.length
    rw [hbuf]
    exact h.inside
  · show con.outBuf.getD (a.off + a.appended + 0) nul = nul
    rw [hbuf]
    exact h.behind

section Turns

variable {con : Con} {off llc : Nat} {lines : List ReplyLine} {code : CStr} (turns : Nat)

/-- The lines so far are all continued when the next list's text begins. -/
theorem Con.Shows.opened (h : con.Shows off llc lines) :
    (Append.opened con off llc).buf.take off = continuedText lines := by
  rcases h with ⟨rfl, rfl⟩ | ⟨hoff, front, line, rfl, hshows⟩
  · rw [List.take_zero]
    rfl
  · have hentered : Append.opened con off llc = (con.entered off llc).continueLine := by
      rw [Append.opened, if_neg hoff]
      rfl
    rw [hentered]
    exact hshows.continued

/-- What is written of the first response code. -/
theorem startRoom_code (con : Con) (off llc : Nat) (hcode : code.length ≤ 1000)
    (hbound : 10000 + (con.outSize + off) < 2 ^ 62) :
    code.length + 1 ≤ ((Append.opened con off llc).startRoom code).strLen ∧
      snprintf ((Append.opened con off llc).startRoom code).strLen (code ++ [' ']) =
        turnCode code (con, off, llc) := by
  obtain ⟨hoff, -, -, -⟩ := Append.opened_rest con off llc
  obtain ⟨hsize, -, -, hlen, -⟩ := Append.continueLine_rest
    ⟨con.outBuf, con.outSize, off, 0, sizeSub con.outSize off, none, if off = 0 then 0 else llc⟩
  have hsize : (Append.opened con off llc).size = con.outSize := hsize
  have hlen : (Append.opened con off llc).strLen = sizeSub con.outSize off := hlen
  unfold Append.startRoom turnCode
  rw [hlen, hsize, hoff]
  dsimp only
  rcases Nat.lt_or_ge con.outSize off with hlt | hge
  · have hwraps := sizeSub_of_lt hlt (by omega)
    rw [hwraps, if_neg (by omega), if_neg (by omega), hlen, hwraps]
    exact ⟨by omega, snprintf_whole (by omega)⟩
  · have hleft := sizeSub_of_le hge (by omega)
    rw [hleft]
    by_cases hsmall : con.outSize - off < code.length + 1
    · have hgrown : sizeSub (conOutBufSize + con.outSize) off = conOutBufSize + con.outSize - off :=
        sizeSub_of_le (by omega) (by unfold conOutBufSize; omega)
      have hroom : code.length + 2 ≤ conOutBufSize + con.outSize - off := by
        unfold conOutBufSize
        omega
      rw [if_pos hsmall, if_neg (by omega), Nat.add_comm con.outSize, hgrown]
      refine ⟨?_, snprintf_whole hroom⟩
      show code.length + 1 ≤ conOutBufSize + con.outSize - off
      omega
    · rw [if_neg hsmall, hlen, hleft]
      refine ⟨by omega, ?_⟩
      by_cases hcut : con.outSize - off = code.length + 1
      · rw [if_pos hcut, hcut, snprintf, Nat.add_sub_cancel]
        exact List.take_left
      · rw [if_neg hcut]
        exact snprintf_whole (by omega)

/-- One turn of the loop over the blacklists. -/
theorem Con.Shows.turn (hcode : ReplyCode code) (hsrc : AddressText con.srcAddr)
    (h : con.Shows off llc lines) (hbegun : con.Begun off) (hfirst : off = 0 → con.outSize ≠ code.length + 1)
    (blacklist : Blacklist)
    (hbound : con.outSize + off + 10000 * (blacklist.message.length + 2 + turns) < 2 ^ 62) :
    ∃ con' off' llc', replyBlacklist code (con, off, llc) blacklist = (con', off', llc') ∧
      con'.Shows off' llc' (lines ++ turnLines code (con, off, llc) blacklist) ∧ off' ≠ 0 ∧
      con'.Begun off' ∧ con'.srcAddr = con.srcAddr ∧ con'.outSize + off' + 10000 * turns < 2 ^ 62 := by
  obtain ⟨con', off', llc', hstep, hbegun', hsrc', hbound', -, -⟩ :=
    replyBlacklist_step llc turns hcode hsrc blacklist hbegun hbound
  obtain ⟨hplaced, hsized, hoff, hsaved, -⟩ :=
    Append.start_placed llc (blacklist.message.length + (turns + 1)) hcode hbegun (by omega)
  obtain ⟨hholds, hP⟩ := startRoom_code con off llc hcode.short (by omega)
  obtain ⟨hne, hnl⟩ := hcode.code_line hholds
  rw [hP] at hne hnl
  -- the first response code
  have hstart : (Append.start con off llc code).Shows lines ⟨turnCode code (con, off, llc), []⟩ false := by
    obtain ⟨hoff₀, happended₀, -, hlength₀⟩ := Append.opened_rest con off llc
    obtain ⟨hbuf₁, hoff₁, happended₁, -⟩ := (Append.opened con off llc).startRoom_rest code
    rw [Append.start_eq]
    refine Append.Shows.ofCode ?_ ?_ (by omega) hP hne hnl ?_
    · rw [hbuf₁, hoff₁, happended₁, hoff₀, happended₀]
      exact h.opened
    · rw [hbuf₁, hoff₁, happended₁, hoff₀, happended₀, hlength₀]
      exact hbegun.inside
    · have hpos := List.length_pos_of_ne_nil hne
      rcases h with ⟨hzero, rfl⟩ | ⟨-, front, line, rfl, -⟩
      · have hcodePos := List.length_pos_of_ne_nil hcode.ne
        have hwhole : turnCode code (con, off, llc) = code ++ [' '] := by
          rw [turnCode, if_neg]
          rw [hzero]
          exact hfirst hzero
        rw [hwhole, List.length_append, List.length_singleton]
        omega
      · rw [continuedText_append, ReplyLine.continued]
        simp only [List.length_append, List.length_cons]
        omega
  have hstrLen : snprintf (Append.start con off llc code).strLen (code ++ [' ']) =
      turnCode code (con, off, llc) := by
    rw [Append.start_eq]
    exact hP
  obtain ⟨ended, hrun⟩ := hstart.run hcode hsrc blacklist.message hstrLen hplaced hsized
  rw [hsaved] at hrun
  have hrunOff : (conAppendErrorString con off blacklist.message code llc).off = off :=
    (Append.run_off _ _ _ _).trans hoff
  have hrun : (conAppendErrorString con off blacklist.message code llc).Shows _ _ ended := hrun
  generalize ha : conAppendErrorString con off blacklist.message code llc = a at hrun hrunOff
  have hbegan := hrun.begun'
  rw [hrunOff] at hbegan
  have hlines : lines ++ turnLines code (con, off, llc) blacklist =
      lines ++ (messageLines con.srcAddr [] false none blacklist.message).1.map
        (⟨turnCode code (con, off, llc), ·⟩) ++
        [⟨turnCode code (con, off, llc), (messageLines con.srcAddr [] false none blacklist.message).2⟩] := by
    rw [turnLines, List.map_append, List.append_assoc]
    rfl
  have hshows : off' ≠ 0 ∧ ∃ front line,
      lines ++ turnLines code (con, off, llc) blacklist = front ++ [line] ∧
        (con'.entered off' llc').Shows front line true := by
    cases ended with
    | true =>
      have hturn := replyBlacklist_ended ha hrunOff (hrun.last.mpr rfl)
      rw [hstep] at hturn
      obtain ⟨rfl, hpair⟩ := Prod.mk.inj hturn
      obtain ⟨rfl, rfl⟩ := Prod.mk.inj hpair
      exact ⟨by omega, _, _, hlines, hrun.entered rfl (by rw [hrunOff]) rfl⟩
    | false =>
      have hlast : a.last ≠ '\n' := by
        rw [Ne, hrun.last]
        decide
      obtain ⟨con'', hturn, hbuf, -⟩ := replyBlacklist_open ha hrunOff hlast
      rw [hstep] at hturn
      obtain ⟨rfl, hpair⟩ := Prod.mk.inj hturn
      obtain ⟨rfl, rfl⟩ := Prod.mk.inj hpair
      refine ⟨by omega, _, _, hlines, hrun.newline.entered ?_ ?_ rfl⟩
      · rw [hbuf, ← hrunOff]
        rfl
      · rw [← hrunOff]
        rfl
  exact ⟨con', off', llc', hstep, .inr hshows, hshows.1, hbegun', hsrc', hbound'⟩

theorem foldl_shows (hcode : ReplyCode code) (blacklists : List Blacklist) (hsrc : AddressText con.srcAddr)
    (h : con.Shows off llc lines) (hbegun : con.Begun off) (hfirst : off = 0 → con.outSize ≠ code.length + 1)
    (hbound : con.outSize + off + 10000 * textBudget blacklists < 2 ^ 62) :
    ∃ con' off' llc', blacklists.foldl (replyBlacklist code) (con, off, llc) = (con', off', llc') ∧
      con'.Shows off' llc' (lines ++ replyLines code (con, off, llc) blacklists) ∧
      con'.srcAddr = con.srcAddr := by
  induction blacklists generalizing con off llc lines with
  | nil => exact ⟨con, off, llc, rfl, by simpa [replyLines] using h, rfl⟩
  | cons blacklist rest ih =>
    have hsplit : textBudget (blacklist :: rest) = blacklist.message.length + 2 + textBudget rest := by
      simp [textBudget]
    rw [hsplit] at hbound
    obtain ⟨con₁, off₁, llc₁, hstep, hshows, hoff, hbegun₁, hsrc₁, hbound₁⟩ :=
      h.turn _ hcode hsrc hbegun hfirst blacklist hbound
    obtain ⟨con₂, off₂, llc₂, hrun, hshows₂, hsrc₂⟩ :=
      ih (hsrc₁ ▸ hsrc) hshows hbegun₁ (fun hzero => absurd hzero hoff) hbound₁
    refine ⟨con₂, off₂, llc₂, ?_, ?_, hsrc₂.trans hsrc₁⟩
    · rw [List.foldl_cons, hstep, hrun]
    · rw [replyLines, hstep, ← List.append_assoc]
      exact hshows₂

end Turns

/-! ## Well-formed lines -/

/-- The mark of each line is where it belongs. -/
def LinesFormed (code : CStr) : List ReplyLine → Prop
  | [] => True
  | [line] => code ++ [' '] <+: line.whole
  | line :: next :: rest => code ++ ['-'] <+: line.continued ∧ LinesFormed code (next :: rest)

/-- The text of a list. Where exactly the response code fits behind the lists before, the blank
behind the code is cut off and the last character of the code is patched in its place: the
lines have to bring their marks with them. -/
def TurnFormed (code : CStr) (st : Con × Nat × Nat) (blacklist : Blacklist) (final : Bool) : Prop :=
  st.1.outSize - st.2.1 ≠ code.length + 1 ∨
    let lines := messageLines st.1.srcAddr [] false none blacklist.message
    (∀ line ∈ lines.1 ++ if final then [] else [lines.2], line.head? = some '-' ∧ code.getLast? = some '-') ∧
      (final = true → lines.2.head? = some ' ')

/-- Every list's text has its marks. -/
def Con.ReplyFormed (con : Con) (code : CStr) : Prop :=
  ∀ front blacklist back, con.blacklists = front ++ blacklist :: back →
    TurnFormed code (front.foldl (replyBlacklist code) (con, 0, 0)) blacklist back.isEmpty

section Formed

variable {code : CStr}

theorem continued_formed_iff {line : CStr} (hne : code ≠ []) :
    code ++ ['-'] <+: (⟨code, line⟩ : ReplyLine).continued ↔
      line.head? = some '-' ∧ code.getLast? = some '-' := by
  have hsplit := List.dropLast_append_getLast hne
  rw [ReplyLine.continued, List.getLast?_eq_getLast_of_ne_nil hne]
  dsimp only
  generalize code.getLast hne = last at hsplit
  generalize code.dropLast = front at hsplit
  rw [← hsplit, List.append_assoc, List.prefix_append_right_inj]
  cases line with
  | nil => simp
  | cons c rest =>
    simp only [List.singleton_append, List.cons_prefix_cons, List.nil_prefix, and_true, List.head?_cons,
      Option.some.injEq]
    constructor
    · intro h
      exact ⟨h.2.symm, h.1⟩
    · intro h
      exact ⟨h.2, h.1.symm⟩

theorem whole_formed_iff {line : CStr} :
    code ++ [' '] <+: (⟨code, line⟩ : ReplyLine).whole ↔ line.head? = some ' ' := by
  rw [ReplyLine.whole, List.prefix_append_right_inj]
  cases line with
  | nil => simp
  | cons c rest =>
    simp only [List.cons_prefix_cons, List.nil_prefix, and_true, List.head?_cons, Option.some.injEq]
    exact eq_comm

theorem continued_formed (line : CStr) : code ++ ['-'] <+: (⟨code ++ [' '], line⟩ : ReplyLine).continued := by
  rw [ReplyLine.continued, List.dropLast_concat, List.prefix_append_right_inj]
  exact ⟨line, rfl⟩

theorem whole_formed (line : CStr) : code ++ [' '] <+: (⟨code ++ [' '], line⟩ : ReplyLine).whole :=
  List.prefix_append _ _

theorem linesFormed_append {xs ys : List ReplyLine} (hys : ys ≠ []) : LinesFormed code (xs ++ ys) ↔
    (∀ line ∈ xs, code ++ ['-'] <+: line.continued) ∧ LinesFormed code ys := by
  induction xs with
  | nil => simp
  | cons x xs ih =>
    obtain ⟨next, rest, hrest⟩ := List.exists_cons_of_ne_nil (List.append_ne_nil_of_right_ne_nil xs hys)
    rw [List.cons_append, hrest, LinesFormed, ← hrest, ih, List.forall_mem_cons, and_assoc]

theorem linesFormed_concat {front : List ReplyLine} {line : ReplyLine} : LinesFormed code (front ++ [line]) ↔
    (∀ line ∈ front, code ++ ['-'] <+: line.continued) ∧ code ++ [' '] <+: line.whole :=
  linesFormed_append (List.cons_ne_nil line [])

theorem isReply_iff {front : List ReplyLine} {line : ReplyLine}
    (hfront : ∀ line ∈ front, '\n' ∉ line.continued) (hline : '\n' ∉ line.whole) :
    IsReply code (continuedText front ++ (line.whole ++ ['\n'])) ↔ LinesFormed code (front ++ [line]) := by
  have htext : continuedText front ++ (line.whole ++ ['\n']) =
      linesText (front.map ReplyLine.continued ++ [line.whole]) := by
    simp [continuedText, linesText]
  have hclean : ∀ x ∈ front.map ReplyLine.continued ++ [line.whole], '\n' ∉ x := by
    intro x hx
    rcases List.mem_append.mp hx with hx | hx
    · obtain ⟨l, hl, rfl⟩ := List.mem_map.mp hx
      exact hfront l hl
    · rw [List.mem_singleton.mp hx]
      exact hline
  rw [htext, linesFormed_concat]
  constructor
  · rintro ⟨xs, last, hlines, hno, hmarks, hblank⟩
    obtain ⟨rfl, hlast⟩ := List.append_inj' (linesText_inj hno hclean hlines) rfl
    obtain rfl := (List.cons.inj hlast).1
    exact ⟨fun l hl => hmarks _ (List.mem_map_of_mem hl), hblank⟩
  · rintro ⟨hmarks, hblank⟩
    refine ⟨_, _, rfl, hclean, fun x hx => ?_, hblank⟩
    obtain ⟨l, hl, rfl⟩ := List.mem_map.mp hx
    exact hmarks l hl

theorem turnFormed_iff (hne : code ≠ []) (st : Con × Nat × Nat) (blacklist : Blacklist) :
    ((∀ line ∈ turnLines code st blacklist, code ++ ['-'] <+: line.continued) ↔
        TurnFormed code st blacklist false) ∧
      (LinesFormed code (turnLines code st blacklist) ↔ TurnFormed code st blacklist true) := by
  unfold TurnFormed turnLines turnCode
  generalize messageLines st.1.srcAddr [] false none blacklist.message = lines
  by_cases hcut : st.1.outSize - st.2.1 = code.length + 1
  · rw [if_pos hcut, List.map_append, List.map_singleton, linesFormed_concat, whole_formed_iff]
    have hmarks : ∀ texts : List CStr, (∀ line ∈ texts.map (⟨code, ·⟩ : CStr → ReplyLine),
        code ++ ['-'] <+: line.continued) ↔
          ∀ line ∈ texts, line.head? = some '-' ∧ code.getLast? = some '-' := by
      intro texts
      rw [List.forall_mem_map]
      exact forall₂_congr fun line _ => continued_formed_iff hne
    constructor
    · have hall := hmarks (lines.1 ++ [lines.2])
      rw [List.map_append, List.map_singleton] at hall
      rw [hall]
      constructor
      · intro h
        exact .inr ⟨h, fun hno => absurd hno (by decide)⟩
      · intro h
        exact (h.resolve_left fun hno => hno hcut).1
    · rw [hmarks]
      constructor
      · intro h
        refine .inr ⟨?_, fun _ => h.2⟩
        rw [if_pos rfl, List.append_nil]
        exact h.1
      · intro h
        obtain ⟨hfront, hlast⟩ := h.resolve_left fun hno => hno hcut
        rw [if_pos rfl, List.append_nil] at hfront
        exact ⟨hfront, hlast rfl⟩
  · rw [if_neg hcut]
    refine ⟨iff_of_true ?_ (.inl hcut), iff_of_true ?_ (.inl hcut)⟩
    · intro line hline
      obtain ⟨text, -, rfl⟩ := List.mem_map.mp hline
      exact continued_formed text
    · rw [List.map_append, List.map_singleton, linesFormed_concat]
      refine ⟨fun line hline => ?_, whole_formed _⟩
      obtain ⟨text, -, rfl⟩ := List.mem_map.mp hline
      exact continued_formed text

theorem replyLines_ne_nil (code : CStr) (st : Con × Nat × Nat) {blacklists : List Blacklist}
    (h : blacklists ≠ []) :
    replyLines code st blacklists ≠ [] := by
  obtain ⟨blacklist, rest, rfl⟩ := List.exists_cons_of_ne_nil h
  refine List.append_ne_nil_of_left_ne_nil (fun hnil => ?_) _
  have hlines := List.map_eq_nil_iff.mp hnil
  exact List.append_ne_nil_of_right_ne_nil _ (List.cons_ne_nil _ _) hlines

theorem replyLines_formed_iff (hne : code ≠ []) (st : Con × Nat × Nat) (blacklists : List Blacklist) :
    LinesFormed code (replyLines code st blacklists) ↔
      ∀ front blacklist back, blacklists = front ++ blacklist :: back →
        TurnFormed code (front.foldl (replyBlacklist code) st) blacklist back.isEmpty := by
  induction blacklists generalizing st with
  | nil => exact iff_of_true trivial fun front blacklist back h => absurd h.symm (by simp)
  | cons blacklist rest ih =>
    obtain ⟨hopen, hfinal⟩ := turnFormed_iff hne st blacklist
    have hsplit : LinesFormed code (replyLines code st (blacklist :: rest)) ↔
        TurnFormed code st blacklist rest.isEmpty ∧
          LinesFormed code (replyLines code (replyBlacklist code st blacklist) rest) := by
      cases rest with
      | nil =>
        have hone : replyLines code st [blacklist] = turnLines code st blacklist := List.append_nil _
        rw [hone, hfinal]
        exact (and_iff_left trivial).symm
      | cons next rest =>
        rw [replyLines, linesFormed_append (replyLines_ne_nil code _ (List.cons_ne_nil next rest)), hopen]
        rfl
    rw [hsplit, ih]
    constructor
    · rintro ⟨hfirst, hrest⟩ front other back h
      cases front with
      | nil =>
        obtain ⟨rfl, rfl⟩ := List.cons.inj h
        exact hfirst
      | cons _ front =>
        obtain ⟨rfl, rfl⟩ := List.cons.inj h
        exact hrest front other back rfl
    · intro h
      exact ⟨h [] blacklist rest rfl, fun front other back hrest =>
        h (blacklist :: front) other back (congrArg (blacklist :: ·) hrest)⟩

end Formed

/-! ## The reply -/

/-- A text of one line, as a C string. -/
def OneLine (text : CStr) : Prop := '\n' ∉ text ∧ nul ∉ text

section Clean

variable {src code : CStr}

theorem OneLine.append {x y : CStr} (hx : OneLine x) (hy : OneLine y) : OneLine (x ++ y) :=
  ⟨List.not_mem_append hx.1 hy.1, List.not_mem_append hx.2 hy.2⟩

theorem charText_noNul {saved : Option Char} (hsrc : nul ∉ src) (hsaved : saved ≠ some nul) {c : Char}
    (hc : c ≠ nul) : nul ∉ (charText src saved c).1 ∧ (charText src saved c).2 ≠ some nul := by
  unfold charText
  split
  · cases saved with
    | none => exact ⟨List.not_mem_nil, by simpa using hc⟩
    | some e => exact ⟨by simpa [eq_comm] using hsaved, (Option.some_ne_none nul).symm⟩
  · cases saved with
    | none => exact ⟨by simpa [eq_comm] using hc, (Option.some_ne_none nul).symm⟩
    | some e =>
      refine ⟨?_, (Option.some_ne_none nul).symm⟩
      dsimp only
      split
      · unfold escapeText
        split
        · decide
        · exact hsrc
      · have he : e ≠ nul := fun heq => hsaved (congrArg some heq)
        simp [he.symm, hc.symm]

theorem messageLines_oneLine (hsrc : nul ∉ src) {fmt : CStr} (hfmt : nul ∉ fmt) {saved : Option Char}
    (hsaved : saved ≠ some nul) {line : CStr} (hline : OneLine line) (ended : Bool) :
    (∀ text ∈ (messageLines src line ended saved fmt).1, OneLine text) ∧
      OneLine (messageLines src line ended saved fmt).2 := by
  induction fmt generalizing line ended saved with
  | nil => exact ⟨fun text htext => absurd htext List.not_mem_nil, hline⟩
  | cons c rest ih =>
    obtain ⟨hc, hrest⟩ := not_or.mp (mt List.mem_cons.mpr hfmt)
    obtain ⟨htext, hsaved'⟩ := charText_noNul hsrc hsaved (Ne.symm hc)
    have hnew : OneLine (lineText (charText src saved c).1) := by
      refine ⟨fun hmem => ?_, fun hmem => htext ((List.takeWhile_subset _) hmem)⟩
      have hnot := List.mem_takeWhile_imp hmem
      simp at hnot
    have hstart : OneLine (if ended then [] else line) := by
      cases ended
      · exact hline
      · exact ⟨List.not_mem_nil, List.not_mem_nil⟩
    obtain ⟨hfront, hlast⟩ := ih hrest hsaved' (hstart.append hnew) ('\n' ∈ (charText src saved c).1)
    refine ⟨fun text hmem => ?_, hlast⟩
    cases ended with
    | false => exact hfront text hmem
    | true =>
      rcases List.mem_cons.mp hmem with rfl | hmem
      · exact hline
      · exact hfront text hmem

theorem turnLines_oneLine (hcode : ReplyCode code) (st : Con × Nat × Nat) (hsrc : nul ∉ st.1.srcAddr)
    {blacklist : Blacklist} (hmessage : nul ∉ blacklist.message) :
    ∀ line ∈ turnLines code st blacklist, OneLine line.code ∧ OneLine line.text := by
  have hclean : OneLine code := ⟨hcode.noNewline, hcode.noNul⟩
  have hturn : OneLine (turnCode code st) := by
    unfold turnCode
    split
    · exact hclean
    · exact hclean.append ⟨by decide, by decide⟩
  obtain ⟨hfront, hlast⟩ := messageLines_oneLine hsrc hmessage (Option.some_ne_none nul).symm
    (⟨List.not_mem_nil, List.not_mem_nil⟩ : OneLine []) false
  intro line hline
  obtain ⟨text, htext, rfl⟩ := List.mem_map.mp hline
  refine ⟨hturn, ?_⟩
  rcases List.mem_append.mp htext with htext | htext
  · exact hfront text htext
  · rw [List.mem_singleton.mp htext]
    exact hlast

theorem replyBlacklist_srcAddr (code : CStr) (st : Con × Nat × Nat) (blacklist : Blacklist) :
    (replyBlacklist code st blacklist).1.srcAddr = st.1.srcAddr := by
  obtain ⟨_, _, _, _, _, _, hframe⟩ := replyBlacklist_frame st.1 code st.2.1 st.2.2 blacklist
  rw [show st = (st.1, st.2.1, st.2.2) from rfl, hframe]

theorem replyLines_oneLine (hcode : ReplyCode code) (blacklists : List Blacklist) (st : Con × Nat × Nat)
    (hsrc : nul ∉ st.1.srcAddr) (hmessages : ∀ blacklist ∈ blacklists, nul ∉ blacklist.message) :
    ∀ line ∈ replyLines code st blacklists, OneLine line.code ∧ OneLine line.text := by
  induction blacklists generalizing st with
  | nil => exact fun line hline => absurd hline List.not_mem_nil
  | cons blacklist rest ih =>
    intro line hline
    rcases List.mem_append.mp hline with hline | hline
    · exact turnLines_oneLine hcode st hsrc (hmessages _ List.mem_cons_self) line hline
    · exact ih _ (by rw [replyBlacklist_srcAddr]; exact hsrc)
        (fun other hother => hmessages other (List.mem_cons_of_mem _ hother)) line hline

theorem ReplyLine.oneLine {line : ReplyLine} (h : OneLine line.code ∧ OneLine line.text) :
    OneLine line.whole ∧ OneLine line.continued := by
  obtain ⟨⟨hnl, hnul⟩, ⟨hnl', hnul'⟩⟩ := h
  refine ⟨OneLine.append ⟨hnl, hnul⟩ ⟨hnl', hnul'⟩, ?_, ?_⟩
  · exact List.not_mem_append (fun hmem => hnl (List.mem_of_mem_dropLast hmem))
      (mt List.mem_cons.mp (not_or.mpr ⟨by decide, hnl'⟩))
  · exact List.not_mem_append (fun hmem => hnul (List.mem_of_mem_dropLast hmem))
      (mt List.mem_cons.mp (not_or.mpr ⟨by decide, hnul'⟩))

end Clean

/-- What the buffer holds as a string. -/
theorem Append.Shows.cstr {a : Append} {front : List ReplyLine} {line : ReplyLine} {ended : Bool}
    (h : a.Shows front line ended) (hfront : ∀ l ∈ front, nul ∉ l.continued) (hline : nul ∉ line.whole) :
    cstr a.buf = continuedText front ++ (line.whole ++ if ended then ['\n'] else []) := by
  have hlength := h.length
  have htext := h.text
  have hclean : nul ∉ continuedText front ++ (line.whole ++ if ended then ['\n'] else []) := by
    refine List.not_mem_append (fun hmem => ?_) (List.not_mem_append hline (by cases ended <;> decide))
    obtain ⟨text, htext, hmem⟩ := List.mem_flatMap.mp hmem
    obtain ⟨l, hl, rfl⟩ := List.mem_map.mp htext
    exact List.not_mem_append (hfront l hl) (by decide) hmem
  have hsize : (continuedText front ++ (line.whole ++ if ended then ['\n'] else [])).length =
      a.off + a.appended := by
    rw [← htext, List.length_take, Nat.min_eq_left h.inside]
  refine cstr_of_getD hclean (fun i hi => ?_) (by rw [hsize]; exact h.behind)
  rw [hsize] at hi
  rw [← htext, List.getD_eq_getElem?_getD, List.getD_eq_getElem?_getD, List.getElem?_take_of_lt hi]

/-- What the reply is made of: C strings, a buffer as `Con_init` allocates it or a grown one. -/
structure Con.ReplyStrings (con : Con) (code : CStr) : Prop where
  replies : con.Replies code
  listed : con.blacklists ≠ []
  roomy : conOutBufSize ≤ con.outSize
  src_string : nul ∉ con.srcAddr
  messages : ∀ blacklist ∈ con.blacklists, nul ∉ blacklist.message

/-- The text of the reply. -/
theorem Con.ReplyStrings.text {con : Con} {code : CStr} (h : con.ReplyStrings code) :
    ∃ front line, replyLines code (con, 0, 0) con.blacklists = front ++ [line] ∧
      cstr (conBuildReply con code).outBuf = continuedText front ++ (line.whole ++ ['\n']) ∧
      (∀ l ∈ front, '\n' ∉ l.continued) ∧ '\n' ∉ line.whole := by
  have hlarge := h.roomy
  have hshort := h.replies.code.short
  unfold conOutBufSize at hlarge
  obtain ⟨con', off', llc', hrun, hshows, -⟩ := foldl_shows h.replies.code con.blacklists h.replies.src
    (show con.Shows 0 0 [] from .inl ⟨rfl, rfl⟩) ⟨Nat.zero_le _, fun hno => absurd rfl hno⟩
    (fun _ => by omega) (by simpa using h.replies.fits)
  have hreply : conBuildReply con code = con' := by
    have hlisted : con.listed = true := by simpa [Con.listed] using h.listed
    rw [conBuildReply, if_pos hlisted, hrun]
  have hne := replyLines_ne_nil code (con, 0, 0) h.listed
  have hclean := replyLines_oneLine h.replies.code con.blacklists (con, 0, 0) h.src_string h.messages
  rw [List.nil_append] at hshows
  obtain ⟨-, front, line, hlines, hshown⟩ := hshows.resolve_left fun hno => hne hno.2
  rw [hlines] at hclean
  have hfront : ∀ l ∈ front, OneLine l.continued := fun l hl =>
    (ReplyLine.oneLine (hclean l (List.mem_append_left _ hl))).2
  have hline := (ReplyLine.oneLine (hclean line (List.mem_append_right _ List.mem_cons_self))).1
  refine ⟨front, line, hlines, ?_, fun l hl => (hfront l hl).1, hline.1⟩
  rw [hreply]
  exact hshown.cstr (fun l hl => (hfront l hl).2) hline.2

/-- The reply to a listed client is a multi-line reply exactly if no list's text begins where
only the response code and a NUL fit, or its lines bring the marks with them. -/
theorem reply_format_iff (con : Con) (code : CStr) (h : con.ReplyStrings code) :
    IsReply code (cstr (conBuildReply con code).outBuf) ↔ con.ReplyFormed code := by
  obtain ⟨front, line, hlines, htext, hfront, hline⟩ := h.text
  have hformed := replyLines_formed_iff h.replies.code.ne (con, 0, 0) con.blacklists
  rw [htext, isReply_iff hfront hline, ← hlines, hformed]
  rfl

/-! ## A reply with a line that has no mark -/

section Newlines

variable {a : Append} {con : Con} {off llc : Nat} {src code : CStr} {turns : Nat}

theorem Append.run_newlines (hsrc : src.length < inet6AddrStrlen) (n : Nat) (h : a.Ended)
    (hlast : a.last = '\n') (hsaved : a.saved = none) (hlen : a.strLen < 2 ^ 64)
    (hroom : a.appended + n * (code.length + 2) + (code.length + 48) < a.strLen + (code.length + 2)) :
    (a.run src code (List.replicate n '\n')).last = '\n' ∧
      (a.run src code (List.replicate n '\n')).size = a.size ∧
      (a.run src code (List.replicate n '\n')).appended = a.appended + n * (code.length + 2) := by
  induction n generalizing a with
  | zero => exact ⟨hlast, rfl, by rw [Nat.zero_mul]; rfl⟩
  | succ n ih =>
    rw [Nat.succ_mul] at hroom ⊢
    have hnoroom := Append.room_plain (by omega : a.appended + (code.length + 48) < a.strLen) hlen
    have hwhole := snprintf_whole (by omega : code.length + 2 ≤ a.strLen)
    have hne : snprintf a.strLen (code ++ [' ']) ≠ [] := snprintf_ne_nil code (by omega)
    obtain ⟨hline, hended⟩ := Append.line_grows h (by omega) hne
    have hchar := Append.char_grows hended hsrc '\n'
    have hended' := Append.char_ended hended hsrc '\n'
    obtain ⟨-, hsaved'⟩ := Append.char_extends hended.inside src '\n'
    have htext : charText src none '\n' = (['\n'], none) := rfl
    rw [a.line_saved, hsaved, htext] at hchar hsaved'
    have happended := hchar.appended
    rw [hline.appended, Append.lineCode, if_pos hlast, hwhole, List.length_append] at happended
    have hlastChar : ((a.line code).char src '\n').last = '\n' := of_decide_eq_true hchar.last
    obtain ⟨hlastRun, hsize, hcount⟩ := ih hended' hlastChar hsaved'
      ((hchar.strLen.trans hline.strLen) ▸ hlen) (by
        rw [happended, hchar.strLen, hline.strLen]
        simp only [List.length_singleton]
        omega)
    have hrun : a.run src code (List.replicate (n + 1) '\n') =
        ((a.line code).char src '\n').run src code (List.replicate n '\n') := by
      rw [List.replicate_succ, Append.run, hnoroom]
    rw [hrun]
    refine ⟨hlastRun, hsize.trans (hchar.size.trans hline.size), ?_⟩
    rw [hcount, happended]
    simp only [List.length_singleton]
    omega

theorem Append.Wrapped.run_plain (hcode : code.length + 48 ≤ conOutBufSize)
    (hsrc : src.length < inet6AddrStrlen) (text : CStr) (h : a.Wrapped code (text.length + turns))
    (hlast : a.last ≠ '\n') (hsaved : a.saved = none)
    (hplain : ∀ c ∈ text, ¬ IsEscape c ∧ c ≠ '\n') :
    (a.run src code text).last ≠ '\n' ∧ (a.run src code text).appended = a.appended + text.length := by
  induction text generalizing a with
  | nil => exact ⟨hlast, rfl⟩
  | cons c rest ih =>
    rw [List.length_cons, Nat.add_right_comm] at h
    obtain ⟨hc, hnl⟩ := hplain c List.mem_cons_self
    obtain ⟨hstep, -⟩ := h.step hcode hsrc c
    have hnoline : ¬ a.buf.getD (a.off + a.appended - 1) nul = '\n' := hlast
    have hput : ((a.room code).line code).char src c = a.put c := by
      have hn : ¬ (a.saved = some '\\' ∧ c = 'n') := fun hno => by
        rw [hsaved] at hno
        exact absurd hno.1 (by decide)
      have hA : ¬ (a.saved = some '%' ∧ c = 'A') := fun hno => by
        rw [hsaved] at hno
        exact absurd hno.1 (by decide)
      rw [h.room hcode, Append.line, if_neg hnoline, Append.char,
        if_neg (show ¬ (c = '\\' ∨ c = '%') from hc), if_neg hn, if_neg hA, hsaved]
    rw [hput] at hstep
    have hext := Append.Extends.put h.ended.inside c
    have hlast' : (a.put c).last ≠ '\n' := by
      have hdecide := hext.last_of_ne (List.cons_ne_nil c [])
      rw [textEnds, List.getLast?_singleton] at hdecide
      exact of_decide_eq_false (hdecide.trans (decide_eq_false hnl))
    obtain ⟨hlastRun, hcount⟩ := ih hstep hlast' hsaved fun d hd => hplain d (List.mem_cons_of_mem c hd)
    have hrun : a.run src code (c :: rest) = (a.put c).run src code rest := by
      rw [Append.run, hput]
    rw [hrun]
    refine ⟨hlastRun, ?_⟩
    rw [hcount, List.length_cons]
    show a.appended + 1 + _ = _
    omega

theorem textEnds_code (code : CStr) : textEnds false (code ++ [' ']) = false := by
  rw [textEnds, List.getLast?_append]
  rfl

/-- A list with a message of newlines. -/
theorem newlines_turn {blacklist : Blacklist} {n : Nat}
    (hmessage : blacklist.message = List.replicate (n + 1) '\n')
    (ht : con.TurnBegins off llc) (hcode : code.length + 48 ≤ conOutBufSize)
    (hsrc : con.srcAddr.length < inet6AddrStrlen)
    (hbound : con.outSize + conOutBufSize * (n + 3) < 2 ^ 63) (hleft : 2 * code.length + 49 < con.outSize - off)
    (hroom : n * (code.length + 2) + (code.length + 48) < con.outSize - off) :
    ∃ con' llc', replyBlacklist code (con, off, llc) blacklist =
        (con', off + (n + 1) * (code.length + 2), llc') ∧
      con'.TurnBegins (off + (n + 1) * (code.length + 2)) llc' ∧ con'.outSize = con.outSize ∧
      con'.srcAddr = con.srcAddr := by
  have hsize : con.outSize < 2 ^ 64 := by omega
  have hlength : blacklist.message.length = n + 1 := by rw [hmessage, List.length_replicate]
  have hbegins := Append.start_begins ht hsize (by omega : code.length + 1 ≤ con.outSize - off) (by omega)
  have hwhole := snprintf_whole (by omega : code.length + 2 ≤ con.outSize - off)
  have happended := hbegins.appended
  have hlast := hbegins.last
  rw [hwhole, textEnds_code] at hlast
  rw [hwhole, List.length_append, List.length_singleton] at happended
  -- the first newline
  have hgrows := Append.char_grows hbegins.ended hsrc '\n'
  have hended := Append.char_ended hbegins.ended hsrc '\n'
  obtain ⟨-, hsaved⟩ := Append.char_extends hbegins.ended.inside con.srcAddr '\n'
  rw [hbegins.saved] at hgrows hsaved
  have hfirst := hgrows.appended
  rw [happended] at hfirst
  have hfirst : _ = code.length + 1 + 1 := hfirst
  have hstrLen := hgrows.strLen.trans hbegins.strLen
  have hstep := Append.step_plain con.srcAddr (of_decide_eq_false hlast)
    (by rw [happended, hbegins.strLen]; omega : _ + (code.length + 48) < _)
    (by rw [hbegins.strLen]; omega) '\n'
  have hrun : conAppendErrorString con off blacklist.message code llc =
      ((Append.start con off llc code).char con.srcAddr '\n').run con.srcAddr code (List.replicate n '\n') := by
    rw [conAppendErrorString, hmessage, List.replicate_succ, Append.run, hstep]
  -- the others
  obtain ⟨hlastRun, hsizeRun, hcount⟩ := Append.run_newlines hsrc n hended
    (of_decide_eq_true hgrows.last) hsaved (by rw [hstrLen]; omega) (by rw [hfirst, hstrLen]; omega : _ + (code.length + 48) < _)
  rw [← hrun] at hlastRun hsizeRun hcount
  have hoff : (conAppendErrorString con off blacklist.message code llc).off = off :=
    (Append.run_off _ _ _ _).trans hbegins.start
  have hturn := replyBlacklist_ended
    (rfl : conAppendErrorString con off blacklist.message code llc = _) hoff hlastRun
  have hlarge : con.outSize + conOutBufSize * (blacklist.message.length + (0 + 1) + 1) < 2 ^ 63 := by
    rw [hlength]
    exact hbound
  have hone : blacklist.message.length + 1 ≤ blacklist.message.length + (0 + 1) + 1 := Nat.le_succ _
  have hroomy : code.length + 48 ≤ con.outSize - off := by omega
  have hin : TurnInBounds code (con, off, llc) blacklist :=
    (turnInBounds_iff ht hcode hsrc blacklist
      ((Nat.add_le_add_left (Nat.mul_le_mul_left _ hone) _).trans_lt hlarge)).mpr (.inr (.inl hroomy))
  obtain ⟨con', off', llc', hstep', ht', hsrc', -⟩ := hin.next 0 ht hcode hsrc hlarge
  rw [hcount, hfirst] at hturn
  have hoff' : off + (code.length + 1 + 1 + n * (code.length + 2)) = off + (n + 1) * (code.length + 2) := by
    rw [Nat.succ_mul]
    omega
  rw [hoff'] at hturn
  rw [hstep'] at hturn
  obtain ⟨hcon, hpair⟩ := Prod.mk.inj hturn
  obtain ⟨rfl, rfl⟩ := Prod.mk.inj hpair
  refine ⟨con', _, hstep', ht', ?_, hsrc'⟩
  rw [hcon]
  exact hsizeRun.trans (hgrows.size.trans hbegins.size)

/-- A list with a plain message that fits where the check for room wraps around. -/
theorem plain_turn {blacklist : Blacklist} (ht : con.TurnBegins off llc)
    (hcode : code.length + 48 ≤ conOutBufSize) (hsrc : con.srcAddr.length < inet6AddrStrlen)
    (hbound : con.outSize + conOutBufSize * (blacklist.message.length + 0 + 1) < 2 ^ 63)
    (hplain : ∀ c ∈ blacklist.message, ¬ IsEscape c ∧ c ≠ '\n') (hsmall : con.outSize - off < code.length + 48)
    (hfits : code.length + 1 + blacklist.message.length < con.outSize - off) :
    ∃ con' llc', replyBlacklist code (con, off, llc) blacklist =
        (con', off + (code.length + 1 + blacklist.message.length) + 1, llc') ∧
      con'.outSize = con.outSize ∧ con'.srcAddr = con.srcAddr := by
  have hsize : con.outSize < 2 ^ 64 := by omega
  have hbegins := Append.start_begins ht hsize (by omega : code.length + 1 ≤ con.outSize - off) (by omega)
  have hwhole := snprintf_whole (by omega : code.length + 2 ≤ con.outSize - off)
  have happended := hbegins.appended
  have hlast := hbegins.last
  rw [hwhole, textEnds_code] at hlast
  rw [hwhole, List.length_append, List.length_singleton] at happended
  have hwrapped := hbegins.wrapped (blacklist.message.length + 0) hcode hbound (by omega) hsmall
  obtain ⟨-, -, hsizeRun, -, -⟩ := hwrapped.run hcode hsrc blacklist.message
  obtain ⟨hlastRun, hcount⟩ := hwrapped.run_plain hcode hsrc blacklist.message (of_decide_eq_false hlast)
    hbegins.saved hplain
  have hoff : (conAppendErrorString con off blacklist.message code llc).off = off :=
    (Append.run_off _ _ _ _).trans hbegins.start
  obtain ⟨con', hturn, -, hsize'⟩ := replyBlacklist_open
    (rfl : conAppendErrorString con off blacklist.message code llc = _) hoff hlastRun
  have hcount : (conAppendErrorString con off blacklist.message code llc).appended =
      code.length + 1 + blacklist.message.length := hcount.trans (by rw [happended])
  have hsizeRun : (conAppendErrorString con off blacklist.message code llc).size = con.outSize :=
    hsizeRun.trans hbegins.size
  have hsrc' := replyBlacklist_srcAddr code (con, off, llc) blacklist
  rw [hcount] at hturn hsize'
  rw [hturn] at hsrc'
  refine ⟨con', _, hturn, ?_, hsrc'⟩
  rw [hsize', if_neg (by omega)]
  exact hsizeRun

end Newlines

/-- A client on three lists. The first message is 1629 empty lines, the second one takes 42
bytes, and 4 bytes are left. -/
def cutCon : Con :=
  { Con.zero with
    outSize := conOutBufSize
    srcAddr := "10.0.0.2".toList
    blacklists := [blacklistCreate [] (List.replicate 1629 '\n') .trie,
      blacklistCreate [] "You are listed for sending junk mails.".toList .trie,
      blacklistCreate [] "Your address %A is listed".toList .trie] }

theorem cutCon_strings : cutCon.ReplyStrings "450".toList where
  replies := ⟨⟨by decide, by decide, by decide, by decide⟩, ⟨by decide, by decide, by decide⟩,
    by decide +kernel⟩
  listed := List.cons_ne_nil _ _
  roomy := Nat.le_refl _
  src_string := by decide
  messages := by
    intro blacklist hmem
    simp only [cutCon, List.mem_cons, List.not_mem_nil, or_false] at hmem
    rcases hmem with rfl | rfl | rfl
    · exact fun hnul => absurd (List.eq_of_mem_replicate hnul) (by decide)
    · decide
    · decide

theorem reply_format_cut : IsReply "450".toList (cstr (conBuildReply cutCon "450".toList).outBuf) ↔
    cutCon.ReplyFormed "450".toList :=
  reply_format_iff cutCon "450".toList cutCon_strings

theorem cutText_plain : ∀ c ∈ (blacklistCreate []
    "You are listed for sending junk mails.".toList .trie).message, ¬ IsEscape c ∧ c ≠ '\n' := by
  have hall : (blacklistCreate [] "You are listed for sending junk mails.".toList .trie).message.all
      (fun c => decide (¬ IsEscape c ∧ c ≠ '\n')) = true := by decide
  intro c hc
  exact of_decide_eq_true (List.all_eq_true.mp hall c hc)

/-- Where the third list's text begins. -/
theorem cutCon_turns : ∃ con llc, [blacklistCreate [] (List.replicate 1629 '\n') .trie,
      blacklistCreate [] "You are listed for sending junk mails.".toList .trie].foldl
        (replyBlacklist "450".toList) (cutCon, 0, 0) = (con, 8188, llc) ∧
      con.outSize = 8192 ∧ con.srcAddr = cutCon.srcAddr := by
  have hcode : "450".toList.length + 48 ≤ conOutBufSize := by decide
  have hsize : cutCon.outSize = 8192 := rfl
  have ht : cutCon.TurnBegins 0 0 :=
    ⟨Nat.zero_le _, Nat.zero_le _, fun hno => absurd rfl hno, Nat.le_refl _⟩
  obtain ⟨con₁, llc₁, hturn₁, ht₁, hsize₁, hsrc₁⟩ := newlines_turn
    (rfl : (blacklistCreate [] (List.replicate 1629 '\n') .trie).message = List.replicate (1628 + 1) '\n')
    ht hcode (by decide) (by rw [hsize]; decide) (by rw [hsize]; decide) (by rw [hsize]; decide)
  obtain ⟨con₂, llc₂, hturn₂, hsize₂, hsrc₂⟩ := plain_turn ht₁ hcode (by rw [hsrc₁]; decide)
    (by rw [hsize₁, hsize]; decide) cutText_plain
    (by rw [hsize₁, hsize]; decide) (by rw [hsize₁, hsize]; decide)
  refine ⟨con₂, llc₂, ?_, hsize₂.trans hsize₁, hsrc₂.trans hsrc₁⟩
  rw [List.foldl_cons, List.foldl_cons, List.foldl_nil, hturn₁, hturn₂]
  rfl

/-- The third list's text begins with the code alone: `450Your address 10.0.0.2 is listed`. -/
theorem reply_without_mark :
    ¬ IsReply "450".toList (cstr (conBuildReply cutCon "450".toList).outBuf) := by
  obtain ⟨front, line, hlines, htext, hfront, hline⟩ := cutCon_strings.text
  have hformed := replyLines_formed_iff cutCon_strings.replies.code.ne (cutCon, 0, 0) cutCon.blacklists
  obtain ⟨con, llc, hturns, hsize, hsrc⟩ := cutCon_turns
  rw [htext, isReply_iff hfront hline, ← hlines, hformed]
  intro h
  have hlast := h [blacklistCreate [] (List.replicate 1629 '\n') .trie,
    blacklistCreate [] "You are listed for sending junk mails.".toList .trie]
    (blacklistCreate [] "Your address %A is listed".toList .trie) [] rfl
  rw [hturns] at hlast
  unfold TurnFormed at hlast
  dsimp only at hlast
  rw [hsize, hsrc] at hlast
  have hblank := (hlast.resolve_left fun hno => hno (by decide)).2 rfl
  exact absurd hblank (by decide)

end Greyd
