import Mathlib.Tactic
import Greyd.ReplyStores

/-!
# The bounds of the reply buffer (con.c)

The buffer of the model is the bytes written so far, so a byte has been written behind the
allocated size exactly where the buffer has become longer than the size. Whether a list's text
stays inside is decided by what is left of the buffer where the text begins: the check for
room subtracts the space for one turn from it, and wraps around where less is left.
-/
namespace Greyd

/-! ## What is written -/

/-- What has been written lies inside the buffer, and so does the mark that is patched next. -/
structure Append.InBounds (a : Append) : Prop where
  written : a.buf.length ≤ a.size
  mark : a.lastLineCont < a.size

/-- One turn of the loop over the blacklists writes inside the buffer. The buffer grows before
the first store, before the stores of a turn of the loop over the message, and before the
newline at the end, so the bounds behind these stores are those in force at each of them. -/
structure TurnInBounds (errorCode : CStr) (st : Con × Nat × Nat) (blacklist : Blacklist) : Prop where
  patch : st.2.1 ≠ 0 → st.2.2 < st.1.outSize
  loop : ∀ done, done <+: blacklist.message →
    ((Append.start st.1 st.2.1 st.2.2 errorCode).run st.1.srcAddr errorCode done).InBounds
  ending : (replyBlacklist errorCode st blacklist).1.outBuf.length ≤
    (replyBlacklist errorCode st blacklist).1.outSize

/-- `Con_build_reply` writes inside the buffer. -/
def Con.ReplyInBounds (con : Con) (errorCode : CStr) : Prop :=
  EachTurn errorCode (TurnInBounds errorCode) (con, 0, 0) con.blacklists

/-! ## What fits -/

/-- How far behind its start the text of a message is written where the buffer does not grow:
`code` is what is written of the response code, the text so far has this length, and `ended`
says whether it ends in a newline. An address is padded, and a newline and a NUL come last. -/
def reach (srcAddr code : CStr) (length : Nat) (ended : Bool) (saved : Option Char) : CStr → Nat
  | [] => length + if ended then 1 else 2
  | c :: rest =>
    let length := if ended then length + code.length else length
    let ended := if ended then textEnds false code else false
    let text := charText srcAddr saved c
    let behind := reach srcAddr code (length + text.1.length) (textEnds ended text.1) text.2 rest
    if saved = some '%' ∧ c = 'A' then max (length + inet6AddrStrlen) behind else behind

/-- Does a list's text begin with a newline? Where no byte of a code is written, the byte in front
of the text is looked at, which is a dash where the last mark stood there. -/
def beginsEnded (st : Con × Nat × Nat) (code : CStr) : Bool :=
  if code = [] then
    st.1.outBuf.getD (st.2.1 - 1) nul = '\n' ∧ (st.2.2 = 0 ∨ st.2.2 ≠ st.2.1 - 1)
  else textEnds false code

/-- What is left of the buffer for a list's text: too little for the response code and a NUL, so
that the buffer grows at once; or enough for the check for room; or the text fits in. -/
def TurnFits (errorCode : CStr) (st : Con × Nat × Nat) (blacklist : Blacklist) : Prop :=
  let left := st.1.outSize - st.2.1
  let code := snprintf left (errorCode ++ [' '])
  left < errorCode.length + 1 ∨ errorCode.length + 48 ≤ left ∨
    reach st.1.srcAddr code code.length (beginsEnded st code) none blacklist.message ≤ left

instance (errorCode : CStr) (st : Con × Nat × Nat) (blacklist : Blacklist) :
    Decidable (TurnFits errorCode st blacklist) := inferInstanceAs (Decidable (_ ∨ _ ∨ _))

/-- Every list's text fits where it begins. -/
def Con.ReplyFits (con : Con) (errorCode : CStr) : Prop :=
  EachTurn errorCode (TurnFits errorCode) (con, 0, 0) con.blacklists

/-- What the reply is made of: a code that a grown buffer has room for, a client's address, and
lengths that `size_t` holds. -/
structure Con.ReplyTexts (con : Con) (errorCode : CStr) : Prop where
  code_short : errorCode.length + 48 ≤ conOutBufSize
  src_short : con.srcAddr.length < inet6AddrStrlen
  fits : con.outSize + conOutBufSize * textBudget con.blacklists < 2 ^ 63
  roomy : conOutBufSize ≤ con.outSize
  written : con.outBuf.length ≤ con.outSize

section Turn

variable {a : Append} {srcAddr code : CStr} {turns : Nat}

/-! ## With room for one turn -/

/-- `error_str_len` lets the check for room work, and what is written lies inside. -/
structure Append.Safe (code : CStr) (a : Append) (turns : Nat) : Prop where
  ended : a.Ended
  roomy : code.length + 48 ≤ a.strLen
  inside : a.off + a.strLen ≤ a.size
  written : a.buf.length ≤ a.size
  ends : a.off + a.appended + 2 ≤ a.size
  bound : a.size + conOutBufSize * turns < 2 ^ 63

theorem Append.Safe.inBounds (h : a.Safe code turns) : a.InBounds :=
  ⟨h.written, h.ended.mark.trans_le h.written⟩

/-- Behind the check for room there is room for a code, a character and a NUL. -/
theorem Append.Safe.room (hcode : code.length + 48 ≤ conOutBufSize) (h : a.Safe code (turns + 1)) :
    (a.room code).Safe code turns ∧
      (a.room code).off + (a.room code).appended + code.length + 49 ≤ (a.room code).size := by
  obtain ⟨hended, hroomy, hinside, hwritten, hends, hbound⟩ := h
  unfold conOutBufSize at hcode
  have hsmall : a.size + 8192 + 8192 * turns < 2 ^ 63 := by
    unfold conOutBufSize at hbound
    omega
  rw [Append.room_eq, sizeSub_of_le hroomy (by omega)]
  split
  · have hgrown : sizeSub (a.size + conOutBufSize) (a.off + a.appended) =
        a.size + 8192 - (a.off + a.appended) :=
      sizeSub_of_le (by show _ ≤ a.size + 8192; omega) (by show a.size + 8192 < _; omega)
    dsimp only
    rw [hgrown]
    refine ⟨⟨⟨hended.nul, hended.mark, hended.begun⟩, ?_, ?_, ?_, ?_, ?_⟩, ?_⟩
    · show code.length + 48 ≤ a.size + 8192 - (a.off + a.appended)
      omega
    · show a.off + (a.size + 8192 - (a.off + a.appended)) ≤ a.size + 8192
      omega
    · show a.buf.length ≤ a.size + 8192
      omega
    · show a.off + a.appended + 2 ≤ a.size + 8192
      omega
    · exact hsmall
    · show a.off + a.appended + code.length + 49 ≤ a.size + 8192
      omega
  · refine ⟨⟨hended, hroomy, hinside, hwritten, hends, ?_⟩, by omega⟩
    show a.size + 8192 * turns < _
    omega

theorem Append.Safe.step (hcode : code.length + 48 ≤ conOutBufSize)
    (hsrc : srcAddr.length < inet6AddrStrlen) (h : a.Safe code (turns + 1)) (c : Char) :
    (((a.room code).line code).char srcAddr c).Safe code turns := by
  obtain ⟨hroom, hspace⟩ := h.room hcode
  generalize a.room code = r at hroom hspace ⊢
  obtain ⟨hended, hroomy, hinside, hwritten, hends, hbound⟩ := hroom
  obtain ⟨hline, hended'⟩ := Append.line_grows hended (by omega) (snprintf_ne_nil code (by omega))
  have hchar := Append.char_grows hended' hsrc c
  have hended'' := Append.char_ended hended' hsrc c
  have hcodeLength := r.lineCode_length code
  have hreach := charReach_le srcAddr (r.line code).saved c
  have htext := charText_lt_reach hsrc (r.line code).saved c
  have happended := hchar.appended
  have hlength := hchar.length
  rw [hline.off, hline.appended] at hlength
  rw [hline.appended] at happended
  rw [hline.length] at hlength
  unfold inet6AddrStrlen at hreach
  refine ⟨hended'', ?_, ?_, ?_, ?_, ?_⟩
  · rw [hchar.strLen, hline.strLen]
    exact hroomy
  · rw [hchar.off, hline.off, hchar.strLen, hline.strLen, hchar.size, hline.size]
    exact hinside
  · rw [hchar.size, hline.size]
    omega
  · rw [hchar.off, hline.off, hchar.size, hline.size]
    omega
  · rw [hchar.size, hline.size]
    exact hbound

/-- The loop over the message. -/
theorem Append.Safe.run (hcode : code.length + 48 ≤ conOutBufSize)
    (hsrc : srcAddr.length < inet6AddrStrlen) (fmt : CStr) (h : a.Safe code (fmt.length + turns)) :
    (a.run srcAddr code fmt).Safe code turns := by
  induction fmt generalizing a with
  | nil => exact Nat.zero_add turns ▸ h
  | cons c rest ih =>
    rw [List.length_cons, Nat.add_right_comm] at h
    exact ih (h.step hcode hsrc c)

/-! ## Where the check for room wraps around -/

/-- `error_str_len` is too small for the check for room. -/
structure Append.Wrapped (code : CStr) (a : Append) (turns : Nat) : Prop where
  ended : a.Ended
  holds : 2 ≤ a.strLen
  small : a.strLen < code.length + 48
  bound : a.appended + conOutBufSize * turns < 2 ^ 63

theorem Append.Wrapped.room (hcode : code.length + 48 ≤ conOutBufSize)
    (h : a.Wrapped code turns) : a.room code = a := by
  have hbound := h.bound
  have hsmall := h.small
  unfold conOutBufSize at hcode
  rw [Append.room_eq, sizeSub_of_lt hsmall (by omega), if_neg (by omega)]

theorem reach_pos (srcAddr code fmt : CStr) (length : Nat) (ended : Bool) (saved : Option Char) :
    length + 1 ≤ reach srcAddr code length ended saved fmt := by
  induction fmt generalizing length ended saved with
  | nil =>
    unfold reach
    split <;> omega
  | cons c rest ih =>
    unfold reach
    dsimp only
    have hbehind := ih ((if ended then length + code.length else length) + (charText srcAddr saved c).1.length)
      (textEnds (if ended then textEnds false code else false) (charText srcAddr saved c).1)
      (charText srcAddr saved c).2
    have hlength : length ≤ if ended then length + code.length else length := by
      split <;> omega
    split <;> omega

/-- How far the stores of the text to come reach, and the newline and the NUL behind it. -/
def Append.finalReach (a : Append) : Nat :=
  max a.buf.length (a.off + a.appended + if decide (a.last = '\n') then 1 else 2)

/-- How far the loop reaches from here. -/
def Append.loopReach (a : Append) (srcAddr code fmt : CStr) : Nat :=
  max a.buf.length (a.off + reach srcAddr (snprintf a.strLen (code ++ [' '])) a.appended
    (decide (a.last = '\n')) a.saved fmt)

theorem Append.Wrapped.step (hcode : code.length + 48 ≤ conOutBufSize)
    (hsrc : srcAddr.length < inet6AddrStrlen) (h : a.Wrapped code (turns + 1)) (c : Char) :
    let b := ((a.room code).line code).char srcAddr c
    b.Wrapped code turns ∧ b.off = a.off ∧ b.size = a.size ∧ b.strLen = a.strLen ∧
      ∀ rest, b.loopReach srcAddr code rest = a.loopReach srcAddr code (c :: rest) := by
  dsimp only
  rw [h.room hcode]
  obtain ⟨hended, hholds, hsmall, hbound⟩ := h
  have hcodeNe := snprintf_ne_nil code hholds
  obtain ⟨hline, hended'⟩ := Append.line_grows hended (by omega) hcodeNe
  have hchar := Append.char_grows hended' hsrc c
  have hended'' := Append.char_ended hended' hsrc c
  obtain ⟨-, hsaved⟩ := Append.char_extends hended'.inside srcAddr c
  have hcodeLength := a.lineCode_length code
  have hreach := charReach_le srcAddr (a.line code).saved c
  have htext := charText_lt_reach hsrc (a.line code).saved c
  have hlast := hchar.last
  rw [hline.last] at hlast
  have happended := hchar.appended
  have hlength := hchar.length
  rw [hline.length, hline.off, hline.appended] at hlength
  rw [hline.appended] at happended
  have hlen := hchar.strLen.trans hline.strLen
  have hoff := hchar.off.trans hline.off
  rw [a.line_saved] at hsaved hlast happended hlength hreach htext
  generalize (a.line code).char srcAddr c = b at *
  refine ⟨⟨hended'', hlen ▸ hholds, hlen ▸ hsmall, ?_⟩, hoff, hchar.size.trans hline.size, hlen,
    fun rest => ?_⟩
  · unfold conOutBufSize at hcode hbound ⊢
    unfold inet6AddrStrlen at hreach
    omega
  · -- the line's code, as `reach` counts it
    have hstart : (if decide (a.last = '\n') then
        a.appended + (snprintf a.strLen (code ++ [' '])).length else a.appended) =
        a.appended + (a.lineCode code).length := by
      unfold Append.lineCode
      by_cases hnl : a.last = '\n'
      · rw [if_pos (decide_eq_true hnl), if_pos hnl]
      · rw [if_neg (by simpa using hnl), if_neg hnl]
        rfl
    have hends : (if decide (a.last = '\n') then textEnds false (snprintf a.strLen (code ++ [' ']))
        else false) = textEnds (decide (a.last = '\n')) (a.lineCode code) := by
      unfold Append.lineCode
      by_cases hnl : a.last = '\n'
      · rw [if_pos (decide_eq_true hnl), if_pos hnl]
        exact textEnds_of_ne hcodeNe _ _
      · rw [if_neg (by simpa using hnl), if_neg hnl, decide_eq_false hnl]
        rfl
    have hbehind := reach_pos srcAddr (snprintf a.strLen (code ++ [' '])) rest b.appended
      (decide (b.last = '\n')) b.saved
    unfold Append.loopReach
    rw [reach, hstart, hends, hlen, hoff, ← hlast, ← hsaved, ← happended, hlength]
    generalize reach srcAddr _ b.appended _ _ rest = behind at hbehind ⊢
    unfold charReach at htext ⊢
    split
    · next hA =>
      rw [if_pos hA] at htext
      omega
    · next hA =>
      rw [if_neg hA] at htext
      omega

/-- The loop over the message. -/
theorem Append.Wrapped.run (hcode : code.length + 48 ≤ conOutBufSize)
    (hsrc : srcAddr.length < inet6AddrStrlen) (fmt : CStr) (h : a.Wrapped code (fmt.length + turns)) :
    (a.run srcAddr code fmt).Wrapped code turns ∧ (a.run srcAddr code fmt).off = a.off ∧
      (a.run srcAddr code fmt).size = a.size ∧ (a.run srcAddr code fmt).strLen = a.strLen ∧
      (a.run srcAddr code fmt).finalReach = a.loopReach srcAddr code fmt := by
  induction fmt generalizing a with
  | nil =>
    refine ⟨Nat.zero_add turns ▸ h, rfl, rfl, rfl, ?_⟩
    unfold Append.finalReach Append.loopReach
    rw [Append.run, reach, Nat.add_assoc]
  | cons c rest ih =>
    rw [List.length_cons, Nat.add_right_comm] at h
    obtain ⟨hstep, hoff, hsize, hlen, hreach⟩ := h.step hcode hsrc c
    obtain ⟨hrun, hrunOff, hrunSize, hrunLen, hrunReach⟩ := ih hstep
    exact ⟨hrun, hrunOff.trans hoff, hrunSize.trans hsize, hrunLen.trans hlen,
      hrunReach.trans (hreach rest)⟩

end Turn

/-! ## One list -/

/-- Before a list's text: what has been written lies inside the buffer and reaches up to here. -/
structure Con.TurnBegins (con : Con) (off lastLineCont : Nat) : Prop where
  inside : off ≤ con.outBuf.length
  written : con.outBuf.length ≤ con.outSize
  mark : off ≠ 0 → lastLineCont < con.outBuf.length
  roomy : conOutBufSize ≤ con.outSize

section Blacklists

variable {con : Con} {off llc : Nat} {code : CStr} (turns : Nat)

theorem Append.start_safe (ht : con.TurnBegins off llc) (hcode : code.length + 48 ≤ conOutBufSize)
    (hbound : con.outSize + conOutBufSize * (turns + 1) < 2 ^ 63)
    (hleft : con.outSize - off < code.length + 1 ∨ code.length + 48 ≤ con.outSize - off) :
    (Append.start con off llc code).Safe code turns ∧ (Append.start con off llc code).off = off := by
  have hinside := ht.inside
  have hwritten := ht.written
  unfold conOutBufSize at hcode hbound
  have hsize64 : con.outSize + conOutBufSize < 2 ^ 64 := by
    rw [Nat.add_comm, conOutBufSize]
    omega
  have hgrown : sizeSub (con.outSize + conOutBufSize) off = con.outSize + conOutBufSize - off :=
    sizeSub_of_le (by omega) hsize64
  obtain ⟨hoff, happended, -, hbuf⟩ := Append.opened_rest con off llc
  obtain ⟨hsize, hlen⟩ := Append.opened_sizes con (by omega : off ≤ con.outSize) (by omega) llc
  obtain ⟨hbuf', hoff', happended', -⟩ := (Append.opened con off llc).startRoom_rest code
  have hroom : code.length + 48 ≤ ((Append.opened con off llc).startRoom code).strLen ∧
      off + ((Append.opened con off llc).startRoom code).strLen ≤
        ((Append.opened con off llc).startRoom code).size ∧
      con.outSize ≤ ((Append.opened con off llc).startRoom code).size ∧
      ((Append.opened con off llc).startRoom code).size ≤ con.outSize + 8192 := by
    unfold Append.startRoom
    rw [hlen, hsize, hoff]
    split
    · dsimp only
      rw [hgrown, conOutBufSize]
      omega
    · rw [hlen, hsize]
      omega
  rw [Append.start_eq]
  generalize (Append.opened con off llc).startRoom code = a at *
  obtain ⟨hroomy, hin, hgrows, hsmall⟩ := hroom
  have hoffA : a.off = off := hoff'.trans hoff
  have happendedA : a.appended = 0 := happended'.trans happended
  have hbufA : a.buf.length = con.outBuf.length := (congrArg List.length hbuf').trans hbuf
  have hinA : a.off + a.appended ≤ a.buf.length := by omega
  obtain ⟨hended, -⟩ := Append.code_begins hinA happendedA (by omega) code
  have hlength := a.code_length hinA (by omega) code
  have hcodeLength := snprintf_code_length code a.strLen
  have hext := a.code_extends hinA (by omega) code
  have happendedC := hext.appended
  refine ⟨⟨hended, hroomy, ?_, ?_, ?_, ?_⟩, hoffA⟩
  · show a.off + a.strLen ≤ a.size
    omega
  · show _ ≤ a.size
    omega
  · show a.off + (a.code code).appended + 2 ≤ a.size
    omega
  · show a.size + 8192 * turns < _
    omega

/-- The variables behind the first response code, where the buffer has not grown for it. -/
structure Append.Begins (con : Con) (off : Nat) (code : CStr) (a : Append) : Prop where
  ended : a.Ended
  start : a.off = off
  size : a.size = con.outSize
  strLen : a.strLen = con.outSize - off
  saved : a.saved = none
  appended : a.appended = (snprintf (con.outSize - off) (code ++ [' '])).length
  length : a.buf.length =
    max con.outBuf.length (off + ((snprintf (con.outSize - off) (code ++ [' '])).length + 1))
  last : decide (a.last = '\n') = textEnds false (snprintf (con.outSize - off) (code ++ [' ']))

theorem Append.start_begins (ht : con.TurnBegins off llc) (hsize : con.outSize < 2 ^ 64)
    (hholds : code.length + 1 ≤ con.outSize - off) (htwo : 2 ≤ con.outSize - off) :
    (Append.start con off llc code).Begins con off code := by
  have hinside := ht.inside
  have hwritten := ht.written
  obtain ⟨hoff, happended, hsaved, hbuf⟩ := Append.opened_rest con off llc
  obtain ⟨hsize, hlen⟩ := Append.opened_sizes con (by omega : off ≤ con.outSize) hsize llc
  have hroom : (Append.opened con off llc).startRoom code = Append.opened con off llc := by
    unfold Append.startRoom
    rw [if_neg (by omega)]
  rw [Append.start_eq, hroom]
  generalize Append.opened con off llc = a at *
  have hin : a.off + a.appended ≤ a.buf.length := by omega
  obtain ⟨hended, hlast⟩ := Append.code_begins hin happended (by omega) code
  have hlength := a.code_length hin (by omega) code
  have happended' := (a.code_extends hin (by omega) code).appended
  rw [happended, Nat.zero_add, hlen] at happended'
  rw [hlen, hoff, happended, Nat.add_zero, hbuf] at hlength
  rw [hlen] at hlast
  exact ⟨hended, hoff, hsize, hlen, hsaved, happended', hlength, hlast⟩

theorem Append.Begins.wrapped {a : Append} (h : a.Begins con off code)
    (hcode : code.length + 48 ≤ conOutBufSize)
    (hbound : con.outSize + conOutBufSize * (turns + 1) < 2 ^ 63)
    (htwo : 2 ≤ con.outSize - off) (hsmall : con.outSize - off < code.length + 48) :
    a.Wrapped code turns := by
  have hlength := snprintf_code_length code (con.outSize - off)
  unfold conOutBufSize at hcode hbound
  refine ⟨h.ended, ?_, ?_, ?_⟩
  · rw [h.strLen]
    omega
  · rw [h.strLen]
    exact hsmall
  · rw [h.appended, conOutBufSize]
    omega

theorem Append.Begins.loopReach {a : Append} (h : a.Begins con off code) (src fmt : CStr) :
    a.loopReach src code fmt = max con.outBuf.length
      (off + reach src (snprintf (con.outSize - off) (code ++ [' ']))
        (snprintf (con.outSize - off) (code ++ [' '])).length
        (textEnds false (snprintf (con.outSize - off) (code ++ [' ']))) none fmt) := by
  have hreach := reach_pos src (snprintf (con.outSize - off) (code ++ [' '])) fmt
    (snprintf (con.outSize - off) (code ++ [' '])).length
    (textEnds false (snprintf (con.outSize - off) (code ++ [' ']))) none
  unfold Append.loopReach
  rw [h.length, h.start, h.strLen, h.appended, h.last, h.saved]
  omega

/-! ## One turn -/

theorem two_le_left (hmany : code ≠ [] ∨ con.outSize - off ≠ 1)
    (hholds : code.length + 1 ≤ con.outSize - off) : 2 ≤ con.outSize - off := by
  rcases hmany with hne | hmany
  · have hpos := List.length_pos_of_ne_nil hne
    omega
  · omega

theorem conAppendErrorString_ended (ht : con.TurnBegins off llc)
    (hmany : code ≠ [] ∨ con.outSize - off ≠ 1)
    (hcode : code.length + 48 ≤ conOutBufSize) (hsrc : con.srcAddr.length < inet6AddrStrlen)
    (message : CStr) (hbound : con.outSize + conOutBufSize * (message.length + turns + 1) < 2 ^ 63) :
    (conAppendErrorString con off message code llc).Ended ∧
      (conAppendErrorString con off message code llc).off = off ∧
      (conAppendErrorString con off message code llc).size + conOutBufSize * turns < 2 ^ 63 := by
  by_cases hleft : con.outSize - off < code.length + 1 ∨ code.length + 48 ≤ con.outSize - off
  · obtain ⟨hsafe, hoff⟩ := Append.start_safe _ ht hcode hbound hleft
    have hrun := hsafe.run hcode hsrc message
    exact ⟨hrun.ended, (Append.run_off _ _ _ _).trans hoff, hrun.bound⟩
  · obtain ⟨hholds, hsmall⟩ := not_or.mp hleft
    have htwo := two_le_left hmany (by omega : code.length + 1 ≤ con.outSize - off)
    have hbegins := Append.start_begins ht (by omega) (by omega : code.length + 1 ≤ con.outSize - off) htwo
    have hwrapped := hbegins.wrapped _ hcode hbound htwo (by omega)
    obtain ⟨hrun, hrunOff, hrunSize, -, -⟩ := hwrapped.run hcode hsrc message
    refine ⟨hrun.ended, hrunOff.trans hbegins.start, ?_⟩
    show ((Append.start con off llc code).run _ _ _).size + _ < _
    rw [hrunSize, hbegins.size]
    unfold conOutBufSize at hbound ⊢
    omega

/-- The newline at the end is written inside the buffer exactly if it fits. -/
theorem turn_ending_iff {blacklist : Blacklist} {a : Append}
    (ha : conAppendErrorString con off blacklist.message code llc = a) (hoff : a.off = off)
    (hended : a.Ended) (hsize : a.size = con.outSize) (hwritten : a.buf.length ≤ con.outSize) :
    (replyBlacklist code (con, off, llc) blacklist).1.outBuf.length ≤
        (replyBlacklist code (con, off, llc) blacklist).1.outSize ↔ a.finalReach ≤ con.outSize := by
  have hnul := hended.nul
  unfold Append.finalReach
  rw [hoff] at hnul ⊢
  by_cases hlast : a.last = '\n'
  · rw [replyBlacklist_ended ha hoff hlast, if_pos (decide_eq_true hlast)]
    show a.buf.length ≤ a.size ↔ _
    omega
  · obtain ⟨con', hturn, hbuf', hsize'⟩ := replyBlacklist_open ha hoff hlast
    rw [hturn, if_neg (by simpa using hlast)]
    show con'.outBuf.length ≤ con'.outSize ↔ _
    rw [hbuf', hsize', overwrite_length _ hnul.le, if_neg (by omega), hsize]
    exact Iff.rfl

/-- A list's text is written inside the buffer exactly if it fits. -/
theorem turnInBounds_iff_many (ht : con.TurnBegins off llc)
    (hmany : code ≠ [] ∨ con.outSize - off ≠ 1)
    (hcode : code.length + 48 ≤ conOutBufSize) (hsrc : con.srcAddr.length < inet6AddrStrlen)
    (blacklist : Blacklist)
    (hbound : con.outSize + conOutBufSize * (blacklist.message.length + 1) < 2 ^ 63) :
    TurnInBounds code (con, off, llc) blacklist ↔ TurnFits code (con, off, llc) blacklist := by
  have hinside := ht.inside
  have hwritten := ht.written
  have hpatch : off ≠ 0 → llc < con.outSize := fun hlater => (ht.mark hlater).trans_le hwritten
  by_cases hleft : con.outSize - off < code.length + 1 ∨ code.length + 48 ≤ con.outSize - off
  · refine iff_of_true ⟨hpatch, ?_, ?_⟩ (hleft.elim .inl fun h => .inr (.inl h))
    · intro done ⟨rest, hmessage⟩
      have hlength := congrArg List.length hmessage
      rw [List.length_append] at hlength
      obtain ⟨hsafe, -⟩ := Append.start_safe (done.length + rest.length) ht hcode
        (hlength ▸ hbound) hleft
      exact (hsafe.run hcode hsrc done).inBounds
    · obtain ⟨hsafe, hoff⟩ := Append.start_safe _ ht hcode hbound hleft
      have hrun : (conAppendErrorString con off blacklist.message code llc).Safe code 0 :=
        hsafe.run hcode hsrc blacklist.message
      have hrunOff : (conAppendErrorString con off blacklist.message code llc).off = off :=
        (Append.run_off _ _ _ _).trans hoff
      generalize ha : conAppendErrorString con off blacklist.message code llc = a at hrun hrunOff
      have hends := hrun.ends
      have hwritten' := hrun.written
      by_cases hlast : a.last = '\n'
      · rw [replyBlacklist_ended ha hrunOff hlast]
        exact hwritten'
      · obtain ⟨con', hturn, hbuf, hsize⟩ := replyBlacklist_open ha hrunOff hlast
        have hin := hrun.ended.inside
        rw [hrunOff] at hends hin
        rw [hturn]
        show con'.outBuf.length ≤ con'.outSize
        rw [hbuf, hsize, overwrite_length _ hin]
        show max a.buf.length (off + a.appended + 2) ≤ _
        split <;> omega
  · obtain ⟨hholds, hsmall⟩ := not_or.mp hleft
    have htwo := two_le_left hmany (by omega : code.length + 1 ≤ con.outSize - off)
    have hbegins := Append.start_begins ht (by omega) (by omega : code.length + 1 ≤ con.outSize - off) htwo
    have hwrapped := hbegins.wrapped (blacklist.message.length + 0) hcode hbound htwo (by omega)
    have hfits : TurnFits code (con, off, llc) blacklist ↔
        (Append.start con off llc code).loopReach con.srcAddr code blacklist.message ≤ con.outSize := by
      rw [hbegins.loopReach]
      unfold TurnFits beginsEnded
      dsimp only
      rw [if_neg (snprintf_ne_nil code htwo)]
      omega
    obtain ⟨hrun, hrunOff, hrunSize, -, hrunReach⟩ := hwrapped.run hcode hsrc blacklist.message
    have hending := turn_ending_iff
      (rfl : conAppendErrorString con off blacklist.message code llc = _)
      (hrunOff.trans hbegins.start) hrun.ended (hrunSize.trans hbegins.size)
    rw [hfits, ← hrunReach]
    constructor
    · intro h
      have hlast := (h.loop blacklist.message (List.prefix_refl _)).written
      rw [show Append.size _ = con.outSize from hrunSize.trans hbegins.size] at hlast
      exact (hending hlast).mp h.ending
    · intro hle
      refine ⟨hpatch, ?_, (hending ((Nat.le_max_left _ _).trans hle)).mpr hle⟩
      intro done ⟨rest, hmessage⟩
      rw [← hmessage, Nat.add_zero, List.length_append] at hwrapped
      obtain ⟨hdone, -, hdoneSize, -, -⟩ := hwrapped.run hcode hsrc done
      rw [← Nat.add_zero rest.length] at hdone
      obtain ⟨-, -, -, -, hrestReach⟩ := hdone.run hcode hsrc rest
      rw [← hmessage, Append.run_append, hrestReach] at hle
      have hwritten' := (Nat.le_max_left _ _).trans hle
      have hmark := hdone.ended.mark
      rw [← hbegins.size, ← hdoneSize] at hwritten'
      exact ⟨hwritten', hmark.trans_le hwritten'⟩

/-! ## No code and one byte -/

/-- Nothing has been written of the text, and one byte is left of the buffer for it. -/
structure Append.Single (a : Append) : Prop where
  off : 2 ≤ a.off
  appended : a.appended = 0
  strLen : a.strLen = 1
  size : a.size = a.off + 1
  mark : a.lastLineCont = a.off - 1
  behind : a.off < a.buf.length

theorem Append.Single.ofCode {a : Append} (hoff : 2 ≤ a.off) (happended : a.appended = 0)
    (hlen : a.strLen = 1) (hsize : a.size = a.off + 1) (hin : a.off ≤ a.buf.length) :
    (a.code []).Single ∧ (a.code []).last = a.buf.getD (a.off - 1) nul ∧
      (a.code []).buf.length = max a.buf.length (a.off + 1) := by
  have hbuf : (a.code []).buf = overwrite a.buf a.off [nul] := by
    rw [a.code_buf (by omega), happended, hlen]
    rfl
  have happended' : (a.code []).appended = 0 := by
    show a.appended + (snprintf a.strLen _).length = 0
    rw [happended, hlen]
    rfl
  have hlength : (a.code []).buf.length = max a.buf.length (a.off + 1) := by
    rw [hbuf, overwrite_length _ hin]
    rfl
  refine ⟨⟨hoff, happended', hlen, hsize, ?_, ?_⟩, ?_, hlength⟩
  · show a.off + (a.code []).appended - 1 = _
    rw [happended']
    rfl
  · rw [hlength]
    exact Nat.lt_of_lt_of_le (Nat.lt_succ_self _) (Nat.le_max_right _ _)
  · show (a.code []).buf.getD (a.off + (a.code []).appended - 1) nul = _
    rw [happended', hbuf, overwrite_getD_lt hin (by omega)]
    rfl

/-- The new line's mark is the byte in front of the text. -/
theorem Append.Single.turn {a : Append} (h : a.Single) :
    ((a.room []).line []).Single ∧ ((a.room []).line []).off = a.off ∧
      ((a.room []).line []).saved = a.saved ∧ ((a.room []).line []).last ≠ '\n' := by
  obtain ⟨hoff, happended, hlen, hsize, hmark, hnul⟩ := h
  have hroom : a.room [] = a := by
    unfold Append.room
    rw [hlen, happended, if_neg (by decide)]
  rw [hroom]
  have hlast : a.last = a.buf.getD (a.off + a.appended - 1) nul := rfl
  unfold Append.line
  rw [← hlast]
  split
  · have hpatched : a.continueLine = { a with buf := a.buf.set (a.off - 1) '-' } := by
      unfold Append.continueLine
      rw [if_pos (by omega), hmark]
    have hpatchedLength : a.off ≤ (a.buf.set (a.off - 1) '-').length := by
      rw [List.length_set]
      exact hnul.le
    obtain ⟨hsingle, hlast', -⟩ := Append.Single.ofCode
      (show 2 ≤ ({ a with buf := a.buf.set (a.off - 1) '-' } : Append).off from hoff) happended hlen hsize
      hpatchedLength
    rw [hpatched]
    refine ⟨hsingle, rfl, rfl, ?_⟩
    rw [hlast']
    show (a.buf.set (a.off - 1) '-').getD (a.off - 1) nul ≠ _
    rw [List.getD_eq_getElem?_getD, List.getElem?_set_self (by omega)]
    decide
  · next hno => exact ⟨⟨hoff, happended, hlen, hsize, hmark, hnul⟩, rfl, rfl, hno⟩

theorem Append.Single.wait {a : Append} (h : a.Single) (hlast : a.last ≠ '\n') (hsaved : a.saved = none)
    (srcAddr : CStr) {c : Char} (hc : IsEscape c) : ∃ b : Append, a.char srcAddr c = b ∧ b.Single ∧
      b.saved = some c ∧ b.off = a.off ∧ b.last ≠ '\n' := by
  refine ⟨{ a with saved := some c }, ?_, ?_, rfl, rfl, hlast⟩
  · unfold Append.char
    rw [if_pos (show c = '\\' ∨ c = '%' from hc), hsaved]
  · exact ⟨h.off, h.appended, h.strLen, h.size, h.mark, h.behind⟩

/-- Whatever is stored runs over. -/
theorem Append.Single.overruns {a : Append} (h : a.Single) {srcAddr : CStr}
    (hsrc : srcAddr.length < inet6AddrStrlen) {c : Char} (hreach : 2 ≤ charReach srcAddr a.saved c) :
    (a.char srcAddr c).size < (a.char srcAddr c).buf.length := by
  have hnul : a.off + a.appended < a.buf.length := by
    rw [h.appended]
    exact h.behind
  have hlength := Append.char_length hnul hsrc c
  rw [(a.char_rest srcAddr c).1, hlength, h.size, h.appended]
  omega

theorem charReach_plain (srcAddr : CStr) (saved : Option Char) {c : Char} (hc : ¬ IsEscape c ∨ saved ≠ none) :
    2 ≤ charReach srcAddr saved c := by
  unfold charReach
  split
  · decide
  · next hA =>
    unfold charText
    split
    · next hescape =>
      cases saved with
      | none => exact absurd hescape (hc.resolve_right fun h => h rfl)
      | some e => exact Nat.le_refl 2
    · cases saved with
      | none => exact Nat.le_refl 2
      | some e =>
        dsimp only
        split
        · next hmakes =>
          rcases hmakes with ⟨-, rfl⟩ | ⟨rfl, rfl⟩
          · exact Nat.le_refl 2
          · exact absurd ⟨rfl, rfl⟩ hA
        · exact Nat.le_succ 2

/-- The newline at the end runs over. -/
theorem Append.Single.ending {a : Append} (h : a.Single) {blacklist : Blacklist}
    (ha : conAppendErrorString con off blacklist.message code llc = a) (hoff : a.off = off)
    (hsize : con.outSize = off + 1) (hlast : a.last ≠ '\n') :
    (replyBlacklist code (con, off, llc) blacklist).1.outSize <
      (replyBlacklist code (con, off, llc) blacklist).1.outBuf.length := by
  have hnul := h.behind
  have hends := h.size
  obtain ⟨con', hturn, hbuf, hsize'⟩ := replyBlacklist_open ha hoff hlast
  rw [h.appended] at hbuf hsize'
  rw [hturn]
  show con'.outSize < con'.outBuf.length
  rw [hsize', if_neg (by omega), hbuf, overwrite_length _ (by omega), hends, hoff]
  show off + 1 < max _ (off + 0 + 2)
  omega

theorem reach_single (srcAddr fmt : CStr) (saved : Option Char) :
    2 ≤ reach srcAddr [] 0 false saved fmt := by
  induction fmt generalizing saved with
  | nil => exact Nat.le_refl 2
  | cons c rest ih =>
    have hbehind : 2 ≤ reach srcAddr [] (charText srcAddr saved c).1.length
        (textEnds false (charText srcAddr saved c).1) (charText srcAddr saved c).2 rest := by
      by_cases htext : (charText srcAddr saved c).1 = []
      · rw [htext]
        exact ih _
      · have hpos := List.length_pos_of_ne_nil htext
        exact (Nat.succ_le_succ hpos).trans (reach_pos srcAddr [] rest _ _ _)
    simp only [reach, Bool.false_eq_true, if_false, Nat.zero_add]
    split
    · exact hbehind.trans (Nat.le_max_right _ _)
    · exact hbehind

theorem turnFits_single (hleft : con.outSize - off = 1) (blacklist : Blacklist) :
    TurnFits [] (con, off, llc) blacklist ↔
      blacklist.message = [] ∧ beginsEnded (con, off, llc) [] = true := by
  have hcode : snprintf 1 ([] ++ [' ']) = [] := rfl
  unfold TurnFits
  dsimp only
  rw [hleft, hcode, List.length_nil]
  cases blacklist.message with
  | nil =>
    unfold reach
    cases beginsEnded (con, off, llc) [] <;> decide
  | cons c rest =>
    have hreach : 2 ≤ reach con.srcAddr [] 0 (beginsEnded (con, off, llc) []) none (c :: rest) := by
      cases beginsEnded (con, off, llc) [] with
      | false => exact reach_single _ _ _
      | true => exact reach_single con.srcAddr (c :: rest) none
    constructor
    · intro h
      omega
    · intro h
      exact absurd h.1 (List.cons_ne_nil _ _)

theorem Append.opened_last (con : Con) (hoff : 2 ≤ off) (h : off ≤ con.outBuf.length) (llc : Nat) :
    decide ((Append.opened con off llc).buf.getD (off - 1) nul = '\n') = beginsEnded (con, off, llc) [] := by
  unfold beginsEnded
  rw [if_pos rfl, decide_eq_decide, Append.opened, if_neg (by omega), Append.continueLine]
  dsimp only
  split
  · next hmark =>
    show (con.outBuf.set llc '-').getD (off - 1) nul = '\n' ↔ _
    rw [List.getD_eq_getElem?_getD, List.getD_eq_getElem?_getD]
    by_cases hfront : llc = off - 1
    · rw [hfront, List.getElem?_set_self (by omega)]
      refine iff_of_false (by decide) fun hno => ?_
      omega
    · rw [List.getElem?_set_ne hfront]
      exact (and_iff_left (.inr hfront)).symm
  · next hmark => exact (and_iff_left (.inl (not_not.mp hmark))).symm

theorem Append.start_single (ht : con.TurnBegins off llc) (hsize : con.outSize < 2 ^ 64)
    (hleft : con.outSize - off = 1) :
    (Append.start con off llc []).Single ∧ (Append.start con off llc []).off = off ∧
      (Append.start con off llc []).saved = none ∧
      decide ((Append.start con off llc []).last = '\n') = beginsEnded (con, off, llc) [] ∧
      (Append.start con off llc []).buf.length ≤ con.outSize := by
  have hinside := ht.inside
  have hwritten := ht.written
  have hroomy := ht.roomy
  unfold conOutBufSize at hroomy
  obtain ⟨hoff, happended, hsaved, hbuf⟩ := Append.opened_rest con off llc
  obtain ⟨hsize', hlen⟩ := Append.opened_sizes con (by omega : off ≤ con.outSize) hsize llc
  have hroom : (Append.opened con off llc).startRoom [] = Append.opened con off llc := by
    unfold Append.startRoom
    rw [hlen, hleft, if_neg (by decide)]
  have hlast := Append.opened_last con (by omega) hinside llc
  rw [Append.start_eq, hroom]
  generalize Append.opened con off llc = a at *
  obtain ⟨hsingle, hlast', hlength⟩ := Append.Single.ofCode (by omega : 2 ≤ a.off) happended (hlen.trans hleft)
    (by omega) (by omega)
  refine ⟨hsingle, hoff, hsaved, ?_, by omega⟩
  rw [hlast', hoff]
  exact hlast

theorem turnInBounds_iff_single (ht : con.TurnBegins off llc) (hsize : con.outSize < 2 ^ 64)
    (hsrc : con.srcAddr.length < inet6AddrStrlen) (hleft : con.outSize - off = 1) (blacklist : Blacklist) :
    TurnInBounds [] (con, off, llc) blacklist ↔ TurnFits [] (con, off, llc) blacklist := by
  have hinside := ht.inside
  have hwritten := ht.written
  have hfull : con.outSize = off + 1 := by omega
  obtain ⟨hstart, hoff, hsaved, hlast, hbuf⟩ := Append.start_single ht hsize hleft
  rw [turnFits_single hleft]
  constructor
  · intro h
    have hloop := h.loop
    have hending := h.ending
    dsimp only at hloop
    cases hmessage : blacklist.message with
    | nil =>
      refine ⟨rfl, hlast.symm.trans (decide_eq_true ?_)⟩
      by_contra hno
      have ha : conAppendErrorString con off blacklist.message [] llc = Append.start con off llc [] := by
        rw [hmessage]
        rfl
      have hover := hstart.ending ha hoff hfull hno
      exact absurd hending (Nat.not_le.mpr hover)
    | cons c rest =>
      exfalso
      rw [hmessage] at hloop
      obtain ⟨hturn, hturnOff, hturnSaved, hturnLast⟩ := hstart.turn
      by_cases hc : IsEscape c
      · -- the character waits, and the next one or the newline at the end runs over
        obtain ⟨b, hb, hsingle, hbsaved, hboff, hblast⟩ :=
          hturn.wait hturnLast (hturnSaved.trans hsaved) con.srcAddr hc
        rw [hturnOff, hoff] at hboff
        cases rest with
        | nil =>
          have ha : conAppendErrorString con off blacklist.message [] llc = b := by
            rw [hmessage]
            exact hb
          have hover := hsingle.ending ha hboff hfull hblast
          exact absurd hending (Nat.not_le.mpr hover)
        | cons d rest =>
          have htwo := (hloop [c, d] ⟨rest, rfl⟩).written
          rw [Append.run, hb] at htwo
          obtain ⟨hturn', -, hsaved', -⟩ := hsingle.turn
          have hwaits : ((b.room []).line []).saved ≠ none := by
            rw [hsaved', hbsaved]
            exact Option.some_ne_none c
          have hover := hturn'.overruns hsrc (charReach_plain con.srcAddr _ (.inr hwaits) : 2 ≤ charReach _ _ d)
          exact absurd htwo (Nat.not_le.mpr hover)
      · have hone := (hloop [c] ⟨rest, rfl⟩).written
        have hover := hturn.overruns hsrc (charReach_plain con.srcAddr _ (.inl hc))
        exact absurd hone (Nat.not_le.mpr hover)
  · rintro ⟨hmessage, hends⟩
    have hmark := hstart.mark
    have hends' := hstart.size
    rw [hoff] at hmark hends'
    refine ⟨fun hlater => (ht.mark hlater).trans_le hwritten, ?_, ?_⟩
    · intro done hdone
      rw [hmessage, List.prefix_nil] at hdone
      rw [hdone]
      refine ⟨?_, ?_⟩
      · show (Append.start con off llc []).buf.length ≤ (Append.start con off llc []).size
        omega
      · show (Append.start con off llc []).lastLineCont < (Append.start con off llc []).size
        omega
    · have ha : conAppendErrorString con off blacklist.message [] llc = Append.start con off llc [] := by
        rw [hmessage]
        rfl
      rw [replyBlacklist_ended ha hoff (of_decide_eq_true (hlast.trans hends))]
      show (Append.start con off llc []).buf.length ≤ (Append.start con off llc []).size
      omega

/-! ## From list to list -/

/-- A list's text is written inside the buffer exactly if it fits. -/
theorem turnInBounds_iff (ht : con.TurnBegins off llc) (hcode : code.length + 48 ≤ conOutBufSize)
    (hsrc : con.srcAddr.length < inet6AddrStrlen) (blacklist : Blacklist)
    (hbound : con.outSize + conOutBufSize * (blacklist.message.length + 1) < 2 ^ 63) :
    TurnInBounds code (con, off, llc) blacklist ↔ TurnFits code (con, off, llc) blacklist := by
  by_cases hmany : code ≠ [] ∨ con.outSize - off ≠ 1
  · exact turnInBounds_iff_many ht hmany hcode hsrc blacklist hbound
  · obtain ⟨hnil, hleft⟩ := not_or.mp hmany
    obtain rfl := not_not.mp hnil
    exact turnInBounds_iff_single ht (by omega) hsrc (not_not.mp hleft) blacklist

/-- Where the next list's text begins. -/
theorem TurnInBounds.next {blacklist : Blacklist} (h : TurnInBounds code (con, off, llc) blacklist)
    (ht : con.TurnBegins off llc) (hcode : code.length + 48 ≤ conOutBufSize)
    (hsrc : con.srcAddr.length < inet6AddrStrlen)
    (hbound : con.outSize + conOutBufSize * (blacklist.message.length + (turns + 1) + 1) < 2 ^ 63) :
    ∃ con' off' llc', replyBlacklist code (con, off, llc) blacklist = (con', off', llc') ∧
      con'.TurnBegins off' llc' ∧ con'.srcAddr = con.srcAddr ∧
      con'.outSize + conOutBufSize * turns < 2 ^ 63 := by
  have hinside := ht.inside
  have hwritten := ht.written
  have hroomy := ht.roomy
  have hending := h.ending
  by_cases hmany : code ≠ [] ∨ con.outSize - off ≠ 1
  · obtain ⟨hended, hoff, hsize⟩ :=
      conAppendErrorString_ended (turns + 1) ht hmany hcode hsrc blacklist.message hbound
    have hgrows := conAppendErrorString_size (by omega : off ≤ con.outSize) (by omega) llc
      blacklist.message code
    generalize ha : conAppendErrorString con off blacklist.message code llc = a at hended hoff hsize hgrows
    have hnul := hended.nul
    have hmark := hended.mark
    rw [hoff] at hnul
    by_cases hlast : a.last = '\n'
    · have hturn := replyBlacklist_ended ha hoff hlast
      rw [hturn] at hending
      refine ⟨_, _, _, hturn, ⟨hnul.le, hending, fun _ => hmark, hroomy.trans hgrows⟩, rfl, ?_⟩
      unfold conOutBufSize at hsize
      show a.size + 8192 * turns < _
      omega
    · obtain ⟨con', hturn, hbuf, hsize'⟩ := replyBlacklist_open ha hoff hlast
      obtain ⟨_, _, _, _, _, _, hframe⟩ := replyBlacklist_frame con code off llc blacklist
      have hsrc' : con'.srcAddr = con.srcAddr := by
        rw [hturn] at hframe
        rw [(Prod.mk.inj hframe).1]
      have hlength : con'.outBuf.length = max a.buf.length (off + a.appended + 2) := by
        rw [hbuf, overwrite_length _ hnul.le]
        rfl
      rw [hturn] at hending
      refine ⟨con', _, _, hturn, ⟨by omega, hending, fun _ => by omega, ?_⟩, hsrc', ?_⟩
      · rw [hsize']
        split <;> omega
      · unfold conOutBufSize at hsize
        rw [hsize', conOutBufSize]
        split <;> omega
  · obtain ⟨hnil, hone⟩ := not_or.mp hmany
    obtain rfl := not_not.mp hnil
    have hleft : con.outSize - off = 1 := not_not.mp hone
    obtain ⟨hstart, hoff, -, hlast, -⟩ := Append.start_single ht (by omega) hleft
    obtain ⟨hmessage, hends⟩ :=
      (turnFits_single hleft blacklist).mp ((turnInBounds_iff_single ht (by omega) hsrc hleft blacklist).mp h)
    have ha : conAppendErrorString con off blacklist.message [] llc = Append.start con off llc [] := by
      rw [hmessage]
      rfl
    have hturn := replyBlacklist_ended ha hoff (of_decide_eq_true (hlast.trans hends))
    have hbehind := hstart.behind
    have hsize := hstart.size
    have hmark := hstart.mark
    rw [hturn] at hending
    generalize Append.start con off llc [] = a at *
    refine ⟨_, _, _, hturn, ⟨?_, hending, fun _ => ?_, ?_⟩, rfl, ?_⟩
    · show off + a.appended ≤ a.buf.length
      rw [hstart.appended]
      omega
    · show a.lastLineCont < a.buf.length
      omega
    · show conOutBufSize ≤ a.size
      omega
    · show a.size + _ < _
      unfold conOutBufSize at hbound ⊢
      omega

/-! ## All lists -/

theorem eachTurn_inBounds_iff (hcode : code.length + 48 ≤ conOutBufSize)
    (blacklists : List Blacklist) (ht : con.TurnBegins off llc)
    (hsrc : con.srcAddr.length < inet6AddrStrlen)
    (hbound : con.outSize + conOutBufSize * textBudget blacklists < 2 ^ 63) :
    EachTurn code (TurnInBounds code) (con, off, llc) blacklists ↔
      EachTurn code (TurnFits code) (con, off, llc) blacklists := by
  induction blacklists generalizing con off llc with
  | nil => exact iff_of_true (eachTurn_nil _ _ _) (eachTurn_nil _ _ _)
  | cons blacklist rest ih =>
    have hsplit : textBudget (blacklist :: rest) = blacklist.message.length + (textBudget rest + 1) + 1 := by
      simp only [textBudget, List.map_cons, List.sum_cons]
      omega
    rw [hsplit] at hbound
    have hfirst : blacklist.message.length + 1 ≤ blacklist.message.length + (textBudget rest + 1) + 1 := by
      omega
    have hturn := turnInBounds_iff ht hcode hsrc blacklist
      ((Nat.add_le_add_left (Nat.mul_le_mul_left _ hfirst) _).trans_lt hbound)
    rw [eachTurn_cons, eachTurn_cons, ← hturn]
    refine and_congr_right fun hfirst => ?_
    obtain ⟨con', off', llc', hstep, ht', hsrc', hbound'⟩ := hfirst.next _ ht hcode hsrc hbound
    rw [hstep]
    exact ih ht' (hsrc' ▸ hsrc) hbound'

end Blacklists

/-- `Con_build_reply` writes inside the buffer exactly if every list's text fits in what is left
of the buffer, unless that is too little for the response code or enough for the check for
room. -/
theorem replyInBounds_iff (con : Con) (errorCode : CStr) (h : con.ReplyTexts errorCode) :
    con.ReplyInBounds errorCode ↔ con.ReplyFits errorCode :=
  eachTurn_inBounds_iff h.code_short con.blacklists
    ⟨Nat.zero_le _, h.written, fun hno => absurd rfl hno, h.roomy⟩ h.src_short h.fits

/-! ## A reply that runs over -/

section Addresses

variable {a : Append} {con : Con} {off llc : Nat} {src code : CStr}

theorem Append.room_plain (hroom : a.appended + (code.length + 48) < a.strLen) (hlen : a.strLen < 2 ^ 64) :
    a.room code = a := by
  rw [Append.room_eq, sizeSub_of_le (by omega) hlen, if_neg (by omega)]

/-- Where there is room and no line is due, the loop only looks at the character. -/
theorem Append.step_plain (src : CStr) (hlast : a.last ≠ '\n')
    (hroom : a.appended + (code.length + 48) < a.strLen) (hlen : a.strLen < 2 ^ 64) (c : Char) :
    ((a.room code).line code).char src c = a.char src c := by
  have hlast : ¬ a.buf.getD (a.off + a.appended - 1) nul = '\n' := hlast
  rw [Append.room_plain hroom hlen, Append.line, if_neg hlast]

/-- A message that names the client's address again and again. -/
def addresses (n : Nat) : CStr := (List.replicate n ['%', 'A']).flatten

theorem Append.run_addresses (hsrc : src.length < inet6AddrStrlen) (hends : textEnds false src = false)
    (n : Nat) (h : a.Ended) (hlast : a.last ≠ '\n') (hsaved : a.saved = none) (hlen : a.strLen < 2 ^ 64)
    (hroom : a.appended + n * src.length + (code.length + 48) < a.strLen + src.length) :
    (a.run src code (addresses n)).Ended ∧ (a.run src code (addresses n)).last ≠ '\n' ∧
      (a.run src code (addresses n)).off = a.off ∧ (a.run src code (addresses n)).size = a.size ∧
      (a.run src code (addresses n)).appended = a.appended + n * src.length := by
  induction n generalizing a with
  | zero => exact ⟨h, hlast, rfl, rfl, by rw [Nat.zero_mul]; rfl⟩
  | succ n ih =>
    rw [Nat.succ_mul] at hroom ⊢
    obtain ⟨b, hb, hbended, hblast, hbsaved, hboff, hbsize, hblen, hbappended⟩ : ∃ b : Append,
        a.char src '%' = b ∧ b.Ended ∧ b.last ≠ '\n' ∧ b.saved = some '%' ∧ b.off = a.off ∧
          b.size = a.size ∧ b.strLen = a.strLen ∧ b.appended = a.appended := by
      refine ⟨{ a with saved := some '%' }, ?_, ⟨h.nul, h.mark, h.begun⟩, hlast, rfl, rfl, rfl, rfl, rfl⟩
      unfold Append.char
      rw [if_pos (.inr rfl), hsaved]
    have hgrows := Append.char_grows hbended hsrc 'A'
    have hended := Append.char_ended hbended hsrc 'A'
    obtain ⟨-, hsaved'⟩ := Append.char_extends hbended.inside src 'A'
    have htext : charText src (some '%') 'A' = (src, none) := rfl
    have hone := Append.step_plain src hlast (by omega : a.appended + (code.length + 48) < a.strLen) hlen '%'
    have htwo := Append.step_plain src hblast
      (by omega : b.appended + (code.length + 48) < b.strLen) (hblen ▸ hlen) 'A'
    have hrun : a.run src code (addresses (n + 1)) = (b.char src 'A').run src code (addresses n) := by
      show a.run src code ('%' :: 'A' :: addresses n) = _
      rw [Append.run, hone, hb, Append.run, htwo]
    have hlastA := hgrows.last
    have happended := hgrows.appended
    rw [hbsaved, htext] at hsaved' hlastA happended
    rw [decide_eq_false hblast, hends] at hlastA
    rw [hrun]
    obtain ⟨hend, hlastRun, hoff, hsize, hcount⟩ := ih hended (of_decide_eq_false hlastA) hsaved'
      ((hgrows.strLen.trans hblen) ▸ hlen) (by
        rw [happended, hgrows.strLen]
        show b.appended + src.length + _ + _ < _
        omega)
    refine ⟨hend, hlastRun, hoff.trans (hgrows.off.trans hboff), hsize.trans (hgrows.size.trans hbsize), ?_⟩
    rw [hcount, happended, hbappended]
    show a.appended + src.length + _ = _
    omega

theorem addresses_turn (ht : con.TurnBegins off llc)
    (hcode : code.length + 48 ≤ conOutBufSize) (hsrc : con.srcAddr.length < inet6AddrStrlen)
    (hends : textEnds false con.srcAddr = false) (hcodeEnds : textEnds false (code ++ [' ']) = false)
    {blacklist : Blacklist} {n : Nat} (hmessage : blacklist.message = addresses n)
    (hbound : con.outSize + conOutBufSize * (2 * n + 2) < 2 ^ 63)
    (hleft : code.length + 48 ≤ con.outSize - off)
    (hroom : n * con.srcAddr.length + (2 * code.length + 49) < con.outSize - off + con.srcAddr.length)
    (hend : n * con.srcAddr.length + code.length + 1 < con.outSize - off) :
    ∃ con' llc', replyBlacklist code (con, off, llc) blacklist =
        (con', off + (code.length + 1 + n * con.srcAddr.length) + 1, llc') ∧
      con'.TurnBegins (off + (code.length + 1 + n * con.srcAddr.length) + 1) llc' ∧
      con'.srcAddr = con.srcAddr ∧ con'.outSize = con.outSize := by
  have hlength : blacklist.message.length = 2 * n := by
    rw [hmessage, addresses]
    simp [Nat.mul_comm]
  have hsize : con.outSize < 2 ^ 64 := by omega
  have hbegins := Append.start_begins ht hsize (by omega : code.length + 1 ≤ con.outSize - off) (by omega)
  have hwhole : snprintf (con.outSize - off) (code ++ [' ']) = code ++ [' '] := by
    refine List.take_of_length_le ?_
    rw [List.length_append, List.length_singleton]
    omega
  have happended := hbegins.appended
  have hlast := hbegins.last
  rw [hwhole, List.length_append, List.length_singleton] at happended
  rw [hwhole, hcodeEnds] at hlast
  obtain ⟨-, hlastRun, hoffRun, hsizeRun, hcount⟩ := Append.run_addresses hsrc hends n hbegins.ended
    (of_decide_eq_false hlast) hbegins.saved (by rw [hbegins.strLen]; omega)
    (by rw [hbegins.strLen, happended]; omega : _ + _ + (code.length + 48) < _)
  rw [← hmessage] at hlastRun hoffRun hsizeRun hcount
  rw [happended] at hcount
  rw [hbegins.start] at hoffRun
  rw [hbegins.size] at hsizeRun
  have hfirst : 2 * n + 1 ≤ 2 * n + 2 := Nat.le_succ _
  have hturn := turnInBounds_iff ht hcode hsrc blacklist (by
    rw [hlength]
    exact (Nat.add_le_add_left (Nat.mul_le_mul_left _ hfirst) _).trans_lt hbound)
  have hin : TurnInBounds code (con, off, llc) blacklist := hturn.mpr (.inr (.inl hleft))
  obtain ⟨con', off', llc', hstep, ht', hsrc', -⟩ := hin.next 0 ht hcode hsrc (by
    rw [hlength]
    exact hbound)
  obtain ⟨con'', hopen, -, hsize''⟩ := replyBlacklist_open
    (rfl : conAppendErrorString con off blacklist.message code llc = _) hoffRun hlastRun
  have hcount' : (conAppendErrorString con off blacklist.message code llc).appended =
      code.length + 1 + n * con.srcAddr.length := hcount
  rw [hcount'] at hopen hsize''
  rw [hstep] at hopen
  obtain ⟨rfl, hpair⟩ := Prod.mk.inj hopen
  obtain ⟨rfl, rfl⟩ := Prod.mk.inj hpair
  refine ⟨con', _, hstep, ht', hsrc', ?_⟩
  rw [hsize'', if_neg (by omega)]
  exact hsizeRun

end Addresses

/-- A client on three lists. The texts of the first two, 4880 and 3281 bytes, leave 31 bytes. -/
def crowdedCon : Con :=
  { Con.zero with
    outSize := conOutBufSize
    srcAddr := "2001:1db8:1111:2222:3333:4444:5555:6666".toList
    blacklists := [blacklistCreate [] (addresses 125) .trie, blacklistCreate [] (addresses 84) .trie,
      blacklistCreate [] "Your address %A is listed".toList .trie] }

theorem replyInBounds_crowded : crowdedCon.ReplyInBounds "450".toList ↔ crowdedCon.ReplyFits "450".toList :=
  replyInBounds_iff crowdedCon "450".toList
    ⟨by decide, by decide, by decide +kernel, by decide, by decide⟩

/-- The third list's text runs behind the end of the buffer. -/
theorem reply_overruns : ¬ crowdedCon.ReplyInBounds "450".toList := by
  intro h
  have ht : crowdedCon.TurnBegins 0 0 :=
    ⟨Nat.zero_le _, Nat.zero_le _, fun hno => absurd rfl hno, Nat.le_refl _⟩
  obtain ⟨con₁, llc₁, hturn₁, ht₁, hsrc₁, hsize₁⟩ := addresses_turn ht
    (by decide : "450".toList.length + 48 ≤ conOutBufSize) (by decide) (by decide) (by decide)
    (rfl : (blacklistCreate [] (addresses 125) .trie).message = addresses 125)
    (by decide) (by decide) (by decide) (by decide)
  obtain ⟨con₂, llc₂, hturn₂, ht₂, hsrc₂, hsize₂⟩ := addresses_turn ht₁
    (by decide : "450".toList.length + 48 ≤ conOutBufSize)
    (by rw [hsrc₁]; decide) (by rw [hsrc₁]; decide) (by decide)
    (rfl : (blacklistCreate [] (addresses 84) .trie).message = addresses 84)
    (by rw [hsize₁]; decide) (by rw [hsize₁]; decide) (by rw [hsize₁, hsrc₁]; decide)
    (by rw [hsize₁, hsrc₁]; decide)
  rw [hsrc₁] at hsrc₂ hturn₂ ht₂
  rw [hsize₁] at hsize₂
  have hlast := h [blacklistCreate [] (addresses 125) .trie, blacklistCreate [] (addresses 84) .trie]
    (blacklistCreate [] "Your address %A is listed".toList .trie) [] rfl
  rw [List.foldl_cons, List.foldl_cons, List.foldl_nil, hturn₁, hturn₂] at hlast
  have hfits := (turnInBounds_iff ht₂ (by decide) (by rw [hsrc₂]; decide) _
    (by rw [hsize₂]; decide)).mp hlast
  unfold TurnFits beginsEnded at hfits
  dsimp only at hfits
  rw [hsrc₂, hsize₂, if_neg (by decide)] at hfits
  exact absurd hfits (by decide)

end Greyd
