import Mathlib.Tactic
import Greyd.ConReply

/-!
# Where a reply ends

`Con_build_reply` looks at the last character of the text it has appended for a blacklist.
It is a newline exactly when the blacklist's message ends in one, written out or as an
escape.
-/
namespace Greyd

/-- Does the text for the rest of a message end in a newline? The first arguments are the
escape character not yet resolved and whether the text so far ends in one. -/
def endsInNewline : Option Char → Bool → CStr → Bool
  | _, newline, [] => newline
  | saved, _, c :: rest =>
    if c = '\\' ∨ c = '%' then
      match saved with
      | none => endsInNewline (some c) false rest
      | some _ => endsInNewline none false rest
    else endsInNewline none (decide (c = '\n' ∨ saved = some '\\' ∧ c = 'n')) rest

theorem endsInNewline_cons (saved : Option Char) (newline : Bool) (c : Char) (rest : CStr) :
    endsInNewline saved newline (c :: rest) =
      if c = '\\' ∨ c = '%' then
        match saved with
        | none => endsInNewline (some c) false rest
        | some _ => endsInNewline none false rest
      else endsInNewline none (decide (c = '\n' ∨ saved = some '\\' ∧ c = 'n')) rest := by
  cases saved <;> rfl

/-- The message ends in a newline or in the escape `\n`. -/
def EndsInNewline (message : CStr) : Prop := endsInNewline none false message = true

instance (message : CStr) : Decidable (EndsInNewline message) :=
  inferInstanceAs (Decidable (_ = true))

/-- A response code: a short line of text. -/
structure ReplyCode (code : CStr) : Prop where
  ne : code ≠ []
  short : code.length ≤ 1000
  noNewline : '\n' ∉ code
  noNul : nul ∉ code

/-- What the library prints for an address. -/
structure AddressText (src : CStr) : Prop where
  ne : src ≠ []
  short : src.length < inet6AddrStrlen
  noNewline : '\n' ∉ src

theorem sizeSub_of_le {a b : Nat} (h : b ≤ a) (ha : a < 2 ^ 64) : sizeSub a b = a - b := by
  unfold sizeSub
  rw [Nat.mod_eq_of_lt (by omega : b < 2 ^ 64), show a + 2 ^ 64 - b = a - b + 2 ^ 64 by omega,
    Nat.add_mod_right, Nat.mod_eq_of_lt (by omega)]

theorem sizeSub_of_lt {a b : Nat} (h : a < b) (hb : b < 2 ^ 64) :
    sizeSub a b = a + 2 ^ 64 - b := by
  unfold sizeSub
  rw [Nat.mod_eq_of_lt hb, Nat.mod_eq_of_lt (by omega)]

/-- The last character appended. -/
def Append.last (a : Append) : Char := a.buf.getD (a.off + a.appended - 1) nul

/-- Some text has been appended inside the buffer's bytes, the buffer does not begin with a
NUL, and an escape character is waiting or none is. -/
structure Append.Placed (a : Append) : Prop where
  inside : a.off + a.appended ≤ a.buf.length
  begun : 1 ≤ a.appended
  head : a.buf.getD 0 nul ≠ nul
  saved : a.saved = none ∨ a.saved = some '\\' ∨ a.saved = some '%'

section Store

variable {buf text : List Char} {p : Nat}

theorem overwrite_text_last (pad : List Char) (h : p ≤ buf.length) (hne : text ≠ []) :
    (overwrite buf p (text ++ pad)).getD (p + text.length - 1) nul = text.getLast hne := by
  have hpos : 0 < text.length := List.length_pos_of_ne_nil hne
  rw [show p + text.length - 1 = p + (text.length - 1) by omega,
    overwrite_getD h (by rw [List.length_append]; omega), List.getD_append _ _ _ _ (by omega),
    List.getD_eq_getElem _ _ (by omega), List.getLast_eq_getElem]

theorem overwrite_text_inside (pad : List Char) (h : p ≤ buf.length) :
    p + text.length ≤ (overwrite buf p (text ++ pad)).length := by
  rw [overwrite_length _ h, List.length_append]
  omega

end Store

/-- A text stored behind the last one. -/
theorem Append.Placed.store {a a' : Append} {text : CStr} (h : a.Placed) (pad : List Char)
    (hne : text ≠ []) (hbuf : a'.buf = overwrite a.buf (a.off + a.appended) (text ++ pad))
    (hoff : a'.off = a.off) (happended : a'.appended = a.appended + text.length)
    (hsaved : a'.saved = none ∨ a'.saved = some '\\' ∨ a'.saved = some '%') :
    a'.Placed ∧ a'.last = text.getLast hne := by
  have hbegun := h.begun
  have hend : a'.off + a'.appended = a.off + a.appended + text.length := by
    rw [hoff, happended, Nat.add_assoc]
  refine ⟨⟨?_, by omega, ?_, hsaved⟩, ?_⟩
  · rw [hend, hbuf]
    exact overwrite_text_inside pad h.inside
  · rw [hbuf, overwrite_getD_lt h.inside (by omega)]
    exact h.head
  · rw [Append.last, hend, hbuf]
    exact overwrite_text_last pad h.inside hne

/-- The response code is written whole, with the blank behind it or without. -/
theorem snprintf_code {code : CStr} {n : Nat} (hn : code.length + 1 ≤ n) :
    snprintf n (code ++ [' ']) = code ∨ snprintf n (code ++ [' ']) = code ++ [' '] := by
  unfold snprintf
  rcases Nat.lt_or_ge (n - 1) (code.length + 1) with hlt | hge
  · left
    rw [show n - 1 = code.length by omega, List.take_left']
    rfl
  · right
    exact List.take_of_length_le (by rw [List.length_append]; exact hge)

/-- What `snprintf` writes of a response code. -/
structure CodeText (code text : CStr) : Prop where
  ne : text ≠ []
  short : text.length ≤ code.length + 1
  last : text.getLast ne ≠ '\n'
  head : text.getD 0 nul ≠ nul

theorem ReplyCode.text {code : CStr} (h : ReplyCode code) {n : Nat} (hn : code.length + 1 ≤ n) :
    CodeText code (snprintf n (code ++ [' '])) := by
  obtain ⟨c, rest, rfl⟩ := List.exists_cons_of_ne_nil h.ne
  have hc : c ≠ nul := by
    rintro rfl
    exact h.noNul List.mem_cons_self
  rcases snprintf_code hn with htext | htext <;> rw [htext]
  · refine ⟨by simp, by simp, ?_, by simpa using hc⟩
    intro hlast
    exact h.noNewline (hlast ▸ List.getLast_mem _)
  · exact ⟨by simp, by simp, by simp, by simpa using hc⟩

/-- Either `error_str_len` has room for another turn and the text ends inside the buffer,
or it is too small to have the buffer grow, or it has wrapped around. -/
structure Append.Sized (code : CStr) (a : Append) (turns : Nat) : Prop where
  holdsCode : code.length + 1 ≤ a.strLen
  wraps : a.strLen < 2 ^ 64
  regime : (code.length + 48 ≤ a.strLen ∧ a.off + a.strLen ≤ a.size ∧ a.off + a.appended ≤ a.size) ∨
    a.strLen < code.length + 48 ∨ 2 ^ 63 ≤ a.strLen
  bound : a.size + a.off + a.appended + 10000 * turns < 2 ^ 62

section Turn

variable {code src : CStr} {a : Append} {turns : Nat} {c : Char}

/-- After the check for room: the next turn ends inside the buffer, or the buffer does not
grow. -/
structure Append.Roomy (code : CStr) (a : Append) (turns : Nat) : Prop where
  holdsCode : code.length + 1 ≤ a.strLen
  wraps : a.strLen < 2 ^ 64
  regime : (code.length + 48 ≤ a.strLen ∧ a.off + a.strLen ≤ a.size ∧
      a.off + a.appended + code.length + 48 ≤ a.size) ∨
    a.strLen < code.length + 48 ∨ 2 ^ 63 ≤ a.strLen
  bound : 1800 + (a.size + a.off + a.appended + 10000 * turns) < 2 ^ 62

theorem Append.Sized.room (hcode : code.length ≤ 1000) (h : a.Sized code (turns + 1)) :
    (a.room code).Roomy code turns := by
  obtain ⟨hholds, hwraps, hregime, hbound⟩ := h
  rw [Append.room_eq]
  rcases hregime with ⟨hfull, hend, hin⟩ | hsmall | hhuge
  · rw [sizeSub_of_le hfull hwraps]
    split
    · have hgrown : sizeSub (a.size + conOutBufSize) (a.off + a.appended) =
          a.size + 8192 - (a.off + a.appended) :=
        sizeSub_of_le (by show _ ≤ a.size + 8192; omega) (by
          have : a.size + conOutBufSize < 2 ^ 63 := by
            show a.size + 8192 < _
            rw [Nat.add_comm]
            omega
          omega)
      rw [hgrown]
      refine ⟨?_, ?_, .inl ⟨?_, ?_, ?_⟩, ?_⟩
      · show code.length + 1 ≤ a.size + 8192 - (a.off + a.appended)
        omega
      · show a.size + 8192 - (a.off + a.appended) < 2 ^ 64
        omega
      · show code.length + 48 ≤ a.size + 8192 - (a.off + a.appended)
        omega
      · show a.off + (a.size + 8192 - (a.off + a.appended)) ≤ a.size + 8192
        omega
      · show a.off + a.appended + code.length + 48 ≤ a.size + 8192
        omega
      · show 1800 + (a.size + 8192 + a.off + a.appended + 10000 * turns) < 2 ^ 62
        omega
    · next hroom => exact ⟨hholds, hwraps, .inl ⟨hfull, hend, by omega⟩, by omega⟩
  · rw [sizeSub_of_lt hsmall (by omega), if_neg (by omega)]
    exact ⟨hholds, hwraps, .inr (.inl hsmall), by omega⟩
  · rw [sizeSub_of_le (by omega) hwraps, if_neg (by omega)]
    exact ⟨hholds, hwraps, .inr (.inr hhuge), by omega⟩

/-- With a line begun where one was due: room for what one character can append. -/
structure Append.Ready (code : CStr) (a : Append) (turns : Nat) : Prop where
  holdsCode : code.length + 1 ≤ a.strLen
  wraps : a.strLen < 2 ^ 64
  regime : (code.length + 48 ≤ a.strLen ∧ a.off + a.strLen ≤ a.size ∧
      a.off + a.appended + 46 ≤ a.size) ∨
    a.strLen < code.length + 48 ∨ 2 ^ 63 ≤ a.strLen
  bound : 50 + (a.size + a.off + a.appended + 10000 * turns) < 2 ^ 62

theorem Append.continueLine_head (a : Append) : a.continueLine.buf.getD 0 nul = a.buf.getD 0 nul := by
  unfold Append.continueLine
  split
  · next h =>
    show (a.buf.set a.lastLineCont '-').getD 0 nul = _
    rw [List.getD_eq_getElem?_getD, List.getElem?_set_ne h, ← List.getD_eq_getElem?_getD]
  · rfl

theorem Append.continueLine_length (a : Append) : a.continueLine.buf.length = a.buf.length := by
  unfold Append.continueLine
  split
  · exact List.length_set
  · rfl

theorem Append.continueLine_rest (a : Append) :
    a.continueLine.size = a.size ∧ a.continueLine.off = a.off ∧
      a.continueLine.appended = a.appended ∧ a.continueLine.strLen = a.strLen ∧
      a.continueLine.saved = a.saved := by
  unfold Append.continueLine
  split <;> exact ⟨rfl, rfl, rfl, rfl, rfl⟩

theorem Append.Placed.continueLine (h : a.Placed) : a.continueLine.Placed := by
  obtain ⟨-, hoff, happended, -, hsaved⟩ := a.continueLine_rest
  refine ⟨?_, ?_, ?_, ?_⟩
  · rw [hoff, happended, a.continueLine_length]
    exact h.inside
  · rw [happended]
    exact h.begun
  · rw [a.continueLine_head]
    exact h.head
  · rw [hsaved]
    exact h.saved

/-- Writing the response code again. -/
theorem Append.Placed.codeAgain (hcode : ReplyCode code) (h : a.Placed)
    (hholds : code.length + 1 ≤ a.strLen) :
    (a.code code).Placed ∧ (a.code code).last ≠ '\n' ∧ (a.code code).saved = a.saved ∧
      (a.code code).appended ≤ a.appended + (code.length + 1) := by
  have htext := hcode.text hholds
  have hbuf : (a.code code).buf = overwrite a.buf (a.off + a.appended)
      (snprintf a.strLen (code ++ [' ']) ++ [nul]) := by
    show (if a.strLen = 0 then a.buf else _) = _
    rw [if_neg (by omega)]
  obtain ⟨hplaced, hlast⟩ := h.store [nul] htext.ne hbuf rfl rfl h.saved
  refine ⟨hplaced, ?_, rfl, ?_⟩
  · rw [hlast]
    exact htext.last
  · exact Nat.add_le_add_left htext.short _

theorem Append.room_rest (a : Append) (code : CStr) :
    (a.room code).buf = a.buf ∧ (a.room code).off = a.off ∧
      (a.room code).appended = a.appended ∧ (a.room code).saved = a.saved := by
  unfold Append.room
  dsimp only
  split <;> exact ⟨rfl, rfl, rfl, rfl⟩

theorem Append.Placed.room (h : a.Placed) : (a.room code).Placed := by
  obtain ⟨hbuf, hoff, happended, hsaved⟩ := a.room_rest code
  refine ⟨?_, ?_, ?_, ?_⟩
  · rw [hbuf, hoff, happended]
    exact h.inside
  · rw [happended]
    exact h.begun
  · rw [hbuf]
    exact h.head
  · rw [hsaved]
    exact h.saved

/-- After the check for a new line the text ends inside a line. -/
theorem Append.Placed.line (hcode : ReplyCode code) (h : a.Placed) (hroom : a.Roomy code turns) :
    (a.line code).Placed ∧ (a.line code).last ≠ '\n' ∧ (a.line code).saved = a.saved ∧
      (a.line code).Ready code turns := by
  have hshort := hcode.short
  obtain ⟨hholds, hwraps, hregime, hbound⟩ := hroom
  unfold Append.line
  split
  · obtain ⟨hsize, hoff, happended, hlen, hsaved⟩ := a.continueLine_rest
    obtain ⟨hplaced, hlast, hsaved', hgrows⟩ :=
      h.continueLine.codeAgain hcode (hlen ▸ hholds)
    have hsize' : (a.continueLine.code code).size = a.size := hsize
    have hoff' : (a.continueLine.code code).off = a.off := hoff
    have hlen' : (a.continueLine.code code).strLen = a.strLen := hlen
    rw [happended] at hgrows
    refine ⟨hplaced, hlast, hsaved'.trans hsaved, ⟨hlen'.symm ▸ hholds, hlen'.symm ▸ hwraps, ?_, ?_⟩⟩
    · rw [hsize', hoff', hlen']
      rcases hregime with ⟨hfull, hend, hin⟩ | hrest
      · exact .inl ⟨hfull, hend, by omega⟩
      · exact .inr hrest
    · rw [hsize', hoff']
      omega
  · next hlast =>
    refine ⟨h, hlast, rfl, hholds, hwraps, ?_, by omega⟩
    rcases hregime with ⟨hfull, hend, hin⟩ | hrest
    · exact .inl ⟨hfull, hend, by omega⟩
    · exact .inr hrest

/-- Storing one character. -/
theorem Append.Placed.put (h : a.Placed) (c : Char) : (a.put c).Placed ∧ (a.put c).last = c := by
  have hne : [c] ≠ [] := by simp
  exact h.store [nul] hne rfl rfl rfl h.saved

theorem Append.Placed.clear (h : a.Placed) :
    ({ a with saved := none } : Append).Placed := ⟨h.inside, h.begun, h.head, .inl rfl⟩

/-- What one turn leaves of the sizes. -/
theorem Append.Ready.sized {a' : Append} (h : a.Ready code turns) (hsize : a'.size = a.size)
    (hoff : a'.off = a.off) (hlen : a'.strLen = a.strLen)
    (hgrows : a'.appended ≤ a.appended + 46) : a'.Sized code turns := by
  obtain ⟨hholds, hwraps, hregime, hbound⟩ := h
  refine ⟨hlen ▸ hholds, hlen ▸ hwraps, ?_, ?_⟩
  · rw [hsize, hoff, hlen]
    rcases hregime with ⟨hfull, hend, hin⟩ | hrest
    · exact .inl ⟨hfull, hend, by omega⟩
    · exact .inr hrest
  · rw [hsize, hoff]
    omega

/-- One character of the message, where the text ends inside a line. -/
theorem Append.Placed.char (hsrc : AddressText src) (h : a.Placed) (hready : a.Ready code turns)
    (hlast : a.last ≠ '\n') (c : Char) (rest : CStr) :
    (a.char src c).Placed ∧ (a.char src c).Sized code turns ∧
      endsInNewline (a.char src c).saved (decide ((a.char src c).last = '\n')) rest =
        endsInNewline a.saved false (c :: rest) := by
  unfold Append.char
  rw [endsInNewline_cons]
  split
  · next hc =>
    split
    · next hs =>
      refine ⟨⟨h.inside, h.begun, h.head, .inr ?_⟩, hready.sized rfl rfl rfl (by simp), ?_⟩
      · simpa using hc
      · show endsInNewline (some c) (decide (a.last = '\n')) rest = _
        simp only [decide_eq_false hlast, hs]
    · next e hs =>
      obtain ⟨hplaced, hputLast⟩ := h.put e
      refine ⟨hplaced.clear, hready.sized rfl rfl rfl (by simp [Append.put]), ?_⟩
      show endsInNewline none (decide ((a.put e).last = '\n')) rest = _
      have he : e ≠ '\n' := by
        rcases h.saved with h' | h' | h' <;> rw [hs] at h' <;> simp at h' <;> subst h' <;> decide
      simp only [hputLast, decide_eq_false he, hs]
  · next hc =>
    split
    · next hn =>
      obtain ⟨hplaced, hputLast⟩ := h.put '\n'
      refine ⟨hplaced.clear, hready.sized rfl rfl rfl (by simp [Append.put]), ?_⟩
      show endsInNewline none (decide ((a.put '\n').last = '\n')) rest = _
      rw [hputLast, decide_eq_true rfl, decide_eq_true (.inr hn)]
    · next hn =>
      split
      · next hA =>
        have haddr : (a.addr src).Placed ∧ (a.addr src).last = src.getLast hsrc.ne :=
          h.store _ hsrc.ne rfl rfl rfl h.saved
        have hshort : src.length < 46 := hsrc.short
        have hend : src.getLast hsrc.ne ≠ '\n' := fun he =>
          hsrc.noNewline (he ▸ List.getLast_mem _)
        refine ⟨haddr.1.clear, hready.sized rfl rfl rfl ?_, ?_⟩
        · show a.appended + src.length ≤ _
          omega
        · show endsInNewline none (decide ((a.addr src).last = '\n')) rest = _
          rw [haddr.2, decide_eq_false hend]
          simp [hA]
      · have hnewline : c = '\n' ∨ a.saved = some '\\' ∧ c = 'n' ↔ c = '\n' := by tauto
        rw [decide_eq_decide.mpr hnewline]
        split
        · next hs =>
          obtain ⟨hplaced, hputLast⟩ := h.put c
          refine ⟨hplaced, hready.sized rfl rfl rfl (by simp [Append.put]), ?_⟩
          rw [hputLast]
          show endsInNewline a.saved _ rest = _
          rw [hs]
        · next e hs =>
          obtain ⟨hplaced, hputLast⟩ := (h.put e).1.put c
          refine ⟨hplaced.clear, hready.sized rfl rfl rfl (by simp [Append.put]), ?_⟩
          show endsInNewline none (decide (((a.put e).put c).last = '\n')) rest = _
          rw [hputLast]

/-- The loop over the message. -/
theorem Append.Placed.run (hcode : ReplyCode code) (hsrc : AddressText src) (fmt : CStr)
    (h : a.Placed) (hsized : a.Sized code (fmt.length + turns)) :
    (a.run src code fmt).Placed ∧ (a.run src code fmt).Sized code turns ∧
      ((a.run src code fmt).last = '\n' ↔
        endsInNewline a.saved (decide (a.last = '\n')) fmt = true) := by
  induction fmt generalizing a with
  | nil =>
    rw [List.length_nil, Nat.zero_add] at hsized
    exact ⟨h, hsized, by simp [Append.run, endsInNewline]⟩
  | cons c rest ih =>
    rw [List.length_cons, Nat.add_right_comm] at hsized
    have hroom : (a.room code).Placed := h.room
    obtain ⟨hplaced, hlast, hsaved, hready⟩ := hroom.line hcode (hsized.room hcode.short)
    obtain ⟨hplaced', hsized', hends⟩ := hplaced.char hsrc hready hlast c rest
    obtain ⟨hrun, hrunSized, hrunLast⟩ := ih hplaced' hsized'
    refine ⟨hrun, hrunSized, ?_⟩
    show ((((a.room code).line code).char src c).run src code rest).last = '\n' ↔ _
    rw [hrunLast, hends, hsaved, (a.room_rest code).2.2.2]
    have hany : endsInNewline a.saved false (c :: rest) =
        endsInNewline a.saved (decide (a.last = '\n')) (c :: rest) := by
      rw [endsInNewline_cons, endsInNewline_cons]
    rw [hany]

/-- The text stays where it was begun. -/
theorem Append.run_off (src code fmt : CStr) (a : Append) : (a.run src code fmt).off = a.off := by
  induction fmt generalizing a with
  | nil => rfl
  | cons c rest ih =>
    have hline : ∀ b : Append, (b.line code).off = b.off := by
      intro b
      unfold Append.line
      split
      · exact b.continueLine_rest.2.1
      · rfl
    have hchar : ∀ b : Append, (b.char src c).off = b.off := by
      intro b
      unfold Append.char
      split
      · split <;> rfl
      · split
        · rfl
        · split
          · rfl
          · split <;> rfl
    show ((((a.room code).line code).char src c).run src code rest).off = a.off
    rw [ih, hchar, hline, (a.room_rest code).2.1]

end Turn

section Reply

variable {code : CStr} {con : Con} {off : Nat} (llc turns : Nat)

/-- Where the next blacklist's text begins: at the front of the buffer, or behind text that
does not begin with a NUL. -/
structure Con.Begun (con : Con) (off : Nat) : Prop where
  inside : off ≤ con.outBuf.length
  head : off ≠ 0 → con.outBuf.getD 0 nul ≠ nul

/-- The sizes `Con_append_error_string` starts with. -/
theorem startSizes {size off len : Nat} (hlen : len ≤ 1000) (hbound : 10000 + (size + off) < 2 ^ 62) :
    ∃ size' strLen, (if sizeSub size off < len + 1 then (size + 8192, sizeSub (size + 8192) off)
        else (size, sizeSub size off)) = (size', strLen) ∧
      len + 1 ≤ strLen ∧ strLen < 2 ^ 64 ∧ size' ≤ size + 8192 ∧
      (len + 48 ≤ strLen ∧ off + strLen ≤ size' ∨ strLen < len + 48 ∨ 2 ^ 63 ≤ strLen) := by
  rcases Nat.lt_or_ge size off with hlt | hge
  · rw [sizeSub_of_lt hlt (by omega), if_neg (by omega)]
    exact ⟨_, _, rfl, by omega, by omega, by omega, .inr (.inr (by omega))⟩
  · rw [sizeSub_of_le hge (by omega)]
    rcases Nat.lt_or_ge (size - off) (len + 1) with hsmall | hroom
    · have hgrown : sizeSub (size + 8192) off = size + 8192 - off :=
        sizeSub_of_le (by omega) (by rw [Nat.add_comm]; omega)
      rw [if_pos hsmall, hgrown]
      exact ⟨_, _, rfl, by omega, by omega, by omega, .inl ⟨by omega, by omega⟩⟩
    · rw [if_neg (by omega)]
      refine ⟨_, _, rfl, hroom, by omega, by omega, ?_⟩
      rcases Nat.lt_or_ge (size - off) (len + 48) with hsmall | hfull
      · exact .inr (.inl hsmall)
      · exact .inl ⟨hfull, by omega⟩

/-- `Con_append_error_string` up to its loop. -/
theorem Append.start_placed (hcode : ReplyCode code) (h : con.Begun off)
    (hbound : con.outSize + off + 10000 * (turns + 1) < 2 ^ 62) :
    (Append.start con off llc code).Placed ∧ (Append.start con off llc code).Sized code turns ∧
      (Append.start con off llc code).off = off ∧
      (Append.start con off llc code).saved = none ∧
      (Append.start con off llc code).last ≠ '\n' := by
  -- the variables before the buffer is looked at, and with room for the response code
  let a₀ : Append := ⟨con.outBuf, con.outSize, off, 0, sizeSub con.outSize off, none,
    if off = 0 then 0 else llc⟩
  let a₁ : Append := if a₀.continueLine.strLen < code.length + 1 then
      { a₀.continueLine with
        size := a₀.continueLine.size + conOutBufSize
        strLen := sizeSub (a₀.continueLine.size + conOutBufSize) off }
    else a₀.continueLine
  obtain ⟨hsize₀, hoff₀, happended₀, hlen₀, hsaved₀⟩ := a₀.continueLine_rest
  have hrest : a₁.buf = a₀.continueLine.buf ∧ a₁.off = off ∧ a₁.appended = 0 ∧ a₁.saved = none := by
    show (if _ then _ else _ : Append).buf = _ ∧ (if _ then _ else _ : Append).off = _ ∧
      (if _ then _ else _ : Append).appended = _ ∧ (if _ then _ else _ : Append).saved = _
    split <;> exact ⟨rfl, hoff₀, happended₀, hsaved₀⟩
  obtain ⟨size, strLen, hsizes, hholds, hwraps, hgrown, hregime⟩ :=
    startSizes hcode.short (show 10000 + (con.outSize + off) < 2 ^ 62 by omega)
  have hsizes₁ : (a₁.size, a₁.strLen) = (size, strLen) := by
    rw [← hsizes]
    show ((if _ then _ else _ : Append).size, (if _ then _ else _ : Append).strLen) = _
    rw [hlen₀]
    show _ = if a₀.strLen < _ then _ else _
    split
    · rw [hsize₀]
      rfl
    · rw [hsize₀, hlen₀]
  obtain ⟨hsize₁, hlen₁⟩ := Prod.mk.inj hsizes₁
  obtain ⟨hbuf₁, hoff₁, happended₁, hsaved₁⟩ := hrest
  have hinside : a₁.off + a₁.appended ≤ a₁.buf.length := by
    rw [hbuf₁, a₀.continueLine_length, hoff₁, happended₁]
    exact h.inside
  -- the response code
  have htext := hcode.text (hlen₁.symm ▸ hholds)
  have hpos : 0 < (snprintf a₁.strLen (code ++ [' '])).length := List.length_pos_of_ne_nil htext.ne
  have hbuf : (a₁.code code).buf = overwrite a₁.buf (a₁.off + a₁.appended)
      (snprintf a₁.strLen (code ++ [' ']) ++ [nul]) := by
    show (if a₁.strLen = 0 then a₁.buf else _) = _
    rw [if_neg (by omega)]
  have happended : (a₁.code code).appended = (snprintf a₁.strLen (code ++ [' '])).length := by
    show a₁.appended + _ = _
    rw [happended₁, Nat.zero_add]
  have hoff : (a₁.code code).off = off := hoff₁
  have hend : (a₁.code code).off + (a₁.code code).appended =
      a₁.off + a₁.appended + (snprintf a₁.strLen (code ++ [' '])).length := by
    rw [hoff, happended, hoff₁, happended₁, Nat.add_zero]
  show (a₁.code code).Placed ∧ (a₁.code code).Sized code turns ∧ (a₁.code code).off = off ∧
    (a₁.code code).saved = none ∧ (a₁.code code).last ≠ '\n'
  refine ⟨⟨?_, by omega, ?_, .inl hsaved₁⟩, ?_, hoff, hsaved₁, ?_⟩
  · rw [hend, hbuf]
    exact overwrite_text_inside _ hinside
  · rcases Nat.eq_zero_or_pos off with hzero | hlater
    · have hfront := @overwrite_getD a₁.buf (snprintf a₁.strLen (code ++ [' ']) ++ [nul]) _ 0
        hinside (by simp)
      rw [hoff₁, happended₁, hzero] at hfront
      rw [hbuf, hoff₁, happended₁, hzero, hfront, List.getD_append _ _ _ _ hpos]
      exact htext.head
    · rw [hbuf, overwrite_getD_lt hinside (by omega), hbuf₁, a₀.continueLine_head]
      exact h.head (by omega)
  · have hstrLen : (a₁.code code).strLen = strLen := hlen₁
    have hsize : (a₁.code code).size = size := hsize₁
    have hshort := htext.short
    have hcodeShort := hcode.short
    refine ⟨hstrLen.symm ▸ hholds, hstrLen.symm ▸ hwraps, ?_, ?_⟩
    · rw [hstrLen, hoff, hsize, happended]
      rcases hregime with ⟨hfull, hin⟩ | hrest
      · exact .inl ⟨hfull, hin, by omega⟩
      · exact .inr hrest
    · rw [hoff, hsize, happended]
      omega
  · rw [Append.last, hend, hbuf, overwrite_text_last _ hinside htext.ne]
    exact htext.last

/-- `Con_append_error_string`. -/
theorem conAppendErrorString_placed (hcode : ReplyCode code) (hsrc : AddressText con.srcAddr)
    (message : CStr) (h : con.Begun off)
    (hbound : con.outSize + off + 10000 * (message.length + 1 + turns) < 2 ^ 62) :
    (conAppendErrorString con off message code llc).Placed ∧
      (conAppendErrorString con off message code llc).off = off ∧
      (conAppendErrorString con off message code llc).size + off +
        (conAppendErrorString con off message code llc).appended + 10000 * turns < 2 ^ 62 ∧
      ((conAppendErrorString con off message code llc).last = '\n' ↔ EndsInNewline message) := by
  obtain ⟨hplaced, hsized, hoff, hsaved, hlast⟩ :=
    Append.start_placed llc (message.length + turns) hcode h (by omega)
  obtain ⟨hrun, hrunSized, hrunLast⟩ := hplaced.run hcode hsrc message hsized
  have hrunOff : (conAppendErrorString con off message code llc).off = off :=
    (Append.run_off _ _ _ _).trans hoff
  have hsum := hrunSized.bound
  rw [show ((Append.start con off llc code).run con.srcAddr code message).off = off from hrunOff]
    at hsum
  refine ⟨hrun, hrunOff, hsum, ?_⟩
  show ((Append.start con off llc code).run con.srcAddr code message).last = '\n' ↔ _
  rw [hrunLast, hsaved, decide_eq_false hlast]
  rfl

/-! ## The lists -/

theorem cstr_pos {buf : List Char} (h : buf.getD 0 nul ≠ nul) : 0 < (cstr buf).length := by
  cases buf with
  | nil => exact absurd rfl h
  | cons c rest =>
    have hc : c ≠ nul := h
    simp [cstr, hc]

/-- The whole text of the buffer is to be written, and it is not empty. -/
structure Con.Windowed (con : Con) : Prop where
  start : con.outP = 0
  whole : con.outRemaining = (cstr con.outBuf).length
  pos : 0 < con.outRemaining

theorem Con.window_windowed (h : con.outBuf.getD 0 nul ≠ nul) : con.window.Windowed where
  start := rfl
  whole := rfl
  pos := Int.natCast_pos.mpr (cstr_pos h)

/-- What the text of one blacklist takes off the sizes. -/
def textBudget (blacklists : List Blacklist) : Nat :=
  (blacklists.map (fun blacklist => blacklist.message.length + 2)).sum

/-- One turn of the loop over the blacklists. -/
theorem replyBlacklist_step (hcode : ReplyCode code) (hsrc : AddressText con.srcAddr)
    (blacklist : Blacklist) (h : con.Begun off)
    (hbound : con.outSize + off + 10000 * (blacklist.message.length + 2 + turns) < 2 ^ 62) :
    ∃ con' off' llc', replyBlacklist code (con, off, llc) blacklist = (con', off', llc') ∧
      con'.Begun off' ∧ con'.srcAddr = con.srcAddr ∧
      con'.outSize + off' + 10000 * turns < 2 ^ 62 ∧
      (EndsInNewline blacklist.message →
        con'.outP = con.outP ∧ con'.outRemaining = con.outRemaining) ∧
      (¬ EndsInNewline blacklist.message → con'.Windowed) := by
  obtain ⟨hplaced, hoff, hsum, hends⟩ :=
    conAppendErrorString_placed llc (turns + 1) hcode hsrc blacklist.message h (by omega)
  unfold replyBlacklist
  dsimp only
  generalize conAppendErrorString con off blacklist.message code llc = a at hplaced hoff hsum hends
  have hbegun := hplaced.begun
  have hinside := hplaced.inside
  have hlast : a.last = a.buf.getD (off + a.appended - 1) nul := by rw [Append.last, hoff]
  rw [hoff] at hinside
  rw [hlast] at hends
  split
  · next hline =>
    have hhead : (overwrite a.buf (off + a.appended) ['\n', nul]).getD 0 nul ≠ nul := by
      rw [overwrite_getD_lt hinside (by omega)]
      exact hplaced.head
    have hlen : off + a.appended + 1 ≤ (overwrite a.buf (off + a.appended) ['\n', nul]).length :=
      @overwrite_text_inside a.buf ['\n'] _ [nul] hinside
    refine ⟨_, _, _, rfl, ⟨?_, fun _ => ?_⟩, ?_, ?_, fun hyes => absurd (hends.mpr hyes) hline,
      fun _ => ?_⟩
    · split <;> exact hlen
    · split <;> exact hhead
    · split <;> rfl
    · split
      · show a.size + 8192 + (off + a.appended + 1) + 10000 * turns < 2 ^ 62
        omega
      · show a.size + (off + a.appended + 1) + 10000 * turns < 2 ^ 62
        omega
    · split <;> exact Con.window_windowed hhead
  · next hline =>
    have hnewline : a.buf.getD (off + a.appended - 1) nul = '\n' := not_not.mp hline
    refine ⟨_, _, _, rfl, ⟨hinside, fun _ => hplaced.head⟩, rfl, ?_, fun _ => ⟨rfl, rfl⟩,
      fun hno => absurd (hends.mp hnewline) hno⟩
    show a.size + (off + a.appended) + 10000 * turns < 2 ^ 62
    omega

/-- There is text to be written, from the front of the buffer on. -/
def Con.Pending (con : Con) : Prop := con.outP = 0 ∧ 0 < con.outRemaining

theorem Con.Windowed.pending (h : con.Windowed) : con.Pending := ⟨h.start, h.pos⟩

theorem foldl_replyBlacklist (hcode : ReplyCode code) (hsrc : AddressText con.srcAddr)
    (blacklists : List Blacklist) (h : con.Begun off)
    (hbound : con.outSize + off + 10000 * (textBudget blacklists + turns) < 2 ^ 62) :
    ∃ con' off' llc', blacklists.foldl (replyBlacklist code) (con, off, llc) = (con', off', llc') ∧
      con'.Begun off' ∧ con'.srcAddr = con.srcAddr ∧
      con'.outSize + off' + 10000 * turns < 2 ^ 62 ∧
      ((∃ blacklist ∈ blacklists, ¬ EndsInNewline blacklist.message) ∨ con.Pending → con'.Pending) := by
  induction blacklists generalizing con off llc with
  | nil => exact ⟨con, off, llc, rfl, h, rfl, by simpa [textBudget] using hbound, by simp⟩
  | cons blacklist rest ih =>
    have hsplit : textBudget (blacklist :: rest) = blacklist.message.length + 2 + textBudget rest := by
      simp [textBudget]
    rw [hsplit, Nat.add_assoc (blacklist.message.length + 2)] at hbound
    obtain ⟨con₁, off₁, llc₁, hstep, hbegun₁, hsrc₁, hbound₁, hkept, hset⟩ :=
      replyBlacklist_step llc _ hcode hsrc blacklist h hbound
    obtain ⟨con₂, off₂, llc₂, hrun, hbegun₂, hsrc₂, hbound₂, hpending⟩ :=
      ih llc₁ (hsrc₁ ▸ hsrc) hbegun₁ hbound₁
    refine ⟨con₂, off₂, llc₂, ?_, hbegun₂, hsrc₂.trans hsrc₁, hbound₂, fun hsome => hpending ?_⟩
    · rw [List.foldl_cons, hstep, hrun]
    · by_cases hends : EndsInNewline blacklist.message
      · obtain ⟨hp, hremaining⟩ := hkept hends
        rcases hsome with ⟨other, hmem, hno⟩ | hcon
        · rcases List.mem_cons.mp hmem with rfl | hrest
          · exact absurd hends hno
          · exact .inl ⟨other, hrest, hno⟩
        · exact .inr ⟨hp.trans hcon.1, hremaining ▸ hcon.2⟩
      · exact .inr (hset hends).pending

/-- The condition on the texts the reply is made of: a response code, the client's address,
and lengths far below what `size_t` holds. -/
structure Con.Replies (con : Con) (code : CStr) : Prop where
  code : ReplyCode code
  src : AddressText con.srcAddr
  fits : con.outSize + 10000 * textBudget con.blacklists < 2 ^ 62

theorem replyBlacklist_frame (con : Con) (code : CStr) (off llc : Nat) (blacklist : Blacklist) :
    ∃ buf size p remaining off' llc', replyBlacklist code (con, off, llc) blacklist =
      ({ con with outBuf := buf, outSize := size, outP := p, outRemaining := remaining },
        off', llc') := by
  unfold replyBlacklist
  dsimp only
  split
  · split <;> exact ⟨_, _, _, _, _, _, rfl⟩
  · exact ⟨_, _, _, _, _, _, rfl⟩

/-- What `Con_build_reply` leaves alone. -/
theorem conBuildReply_frame (con : Con) (code : CStr) :
    ∃ buf size p remaining, conBuildReply con code =
      { con with outBuf := buf, outSize := size, outP := p, outRemaining := remaining } := by
  have hfold : ∀ (blacklists : List Blacklist) (c : Con) (off llc : Nat),
      ∃ buf size p remaining, (blacklists.foldl (replyBlacklist code) (c, off, llc)).1 =
        { c with outBuf := buf, outSize := size, outP := p, outRemaining := remaining } := by
    intro blacklists
    induction blacklists with
    | nil => exact fun c off llc => ⟨_, _, _, _, rfl⟩
    | cons blacklist rest ih =>
      intro c off llc
      obtain ⟨buf, size, p, remaining, off', llc', hstep⟩ :=
        replyBlacklist_frame c code off llc blacklist
      obtain ⟨buf', size', p', remaining', hrest⟩ := ih
        { c with outBuf := buf, outSize := size, outP := p, outRemaining := remaining } off' llc'
      rw [List.foldl_cons, hstep, hrest]
      exact ⟨_, _, _, _, rfl⟩
  unfold conBuildReply
  split
  · exact hfold con.blacklists con 0 0
  · exact ⟨_, _, _, _, rfl⟩

theorem Con.print_head {text : CStr} (hsize : 1 < con.outSize) (hhead : text.getD 0 nul ≠ nul) :
    (con.print text).outBuf.getD 0 nul ≠ nul := by
  have hbuf : (con.print text).outBuf =
      overwrite con.outBuf 0 (snprintf con.outSize text ++ [nul]) := by
    show (if con.outSize = 0 then con.outBuf else _) = _
    rw [if_neg (by omega)]
  cases text with
  | nil => exact absurd rfl hhead
  | cons c rest =>
    obtain ⟨n, hn⟩ : ∃ n, con.outSize - 1 = n + 1 := ⟨con.outSize - 2, by omega⟩
    rw [hbuf, snprintf, hn, List.take_succ_cons]
    exact hhead

/-- The reply is to be written from the front of the buffer where the client is on no list
or one of its lists has a message that does not end in a newline. -/
theorem conBuildReply_pending (h : con.Replies code) (hsize : 1 < con.outSize)
    (hends : con.blacklists ≠ [] → ∃ blacklist ∈ con.blacklists, ¬ EndsInNewline blacklist.message) :
    (conBuildReply con code).Pending := by
  unfold conBuildReply
  split
  · next hlisted =>
    have hne : con.blacklists ≠ [] := by simpa [Con.listed] using hlisted
    obtain ⟨con', off', llc', hrun, -, -, -, hpending⟩ :=
      foldl_replyBlacklist 0 0 h.code h.src con.blacklists
        (show con.Begun 0 from ⟨Nat.zero_le _, fun hno => absurd rfl hno⟩) (by simpa using h.fits)
    rw [hrun]
    exact hpending (.inl (hends hne))
  · exact (Con.window_windowed (Con.print_head hsize (by decide))).pending

/-- The whole reply is to be written where the last list's message does not end in a
newline. -/
theorem conBuildReply_windowed (h : con.Replies code) (hsize : 1 < con.outSize)
    (hends : ∀ blacklist, con.blacklists.getLast? = some blacklist → ¬ EndsInNewline blacklist.message) :
    (conBuildReply con code).Windowed := by
  unfold conBuildReply
  split
  · next hlisted =>
    have hne : con.blacklists ≠ [] := by simpa [Con.listed] using hlisted
    have hfits := h.fits
    have hlists := List.dropLast_append_getLast hne
    generalize con.blacklists.dropLast = front at hlists
    generalize hlast : con.blacklists.getLast hne = last at hlists
    have hbudget : textBudget con.blacklists = textBudget front + (last.message.length + 2) := by
      rw [← hlists]
      simp [textBudget]
    rw [hbudget] at hfits
    obtain ⟨con₁, off₁, llc₁, hrun, hbegun₁, hsrc₁, hbound₁, -⟩ :=
      foldl_replyBlacklist 0 _ h.code h.src front
        (show con.Begun 0 from ⟨Nat.zero_le _, fun hno => absurd rfl hno⟩)
        (by simpa using hfits)
    obtain ⟨con₂, off₂, llc₂, hstep, -, -, -, -, hset⟩ :=
      replyBlacklist_step llc₁ 0 h.code (hsrc₁ ▸ h.src) last hbegun₁ hbound₁
    rw [← hlists, List.foldl_append, hrun, List.foldl_cons, hstep]
    exact hset (hends last (by rw [List.getLast?_eq_getLast_of_ne_nil hne, hlast]))
  · exact Con.window_windowed (Con.print_head hsize (by decide))

end Reply

end Greyd
