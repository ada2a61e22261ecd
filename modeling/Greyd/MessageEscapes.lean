import Mathlib.Tactic
import Greyd.ReplyEnd

/-!
# The escapes of a message (con.c)

What the text of a blacklist's message is, prefixes of the lines aside: the characters that
the loop of `Con_append_error_string` stores in the buffer, one turn after the other. The
loop remembers one character. It resolves an escape with it, but it has none for a
character that follows a foreign escape character, and it drops what is left at the end.
-/
namespace Greyd

/-! ## What is appended to the buffer -/

/-- `b` is `a` with this text stored behind what was appended before. -/
structure Append.Extends (a b : Append) (text : CStr) : Prop where
  off : b.off = a.off
  appended : b.appended = a.appended + text.length
  inside : b.off + b.appended ≤ b.buf.length
  buf : b.buf.take (b.off + b.appended) = a.buf.take (a.off + a.appended) ++ text

namespace Append.Extends

variable {a b c : Append} {text text' : CStr}

theorem same (h : a.off + a.appended ≤ a.buf.length) (hoff : b.off = a.off)
    (happended : b.appended = a.appended) (hbuf : b.buf = a.buf) : a.Extends b [] := by
  refine ⟨hoff, happended, ?_, ?_⟩
  · rw [hoff, happended, hbuf]
    exact h
  · rw [hoff, happended, hbuf, List.append_nil]

theorem trans (h : a.Extends b text) (h' : b.Extends c text') : a.Extends c (text ++ text') := by
  refine ⟨h'.off.trans h.off, ?_, h'.inside, ?_⟩
  · rw [h'.appended, h.appended, List.length_append, Nat.add_assoc]
  · rw [h'.buf, h.buf, List.append_assoc]

/-- A store at the end, with padding that does not count. -/
theorem store (h : a.off + a.appended ≤ a.buf.length) (pad : List Char) (hoff : b.off = a.off)
    (happended : b.appended = a.appended + text.length)
    (hbuf : b.buf = overwrite a.buf (a.off + a.appended) (text ++ pad)) : a.Extends b text := by
  have hend : b.off + b.appended = a.off + a.appended + text.length := by
    rw [hoff, happended, Nat.add_assoc]
  refine ⟨hoff, happended, ?_, ?_⟩
  · rw [hend, hbuf]
    exact overwrite_text_inside pad h
  · have hfront : (a.buf.take (a.off + a.appended) ++ text).length = a.off + a.appended + text.length := by
      rw [List.length_append, List.length_take, Nat.min_eq_left h]
    rw [hend, hbuf, overwrite, ← hfront, ← List.append_assoc (a.buf.take _), List.append_assoc]
    exact List.take_left

theorem put (h : a.off + a.appended ≤ a.buf.length) (c : Char) : a.Extends (a.put c) [c] :=
  store h [nul] rfl rfl rfl

end Append.Extends

/-- The text between what was appended before and after. -/
def Append.between (before after : Append) : CStr :=
  (after.buf.drop (before.off + before.appended)).take (after.appended - before.appended)

theorem Append.Extends.between {a b : Append} {text : CStr} (h : a.Extends b text) :
    a.between b = text := by
  have hinside := h.inside
  have hend : b.off + b.appended = a.off + a.appended + text.length := by
    rw [h.off, h.appended, Nat.add_assoc]
  have hlen := congrArg List.length h.buf
  rw [List.length_take, Nat.min_eq_left hinside, List.length_append, List.length_take, hend] at hlen
  have hfront : (a.buf.take (a.off + a.appended)).length = a.off + a.appended := by
    rw [List.length_take]
    omega
  rw [Append.between, h.appended, Nat.add_sub_cancel_left, List.take_drop, ← hend, h.buf]
  exact List.drop_left' hfront

/-- The text of the message, from `Append.start` on: what each turn of the loop stores, behind
the room it makes and the line it begins. -/
def Append.messageText (a : Append) (srcAddr errorCode : CStr) : CStr → CStr
  | [] => []
  | c :: rest =>
    let before := (a.room errorCode).line errorCode
    let after := before.char srcAddr c
    before.between after ++ after.messageText srcAddr errorCode rest

/-! ## The text of one character -/

def IsEscape (c : Char) : Prop := c = '\\' ∨ c = '%'

instance (c : Char) : Decidable (IsEscape c) := inferInstanceAs (Decidable (_ ∨ _))

/-- `\n` and `%A`. -/
def MakesEscape (e c : Char) : Prop := e = '\\' ∧ c = 'n' ∨ e = '%' ∧ c = 'A'

instance (e c : Char) : Decidable (MakesEscape e c) := inferInstanceAs (Decidable (_ ∨ _))

def escapeText (srcAddr : CStr) (c : Char) : CStr := if c = 'n' then ['\n'] else srcAddr

/-- What a character adds to the text behind an escape character that waits, and the one that
waits behind it. -/
def charText (srcAddr : CStr) (saved : Option Char) (c : Char) : CStr × Option Char :=
  if IsEscape c then
    match saved with
    | none => ([], some c)
    | some e => ([e], none)
  else
    match saved with
    | none => ([c], none)
    | some e => (if MakesEscape e c then escapeText srcAddr c else [e, c], none)

/-- What the loop makes of a message. -/
def loopText (srcAddr : CStr) (saved : Option Char) : CStr → CStr
  | [] => []
  | c :: rest => (charText srcAddr saved c).1 ++ loopText srcAddr (charText srcAddr saved c).2 rest

theorem Append.char_extends {a : Append} (h : a.off + a.appended ≤ a.buf.length) (srcAddr : CStr)
    (c : Char) : a.Extends (a.char srcAddr c) (charText srcAddr a.saved c).1 ∧
      (a.char srcAddr c).saved = (charText srcAddr a.saved c).2 := by
  unfold Append.char charText
  by_cases hc : c = '\\' ∨ c = '%'
  · rw [if_pos hc, if_pos (show IsEscape c from hc)]
    cases hsaved : a.saved with
    | none => exact ⟨.same h rfl rfl rfl, rfl⟩
    | some e => exact ⟨.store h [nul] rfl rfl rfl, rfl⟩
  · rw [if_neg hc, if_neg (show ¬ IsEscape c from hc)]
    by_cases hn : a.saved = some '\\' ∧ c = 'n'
    · rw [if_pos hn, hn.1, hn.2]
      exact ⟨.store h [nul] rfl rfl rfl, rfl⟩
    · by_cases hA : a.saved = some '%' ∧ c = 'A'
      · rw [if_neg hn, if_pos hA, hA.1, hA.2]
        exact ⟨.store h _ rfl rfl rfl, rfl⟩
      · rw [if_neg hn, if_neg hA]
        cases hsaved : a.saved with
        | none => exact ⟨.put h c, hsaved⟩
        | some e =>
          have hmakes : ¬ MakesEscape e c := by
            rw [hsaved, Option.some.injEq] at hn hA
            exact not_or.mpr ⟨hn, hA⟩
          have hput : a.Extends (a.put e) [e] := .put h e
          have htwo : a.Extends ((a.put e).put c) [e, c] := hput.trans (.put hput.inside c)
          dsimp only
          rw [if_neg hmakes]
          exact ⟨⟨htwo.off, htwo.appended, htwo.inside, htwo.buf⟩, rfl⟩

theorem Append.code_inside {a : Append} (h : a.off + a.appended ≤ a.buf.length) (code : CStr) :
    (a.code code).off + (a.code code).appended ≤ (a.code code).buf.length := by
  unfold Append.code
  dsimp only
  by_cases hlen : a.strLen = 0
  · rw [if_pos hlen, hlen]
    exact h
  · rw [if_neg hlen, ← Nat.add_assoc]
    exact overwrite_text_inside [nul] h

/-- Neither the room nor the new line touches the escape that waits. -/
theorem Append.line_inside {a : Append} (h : a.off + a.appended ≤ a.buf.length) (code : CStr) :
    (a.line code).off + (a.line code).appended ≤ (a.line code).buf.length ∧
      (a.line code).saved = a.saved := by
  unfold Append.line
  split
  · obtain ⟨-, hoff, happended, -, hsaved⟩ := a.continueLine_rest
    exact ⟨Append.code_inside (by rw [hoff, happended, a.continueLine_length]; exact h) code, hsaved⟩
  · exact ⟨h, rfl⟩

/-- The text of the message is what the loop makes of its characters. -/
theorem Append.messageText_eq {a : Append} (h : a.off + a.appended ≤ a.buf.length)
    (srcAddr code fmt : CStr) : a.messageText srcAddr code fmt = loopText srcAddr a.saved fmt := by
  induction fmt generalizing a with
  | nil => rfl
  | cons c rest ih =>
    obtain ⟨hbuf, hoff, happended, hsaved⟩ := a.room_rest code
    have hroom : (a.room code).off + (a.room code).appended ≤ (a.room code).buf.length := by
      rw [hbuf, hoff, happended]
      exact h
    obtain ⟨hline, hsaved'⟩ := Append.line_inside hroom code
    obtain ⟨hchar, hwaits⟩ := Append.char_extends hline srcAddr c
    rw [hsaved', hsaved] at hchar hwaits
    show ((a.room code).line code).between (((a.room code).line code).char srcAddr c) ++
      (((a.room code).line code).char srcAddr c).messageText srcAddr code rest = _
    rw [hchar.between, ih hchar.inside, hwaits, loopText]

/-- The variables when the function is entered, with the last line of the text before marked. -/
def Append.opened (con : Con) (off lastLineCont : Nat) : Append :=
  Append.continueLine ⟨con.outBuf, con.outSize, off, 0, sizeSub con.outSize off, none,
    if off = 0 then 0 else lastLineCont⟩

/-- Room for the first response code. -/
def Append.startRoom (a : Append) (errorCode : CStr) : Append :=
  if a.strLen < errorCode.length + 1 then
    { a with size := a.size + conOutBufSize, strLen := sizeSub (a.size + conOutBufSize) a.off }
  else a

theorem Append.opened_rest (con : Con) (off llc : Nat) :
    (Append.opened con off llc).off = off ∧ (Append.opened con off llc).appended = 0 ∧
      (Append.opened con off llc).saved = none ∧
      (Append.opened con off llc).buf.length = con.outBuf.length := by
  obtain ⟨-, hoff, happended, -, hsaved⟩ := Append.continueLine_rest
    ⟨con.outBuf, con.outSize, off, 0, sizeSub con.outSize off, none, if off = 0 then 0 else llc⟩
  exact ⟨hoff, happended, hsaved, Append.continueLine_length _⟩

theorem Append.startRoom_rest (a : Append) (code : CStr) :
    (a.startRoom code).buf = a.buf ∧ (a.startRoom code).off = a.off ∧
      (a.startRoom code).appended = a.appended ∧ (a.startRoom code).saved = a.saved := by
  unfold Append.startRoom
  split <;> exact ⟨rfl, rfl, rfl, rfl⟩

theorem Append.start_eq (con : Con) (off llc : Nat) (code : CStr) :
    Append.start con off llc code = ((Append.opened con off llc).startRoom code).code code := by
  have hstart : Append.start con off llc code = (if (Append.opened con off llc).strLen < code.length + 1 then
      { Append.opened con off llc with
        size := (Append.opened con off llc).size + conOutBufSize
        strLen := sizeSub ((Append.opened con off llc).size + conOutBufSize) off }
    else Append.opened con off llc).code code := rfl
  have hoff : sizeSub ((Append.opened con off llc).size + conOutBufSize) off =
      sizeSub ((Append.opened con off llc).size + conOutBufSize) (Append.opened con off llc).off := by
    rw [(Append.opened_rest con off llc).1]
  rw [hstart, hoff, Append.startRoom]

theorem Append.start_inside (con : Con) {off : Nat} (h : off ≤ con.outBuf.length)
    (llc : Nat) (code : CStr) :
    (Append.start con off llc code).off + (Append.start con off llc code).appended ≤
      (Append.start con off llc code).buf.length ∧ (Append.start con off llc code).saved = none := by
  obtain ⟨hoff, happended, hsaved, hlen⟩ := Append.opened_rest con off llc
  obtain ⟨hbuf', hoff', happended', hsaved'⟩ := (Append.opened con off llc).startRoom_rest code
  rw [Append.start_eq]
  refine ⟨Append.code_inside ?_ code, hsaved'.trans hsaved⟩
  rw [hoff', happended', hbuf', hlen, hoff, happended]
  exact h

/-! ## The escapes, from left to right -/

/-- The message with its escapes replaced. -/
def expandEscapes (srcAddr : CStr) : CStr → CStr
  | [] => []
  | [c] => [c]
  | c :: d :: rest =>
    if IsEscape c ∧ d = c then c :: expandEscapes srcAddr rest
    else if MakesEscape c d then escapeText srcAddr d ++ expandEscapes srcAddr rest
    else c :: expandEscapes srcAddr (d :: rest)

/-- Each escape character is followed by itself or by one that is none. Where it is followed
by the other one, `some d`, the loop has forgotten that one: it has to come once more and
then be followed by an escape character or by one that makes no escape with it. -/
def resolves : Option Char → CStr → Bool
  | none, [] => true
  | none, [c] => ¬ IsEscape c
  | none, c :: d :: rest =>
    if ¬ IsEscape c then resolves none (d :: rest)
    else if IsEscape d ∧ d ≠ c then resolves (some d) rest
    else resolves none rest
  | some d, e :: f :: rest =>
    if e ≠ d ∨ MakesEscape d f then false
    else if IsEscape f then resolves (some f) rest
    else resolves none rest
  | some _, _ => false

/-- How the library prints a number for an address begins. -/
def NumericAddress (src : CStr) : Prop := ∃ c rest, src = c :: rest ∧ ((hexVal c).isSome ∨ c = ':')

section Escapes

variable {srcAddr : CStr} {c d e : Char} {rest : CStr}

theorem MakesEscape.not_escape (h : MakesEscape e c) : ¬ IsEscape c := by
  rcases h with ⟨-, rfl⟩ | ⟨-, rfl⟩ <;> decide

theorem MakesEscape.escape (h : MakesEscape e c) : IsEscape e := h.imp And.left And.left

theorem NumericAddress.escapeText (h : NumericAddress srcAddr) (hc : MakesEscape e c) :
    ∃ x more, escapeText srcAddr c = x :: more ∧ x ≠ c ∧ ¬ IsEscape x := by
  rcases hc with ⟨-, rfl⟩ | ⟨-, rfl⟩
  · exact ⟨'\n', [], rfl, by decide, by decide⟩
  · obtain ⟨x, more, rfl, hx⟩ := h
    refine ⟨x, more, rfl, ?_, ?_⟩
    · rintro rfl
      exact absurd hx (by decide)
    · rintro (rfl | rfl) <;> exact absurd hx (by decide)

theorem loopText_plain (hc : ¬ IsEscape c) : loopText srcAddr none (c :: rest) =
    c :: loopText srcAddr none rest := by
  rw [loopText, charText, if_neg hc]
  rfl

theorem loopText_escape (hc : IsEscape c) : loopText srcAddr none (c :: d :: rest) =
    (if IsEscape d then [c] else if MakesEscape c d then escapeText srcAddr d else [c, d]) ++
      loopText srcAddr none rest := by
  rw [loopText, charText, if_pos hc, loopText, charText]
  split <;> rfl

theorem expandEscapes_plain (hc : ¬ IsEscape c) : expandEscapes srcAddr (c :: rest) =
    c :: expandEscapes srcAddr rest := by
  cases rest with
  | nil => rfl
  | cons d rest =>
    rw [expandEscapes, if_neg fun h => hc h.1, if_neg fun h => hc h.escape]

theorem expandEscapes_foreign (hd : d ≠ c) (h : ¬ MakesEscape c d) :
    expandEscapes srcAddr (c :: d :: rest) = c :: expandEscapes srcAddr (d :: rest) := by
  rw [expandEscapes, if_neg fun h => hd h.2, if_neg h]

theorem expandEscapes_double (hc : IsEscape c) :
    expandEscapes srcAddr (c :: c :: rest) = c :: expandEscapes srcAddr rest := by
  rw [expandEscapes, if_pos ⟨hc, rfl⟩]

theorem expandEscapes_makesEscape (h : MakesEscape c d) :
    expandEscapes srcAddr (c :: d :: rest) = escapeText srcAddr d ++ expandEscapes srcAddr rest := by
  have hne : ¬ (IsEscape c ∧ d = c) := fun hdc => h.not_escape (hdc.2 ▸ hdc.1)
  rw [expandEscapes, if_neg hne, if_pos h]

/-- A text that is begun by another character does not begin with this escape character. -/
theorem loopText_ne (hsrc : NumericAddress srcAddr) (hd : IsEscape d) (hne : e ≠ d) (text : CStr) :
    loopText srcAddr none (e :: rest) ≠ d :: text := by
  by_cases he : IsEscape e
  · cases rest with
    | nil =>
      rw [loopText, charText, if_pos he]
      exact List.cons_ne_nil _ _ |>.symm
    | cons f rest =>
      rw [loopText_escape he]
      by_cases hf : IsEscape f
      · rw [if_pos hf]
        exact fun h => hne (List.cons.inj h).1
      · rw [if_neg hf]
        by_cases hcomp : MakesEscape e f
        · obtain ⟨x, more, htext, -, hx⟩ := hsrc.escapeText hcomp
          rw [if_pos hcomp, htext]
          exact fun h => hx ((List.cons.inj h).1 ▸ hd)
        · rw [if_neg hcomp]
          exact fun h => hne (List.cons.inj h).1
  · rw [loopText_plain he]
    exact fun h => hne (List.cons.inj h).1

/-- A forgotten escape character is missing, unless it comes once more. -/
theorem loopText_forgotten (hsrc : NumericAddress srcAddr) (hd : IsEscape d) (hne : e ≠ d) :
    loopText srcAddr none (e :: rest) ≠ expandEscapes srcAddr (d :: e :: rest) := by
  by_cases hcomp : MakesEscape d e
  · obtain ⟨x, more, htext, hx, -⟩ := hsrc.escapeText hcomp
    rw [loopText_plain hcomp.not_escape, expandEscapes_makesEscape hcomp, htext]
    exact fun h => hx (List.cons.inj h).1.symm
  · rw [expandEscapes_foreign hne hcomp]
    exact loopText_ne hsrc hd hne _

/-- The loop's text is the expanded message exactly if every escape is resolved. -/
theorem loopText_iff (hsrc : NumericAddress srcAddr) (fmt : CStr) :
    (loopText srcAddr none fmt = expandEscapes srcAddr fmt ↔ resolves none fmt = true) ∧
      ∀ d, IsEscape d → (loopText srcAddr none fmt = expandEscapes srcAddr (d :: fmt) ↔
        resolves (some d) fmt = true) := by
  induction fmt using List.twoStepInduction with
  | nil =>
    refine ⟨iff_of_true rfl rfl, fun d _ => iff_of_false ?_ (by simp [resolves])⟩
    exact (List.cons_ne_nil d []).symm
  | singleton c =>
    constructor
    · by_cases hc : IsEscape c
      · refine iff_of_false ?_ (by simp [resolves, hc])
        rw [loopText, charText, if_pos hc]
        exact (List.cons_ne_nil c []).symm
      · exact iff_of_true (loopText_plain hc) (by simp [resolves, hc])
    · intro d hd
      refine iff_of_false ?_ (by simp [resolves])
      by_cases hcd : c = d
      · subst hcd
        rw [expandEscapes_double hd, loopText, charText, if_pos hd]
        exact (List.cons_ne_nil c []).symm
      · exact loopText_forgotten hsrc hd hcd
  | cons_cons c d rest ih ihd =>
    constructor
    · by_cases hc : IsEscape c
      · rw [loopText_escape hc, resolves, if_neg (not_not_intro hc)]
        by_cases hd : IsEscape d
        · rw [if_pos hd]
          by_cases hdc : d = c
          · subst hdc
            rw [expandEscapes_double hc, if_neg fun h => h.2 rfl, ← ih.1]
            exact List.cons_inj_right d
          · rw [expandEscapes_foreign hdc fun h => h.not_escape hd, if_pos ⟨hd, hdc⟩, ← ih.2 d hd]
            exact List.cons_inj_right c
        · have hplain : ¬ (IsEscape d ∧ d ≠ c) := fun h => hd h.1
          rw [if_neg hd, if_neg hplain, ← ih.1]
          by_cases hcomp : MakesEscape c d
          · rw [if_pos hcomp, expandEscapes_makesEscape hcomp]
            exact List.append_right_inj _
          · have hdc : d ≠ c := fun h => hd (h ▸ hc)
            rw [if_neg hcomp, expandEscapes_foreign hdc hcomp, expandEscapes_plain hd]
            exact List.append_right_inj [c, d]
      · rw [loopText_plain hc, expandEscapes_plain hc, resolves, if_pos hc, ← (ihd d).1]
        exact List.cons_inj_right c
    · intro x hx
      by_cases hcx : c = x
      · subst hcx
        rw [loopText_escape hx, expandEscapes_double hx, resolves]
        by_cases hcomp : MakesEscape c d
        · obtain ⟨y, more, htext, -, hy⟩ := hsrc.escapeText hcomp
          rw [if_neg hcomp.not_escape, if_pos hcomp, if_pos (.inr hcomp), htext]
          refine iff_of_false (fun h => hy ?_) (by decide)
          rw [(List.cons.inj h).1]
          exact hx
        · rw [if_neg hcomp, if_neg (not_or.mpr ⟨not_not_intro rfl, hcomp⟩)]
          by_cases hd : IsEscape d
          · rw [if_pos hd, if_pos hd, ← ih.2 d hd]
            exact List.cons_inj_right c
          · rw [if_neg hd, if_neg hd, expandEscapes_plain hd, ← ih.1]
            exact List.append_right_inj [c, d]
      · refine iff_of_false (loopText_forgotten hsrc hx hcx) ?_
        rw [resolves, if_pos (.inl hcx)]
        decide

end Escapes

/-- The text of a message is the message with its escapes replaced, exactly if every escape
is resolved. -/
theorem messageText_expanded_iff (con : Con) {off : Nat} (hoff : off ≤ con.outBuf.length)
    (hsrc : NumericAddress con.srcAddr) (fmt errorCode : CStr) (lastLineCont : Nat) :
    (Append.start con off lastLineCont errorCode).messageText con.srcAddr errorCode fmt =
        expandEscapes con.srcAddr fmt ↔ resolves none fmt = true := by
  obtain ⟨hinside, hsaved⟩ := Append.start_inside con hoff lastLineCont errorCode
  rw [Append.messageText_eq hinside, hsaved]
  exact (loopText_iff hsrc fmt).1

def escapeCon : Con := { Con.zero with outSize := conOutBufSize, srcAddr := "10.0.0.2".toList }

theorem messageText_expanded_listed :
    (Append.start escapeCon 0 0 "450".toList).messageText escapeCon.srcAddr "450".toList
        "%A\\nis 100%% listed".toList = expandEscapes escapeCon.srcAddr "%A\\nis 100%% listed".toList ↔
      resolves none "%A\\nis 100%% listed".toList = true :=
  messageText_expanded_iff escapeCon (Nat.zero_le _) ⟨'1', _, rfl, .inl rfl⟩ _ _ 0

/-- The message `100%`: the percent sign at its end is dropped. -/
theorem messageText_truncated :
    (Append.start escapeCon 0 0 "450".toList).messageText escapeCon.srcAddr "450".toList
        "100%".toList ≠ expandEscapes escapeCon.srcAddr "100%".toList := by
  decide +kernel

end Greyd
