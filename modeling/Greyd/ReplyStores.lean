import Mathlib.Tactic
import Greyd.MessageEscapes

/-!
# The stores of the reply (con.c)

How far behind the end of the text each store of `Con_append_error_string` reaches, and what
each leaves of the sizes. The buffer of the model is the bytes written so far, so its length
is how far all stores have reached.
-/
namespace Greyd

/-- Does a text end in a newline once this is behind it? -/
def textEnds (ended : Bool) (text : CStr) : Bool := text.getLast?.elim ended (· = '\n')

section Stores

variable {a b : Append} {srcAddr code : CStr}

/-! ## Characters and codes -/

/-- How far the stores for a character reach. -/
def charReach (srcAddr : CStr) (saved : Option Char) (c : Char) : Nat :=
  if saved = some '%' ∧ c = 'A' then inet6AddrStrlen else (charText srcAddr saved c).1.length + 1

theorem Append.char_rest (a : Append) (srcAddr : CStr) (c : Char) :
    (a.char srcAddr c).size = a.size ∧ (a.char srcAddr c).strLen = a.strLen ∧
      (a.char srcAddr c).lastLineCont = a.lastLineCont := by
  unfold Append.char
  split
  · split <;> exact ⟨rfl, rfl, rfl⟩
  · split
    · exact ⟨rfl, rfl, rfl⟩
    · split
      · exact ⟨rfl, rfl, rfl⟩
      · split <;> exact ⟨rfl, rfl, rfl⟩

/-- A NUL stands behind the text, and the mark in front of it. -/
structure Append.Ended (a : Append) : Prop where
  nul : a.off + a.appended < a.buf.length
  mark : a.lastLineCont < a.buf.length
  begun : 1 ≤ a.appended

theorem Append.Ended.inside (h : a.Ended) : a.off + a.appended ≤ a.buf.length := h.nul.le

theorem Append.put_length (h : a.off + a.appended ≤ a.buf.length) (c : Char) :
    (a.put c).buf.length = max a.buf.length (a.off + a.appended + 2) := overwrite_length _ h

/-- The buffer is as long as the stores for a character have reached. -/
theorem Append.char_length (hnul : a.off + a.appended < a.buf.length)
    (hsrc : srcAddr.length < inet6AddrStrlen) (c : Char) :
    (a.char srcAddr c).buf.length =
      max a.buf.length (a.off + a.appended + charReach srcAddr a.saved c) := by
  have hin := hnul.le
  unfold Append.char charReach charText
  by_cases hc : c = '\\' ∨ c = '%'
  · have hA : ¬ (a.saved = some '%' ∧ c = 'A') := by
      intro hA
      rw [hA.2] at hc
      exact absurd hc (by decide)
    rw [if_pos hc, if_neg hA, if_pos (show IsEscape c from hc)]
    cases hsaved : a.saved with
    | none => exact (Nat.max_eq_left hnul).symm
    | some e => exact a.put_length hin e
  · rw [if_neg hc, if_neg (show ¬ IsEscape c from hc)]
    by_cases hn : a.saved = some '\\' ∧ c = 'n'
    · have hA : ¬ (a.saved = some '%' ∧ c = 'A') := by
        intro hA
        exact absurd (hn.2.symm.trans hA.2) (by decide)
      rw [if_pos hn, if_neg hA, hn.1, hn.2]
      exact a.put_length hin '\n'
    · rw [if_neg hn]
      by_cases hA : a.saved = some '%' ∧ c = 'A'
      · rw [if_pos hA, if_pos hA]
        show (overwrite a.buf _ _).length = _
        rw [overwrite_length _ hin, List.length_append, List.length_replicate,
          Nat.add_sub_cancel' hsrc.le]
      · rw [if_neg hA, if_neg hA]
        cases hsaved : a.saved with
        | none => exact a.put_length hin c
        | some e =>
          have hmakes : ¬ MakesEscape e c := by
            rw [hsaved, Option.some.injEq] at hn hA
            exact not_or.mpr ⟨hn, hA⟩
          have hput : (a.put e).off + (a.put e).appended ≤ (a.put e).buf.length :=
            (Append.Extends.put hin e).inside
          have htwo := (a.put e).put_length hput c
          rw [a.put_length hin e] at htwo
          dsimp only
          rw [if_neg hmakes, htwo]
          show max (max _ _) (a.off + (a.appended + 1) + 2) = max _ (a.off + a.appended + (2 + 1))
          omega

/-- What one step of the loop does to the sizes: this text behind the one before, stores that
reach this far behind the end of the text, and no growth. -/
structure Append.Grows (a b : Append) (text : CStr) (reach : Nat) : Prop where
  off : b.off = a.off
  size : b.size = a.size
  strLen : b.strLen = a.strLen
  appended : b.appended = a.appended + text.length
  length : b.buf.length = max a.buf.length (a.off + a.appended + reach)
  last : decide (b.last = '\n') = textEnds (decide (a.last = '\n')) text

theorem Append.Grows.ended {text : CStr} {reach : Nat} (h : a.Ended) (hg : a.Grows b text reach)
    (hreach : text.length < reach) (hmark : b.lastLineCont < b.buf.length) : b.Ended := by
  have hbegun := h.begun
  have happended := hg.appended
  refine ⟨?_, hmark, by omega⟩
  rw [hg.off, hg.length]
  omega

theorem getD_eq_getLast? {buf : List Char} {n : Nat} (hn : 0 < n) (h : n ≤ buf.length) :
    buf.getD (n - 1) nul = (buf.take n).getLast?.getD nul := by
  rw [List.getLast?_take, if_neg hn.ne', List.getD_eq_getElem?_getD]
  have hget : n - 1 < buf.length := by omega
  rw [List.getElem?_eq_getElem hget]
  rfl

theorem Append.Extends.last_eq {text : CStr} (h : a.Extends b text) (hbegun : 1 ≤ b.appended) :
    b.last = ((a.buf.take (a.off + a.appended) ++ text).getLast?).getD nul := by
  rw [← h.buf]
  exact getD_eq_getLast? (by omega) h.inside

theorem Append.Extends.last {text : CStr} (h : a.Extends b text)
    (ha : a.off + a.appended ≤ a.buf.length) (hbegun : 1 ≤ a.appended) :
    decide (b.last = '\n') = textEnds (decide (a.last = '\n')) text := by
  have happended := h.appended
  have hlast : a.last = ((a.buf.take (a.off + a.appended)).getLast?).getD nul :=
    getD_eq_getLast? (by omega) ha
  rw [h.last_eq (by omega), hlast, List.getLast?_append, textEnds]
  cases text.getLast? with
  | none => rfl
  | some c => rfl

theorem textEnds_of_ne {text : CStr} (hne : text ≠ []) (ended ended' : Bool) :
    textEnds ended text = textEnds ended' text := by
  obtain ⟨c, hc⟩ := Option.ne_none_iff_exists'.mp (mt List.getLast?_eq_none_iff.mp hne)
  rw [textEnds, textEnds, hc]
  rfl

/-- Behind a text the text alone decides. -/
theorem Append.Extends.last_of_ne {text : CStr} (h : a.Extends b text) (hne : text ≠ []) :
    decide (b.last = '\n') = textEnds false text := by
  have hpos := List.length_pos_of_ne_nil hne
  have happended := h.appended
  rw [h.last_eq (by omega), List.getLast?_append, textEnds]
  obtain ⟨c, hc⟩ := Option.ne_none_iff_exists'.mp (mt List.getLast?_eq_none_iff.mp hne)
  rw [hc]
  rfl

theorem Append.char_grows (h : a.Ended) (hsrc : srcAddr.length < inet6AddrStrlen) (c : Char) :
    a.Grows (a.char srcAddr c) (charText srcAddr a.saved c).1 (charReach srcAddr a.saved c) := by
  obtain ⟨hext, -⟩ := Append.char_extends h.inside srcAddr c
  obtain ⟨hsize, hlen, -⟩ := a.char_rest srcAddr c
  exact ⟨hext.off, hsize, hlen, hext.appended, Append.char_length h.nul hsrc c,
    hext.last h.inside h.begun⟩

theorem charText_lt_reach (hsrc : srcAddr.length < inet6AddrStrlen) (saved : Option Char) (c : Char) :
    (charText srcAddr saved c).1.length < charReach srcAddr saved c := by
  unfold charReach
  split
  · next hA =>
    obtain ⟨rfl, rfl⟩ := hA
    exact hsrc
  · exact Nat.lt_succ_self _

theorem Append.char_ended (h : a.Ended) (hsrc : srcAddr.length < inet6AddrStrlen) (c : Char) :
    (a.char srcAddr c).Ended := by
  have hg := Append.char_grows h hsrc c
  have hmark := h.mark
  refine hg.ended h (charText_lt_reach hsrc _ c) ?_
  rw [(a.char_rest srcAddr c).2.2, hg.length]
  omega

/-- The response code that begins a line, where one is due. -/
def Append.lineCode (a : Append) (errorCode : CStr) : CStr :=
  if a.last = '\n' then snprintf a.strLen (errorCode ++ [' ']) else []

theorem Append.code_buf (a : Append) (hlen : a.strLen ≠ 0) (code : CStr) : (a.code code).buf =
    overwrite a.buf (a.off + a.appended) (snprintf a.strLen (code ++ [' ']) ++ [nul]) := by
  show (if a.strLen = 0 then _ else _) = _
  rw [if_neg hlen]

theorem Append.code_length (h : a.off + a.appended ≤ a.buf.length) (hlen : a.strLen ≠ 0) (code : CStr) :
    (a.code code).buf.length = max a.buf.length
      (a.off + a.appended + ((snprintf a.strLen (code ++ [' '])).length + 1)) := by
  rw [a.code_buf hlen, overwrite_length _ h, List.length_append, List.length_singleton]

theorem Append.code_extends (h : a.off + a.appended ≤ a.buf.length) (hlen : a.strLen ≠ 0) (code : CStr) :
    a.Extends (a.code code) (snprintf a.strLen (code ++ [' '])) :=
  .store h [nul] rfl rfl (a.code_buf hlen code)

theorem Append.line_grows (h : a.Ended) (hlen : a.strLen ≠ 0)
    (hne : snprintf a.strLen (code ++ [' ']) ≠ []) :
    a.Grows (a.line code) (a.lineCode code) ((a.lineCode code).length + 1) ∧ (a.line code).Ended := by
  have hnul := h.nul
  unfold Append.line Append.lineCode
  split
  · next hlast =>
    have hlast : a.last = '\n' := hlast
    rw [if_pos hlast]
    obtain ⟨hsize, hoff, happended, hlen', -⟩ := a.continueLine_rest
    have hin : a.continueLine.off + a.continueLine.appended ≤ a.continueLine.buf.length := by
      rw [hoff, happended, a.continueLine_length]
      exact h.inside
    have hext := a.continueLine.code_extends hin (hlen' ▸ hlen) code
    have hlength := a.continueLine.code_length hin (hlen' ▸ hlen) code
    rw [hlen', hoff, happended, a.continueLine_length] at hlength
    rw [hlen'] at hext
    have hgrows : a.Grows (a.continueLine.code code) (snprintf a.strLen (code ++ [' ']))
        ((snprintf a.strLen (code ++ [' '])).length + 1) := by
      refine ⟨hoff, hsize, hlen', ?_, hlength, ?_⟩
      · rw [hext.appended, happended]
      · rw [hext.last_of_ne hne]
        exact textEnds_of_ne hne _ _
    refine ⟨hgrows, hgrows.ended h (Nat.lt_succ_self _) ?_⟩
    have happended' := hext.appended
    show a.continueLine.off + (a.continueLine.code code).appended - 1 < _
    rw [hlength, happended', hoff, happended]
    omega
  · next hlast =>
    have hlast : ¬ a.last = '\n' := hlast
    rw [if_neg hlast]
    exact ⟨⟨rfl, rfl, rfl, rfl, (Nat.max_eq_left hnul).symm, rfl⟩, h⟩

theorem snprintf_ne_nil (code : CStr) {n : Nat} (hn : 2 ≤ n) : snprintf n (code ++ [' ']) ≠ [] := by
  refine List.ne_nil_of_length_pos ?_
  rw [snprintf, List.length_take, List.length_append, List.length_singleton]
  omega

theorem snprintf_code_length (code : CStr) (n : Nat) :
    (snprintf n (code ++ [' '])).length ≤ code.length + 1 := by
  rw [snprintf, List.length_take, List.length_append]
  exact Nat.min_le_right _ _

theorem charReach_le (srcAddr : CStr) (saved : Option Char) (c : Char) :
    charReach srcAddr saved c ≤ inet6AddrStrlen := by
  unfold charReach
  split
  · exact Nat.le_refl _
  · next hA =>
    have hshort : (charText srcAddr saved c).1.length ≤ 2 := by
      unfold charText
      split
      · split <;> simp
      · split
        · simp
        · split
          · next hmakes =>
            rcases hmakes with ⟨-, rfl⟩ | ⟨rfl, rfl⟩
            · simp [escapeText]
            · exact absurd ⟨rfl, rfl⟩ hA
          · simp
    exact (Nat.succ_le_succ hshort).trans (by decide)

theorem Append.lineCode_length (a : Append) (code : CStr) : (a.lineCode code).length ≤ code.length + 1 := by
  unfold Append.lineCode
  split
  · exact snprintf_code_length code _
  · exact Nat.zero_le _

theorem Append.run_append (a : Append) (srcAddr code done rest : CStr) :
    a.run srcAddr code (done ++ rest) = (a.run srcAddr code done).run srcAddr code rest := by
  induction done generalizing a with
  | nil => rfl
  | cons c done ih => exact ih _

theorem Append.line_size (a : Append) (code : CStr) : (a.line code).size = a.size := by
  unfold Append.line
  split
  · exact a.continueLine_rest.1
  · rfl

theorem Append.run_size (a : Append) (srcAddr code fmt : CStr) : a.size ≤ (a.run srcAddr code fmt).size := by
  induction fmt generalizing a with
  | nil => exact Nat.le_refl _
  | cons c rest ih =>
    have hroom : a.size ≤ (a.room code).size := by
      unfold Append.room
      dsimp only
      split
      · exact Nat.le_add_right _ _
      · exact Nat.le_refl _
    refine hroom.trans ?_
    rw [← Append.line_size (a.room code) code, ← (((a.room code).line code).char_rest srcAddr c).1]
    exact ih _

theorem Append.line_saved (a : Append) (code : CStr) : (a.line code).saved = a.saved := by
  unfold Append.line
  split
  · exact a.continueLine_rest.2.2.2.2
  · rfl

end Stores

section Blacklists

variable {con : Con} {off llc : Nat} {code : CStr}

/-! ## One turn of the loop over the lists -/

/-- What is left of the buffer for a list's text. -/
theorem Append.opened_sizes (con : Con) (h : off ≤ con.outSize) (hsize : con.outSize < 2 ^ 64) (llc : Nat) :
    (Append.opened con off llc).size = con.outSize ∧
      (Append.opened con off llc).strLen = con.outSize - off := by
  obtain ⟨hsize', -, -, hlen, -⟩ := Append.continueLine_rest
    ⟨con.outBuf, con.outSize, off, 0, sizeSub con.outSize off, none, if off = 0 then 0 else llc⟩
  exact ⟨hsize', hlen.trans (sizeSub_of_le h hsize)⟩

/-- The response code that begins a list's text. -/
theorem Append.code_begins {a : Append} (h : a.off + a.appended ≤ a.buf.length)
    (happended : a.appended = 0) (hlen : 2 ≤ a.strLen) (code : CStr) :
    (a.code code).Ended ∧ decide ((a.code code).last = '\n') =
      textEnds false (snprintf a.strLen (code ++ [' '])) := by
  have hcodeNe := snprintf_ne_nil code hlen
  have hpos := List.length_pos_of_ne_nil hcodeNe
  have hext := a.code_extends h (by omega) code
  have hlength := a.code_length h (by omega) code
  refine ⟨⟨?_, ?_, ?_⟩, hext.last_of_ne hcodeNe⟩
  · rw [hlength, hext.off, hext.appended]
    omega
  · show a.off + (a.appended + _) - 1 < _
    rw [hlength]
    omega
  · rw [hext.appended]
    omega

theorem conAppendErrorString_size (h : off ≤ con.outSize) (hsize : con.outSize < 2 ^ 64) (llc : Nat)
    (message code : CStr) : con.outSize ≤ (conAppendErrorString con off message code llc).size := by
  have hstart : con.outSize ≤ (Append.start con off llc code).size := by
    obtain ⟨hsize', -⟩ := Append.opened_sizes con h hsize llc
    rw [Append.start_eq]
    show _ ≤ ((Append.opened con off llc).startRoom code).size
    unfold Append.startRoom
    split
    · exact hsize'.ge.trans (Nat.le_add_right _ _)
    · exact hsize'.ge
  exact hstart.trans (Append.run_size _ _ _ _)

theorem replyBlacklist_ended {blacklist : Blacklist} {a : Append}
    (ha : conAppendErrorString con off blacklist.message code llc = a) (hoff : a.off = off)
    (hlast : a.last = '\n') : replyBlacklist code (con, off, llc) blacklist =
      ({ con with outBuf := a.buf, outSize := a.size }, off + a.appended, a.lastLineCont) := by
  have hlast : a.buf.getD (off + a.appended - 1) nul = '\n' := hoff ▸ hlast
  unfold replyBlacklist
  dsimp only
  rw [ha, if_neg (not_not_intro hlast)]

theorem replyBlacklist_open {blacklist : Blacklist} {a : Append}
    (ha : conAppendErrorString con off blacklist.message code llc = a) (hoff : a.off = off)
    (hlast : a.last ≠ '\n') : ∃ con', replyBlacklist code (con, off, llc) blacklist =
        (con', off + a.appended + 1, a.lastLineCont) ∧
      con'.outBuf = overwrite a.buf (off + a.appended) ['\n', nul] ∧
      con'.outSize = if (con.outSize : Int) - off - a.appended < 1 then a.size + conOutBufSize else a.size := by
  have hlast : a.buf.getD (off + a.appended - 1) nul ≠ '\n' := hoff ▸ hlast
  unfold replyBlacklist
  dsimp only
  rw [ha, if_pos hlast]
  refine ⟨_, rfl, ?_, ?_⟩
  · split <;> rfl
  · split <;> rfl

end Blacklists

/-! ## All turns -/

/-- A property of each turn of the loop over the blacklists. -/
def EachTurn (errorCode : CStr) (property : Con × Nat × Nat → Blacklist → Prop)
    (st : Con × Nat × Nat) (blacklists : List Blacklist) : Prop :=
  ∀ front blacklist back, blacklists = front ++ blacklist :: back →
    property (front.foldl (replyBlacklist errorCode) st) blacklist

theorem eachTurn_nil (code : CStr) (property : Con × Nat × Nat → Blacklist → Prop)
    (st : Con × Nat × Nat) : EachTurn code property st [] := by
  intro front blacklist back h
  exact absurd h.symm (by simp)

theorem eachTurn_cons (code : CStr) (property : Con × Nat × Nat → Blacklist → Prop)
    (st : Con × Nat × Nat) (blacklist : Blacklist) (rest : List Blacklist) :
    EachTurn code property st (blacklist :: rest) ↔
      property st blacklist ∧ EachTurn code property (replyBlacklist code st blacklist) rest := by
  constructor
  · intro h
    exact ⟨h [] blacklist rest rfl, fun front next back hrest =>
      h (blacklist :: front) next back (congrArg (blacklist :: ·) hrest)⟩
  · intro ⟨hfirst, hrest⟩ front next back h
    cases front with
    | nil =>
      obtain ⟨rfl, rfl⟩ := List.cons.inj h
      exact hfirst
    | cons _ front =>
      obtain ⟨rfl, rfl⟩ := List.cons.inj h
      exact hrest front next back rfl

end Greyd
