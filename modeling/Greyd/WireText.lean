import Mathlib.Tactic
import Greyd.OutputWindow

/-!
# Line endings on the wire (con.c)

`Con_handle_write` sends the text of the output buffer in pieces, one byte at a time or as
many as are left, and is meant to send a CR in front of each newline that has none. It looks
at the first byte of a piece only, both for the newline and for the CR it remembers.
-/
namespace Greyd

/-! ## Texts with line endings -/

/-- The text with a CR in front of each newline that has none; `cr`: there is one in front of
the text. -/
def crlf (cr : Bool) : CStr → List Char
  | [] => []
  | c :: rest => (if c = '\n' ∧ cr = false then ['\r'] else []) ++ c :: crlf (c = '\r') rest

/-- Whether there is a CR behind the text. -/
def endsInCr (cr : Bool) : CStr → Bool
  | [] => cr
  | c :: rest => endsInCr (c = '\r') rest

/-- Each newline but a first one has a CR. -/
def NoBareNewline (piece : CStr) : Prop := piece.IsChain fun a b => b = '\n' → a = '\r'

theorem crlf_append (cr : Bool) (a b : CStr) :
    crlf cr (a ++ b) = crlf cr a ++ crlf (endsInCr cr a) b := by
  induction a generalizing cr with
  | nil => rfl
  | cons c a ih =>
    rw [List.cons_append, crlf, crlf, ih, endsInCr, List.append_assoc, List.cons_append]

theorem endsInCr_append (cr : Bool) (a b : CStr) :
    endsInCr cr (a ++ b) = endsInCr (endsInCr cr a) b := by
  induction a generalizing cr with
  | nil => rfl
  | cons c a ih => exact ih _

theorem endsInCr_eq (cr : Bool) {text : CStr} (hne : text ≠ []) :
    endsInCr cr text = decide (text.getLast? = some '\r') := by
  induction text generalizing cr with
  | nil => exact absurd rfl hne
  | cons c rest ih =>
    cases rest with
    | nil => simp [endsInCr]
    | cons d rest =>
      rw [List.getLast?_cons_cons]
      exact ih (c = '\r') (List.cons_ne_nil d rest)

/-- Behind the first byte nothing has to be inserted. -/
theorem crlf_piece (cr : Bool) {c : Char} {rest : CStr} (h : NoBareNewline (c :: rest)) :
    crlf cr (c :: rest) = (if c = '\n' ∧ cr = false then ['\r'] else []) ++ c :: rest := by
  induction rest generalizing c cr with
  | nil => rfl
  | cons d rest ih =>
    obtain ⟨hd, hrest⟩ := List.isChain_cons_cons.mp h
    have hnone : ¬ (d = '\n' ∧ decide (c = '\r') = false) := fun hn =>
      of_decide_eq_false hn.2 (hd hn.1)
    rw [crlf, ih _ hrest, if_neg hnone]
    rfl

/-! ## The calls of Con_handle_write -/

/-- The piece of the text that a call writes. -/
def Con.piece (con : Con) (result : WriteResult) : CStr :=
  (con.outBuf.drop con.outP).take result.text.toNat

/-- What the client gets from a call whose writes succeed. -/
def Con.delivered (con : Con) (result : WriteResult) : List Char :=
  (if con.outBuf.getD con.outP nul = '\n' ∧ !con.seenCr then ['\r'] else []) ++ con.piece result

/-- Both calls of `write` have written something. -/
structure WriteResult.Succeeds (result : WriteResult) : Prop where
  cr : result.cr = 1
  text : 1 ≤ result.text

/-- A connection with the texts that have been put into its output buffer, one behind the
other, what is left to write of the last one, the pieces written and what the client has
received. -/
structure Wire where
  con : Con
  texts : CStr
  left : CStr
  pieces : List CStr
  received : List Char

/-- Texts are put into the buffer when the last one is written; `Con_handle_write` is called
while some is left. Between the calls the daemon's state may change. -/
inductive WireRun (env : ConEnv) : Wire → Prop
  | start {con : Con} : con.seenCr = false → WireRun env ⟨con, [], [], [], []⟩
  | place {w : Wire} {con : Con} : WireRun env w → w.left = [] → con.Windowed →
      con.seenCr = w.con.seenCr →
      WireRun env { w with con := con, texts := w.texts ++ cstr con.outBuf, left := cstr con.outBuf }
  | write {w : Wire} {now : Int} {nat : NatReply} {result : WriteResult} {state : GreydState} :
      WireRun env w → w.left ≠ [] → ConAct.Enabled (.write result) now w.con state →
      result.Succeeds → WireRun env
        { con := (conHandleWrite env now nat result w.con state).1
          texts := w.texts
          left := w.left.drop result.text.toNat
          pieces := w.pieces ++ [w.con.piece result]
          received := w.received ++ w.con.delivered result }

/-- A piece that begins with a newline follows on one whose first byte tells whether its last
one is a CR. -/
def FlagRight (before piece : CStr) : Prop :=
  piece.head? = some '\n' → (before.head? = some '\r' ↔ before.getLast? = some '\r')

/-- How the text is cut does no harm. -/
structure CleanPieces (pieces : List CStr) : Prop where
  inside : ∀ piece ∈ pieces, NoBareNewline piece
  between : pieces.IsChain FlagRight

/-- One byte at a time does none. -/
theorem cleanPieces_stuttered {pieces : List CStr} (h : ∀ piece ∈ pieces, piece.length = 1) :
    CleanPieces pieces := by
  have hone : ∀ piece ∈ pieces, ∃ c, piece = [c] := fun piece hp => List.length_eq_one_iff.mp (h piece hp)
  refine ⟨fun piece hp => ?_, ?_⟩
  · obtain ⟨c, rfl⟩ := hone piece hp
    exact List.isChain_singleton c
  · refine (List.pairwise_of_forall_mem_list fun before hb _ _ _ => ?_).isChain
    obtain ⟨c, rfl⟩ := hone before hb
    exact Iff.rfl

/-! ## What a call sends -/

section Calls

variable {env : ConEnv} {now : Int} {nat : NatReply} {con : Con} {state : GreydState}
  {result : WriteResult}

theorem conWrite_succeeds (h : result.Succeeds) : conWrite con state result =
    ((con.sawCr (decide (con.outBuf.getD con.outP nul = '\r'))).sent result.text, state) := by
  have hcr := h.cr
  have htext := h.text
  unfold conWrite
  dsimp only
  rw [if_neg (by omega), if_neg (by omega)]
  rfl

theorem NextStep.seenCr {next : Con × GreydState} (h : NextStep env now nat con state next) :
    next.1.seenCr = con.seenCr := by
  have hdone (c : Con) : (conDone now c state).1.seenCr = c.seenCr := by
    obtain ⟨_, _, _, _, hdone⟩ := conDone_frame now c state
    rw [hdone]
  cases h with
  | refused _ _ => exact hdone _
  | dataReply _ _ => exact hdone _
  | badCmd _ => exact hdone _
  | bodyEnd _ => exact hdone _
  | reply _ => exact hdone _
  | grey _ _ _ =>
    obtain ⟨dst, hnat⟩ := conGetOrigDst_frame (con.takeRcpt.reply "250 OK\r\n".toList .rcptOut now)
      state nat
    rw [hnat]
    rfl
  | stay _ hcon _ => rcases hcon with rfl | rfl <;> rfl
  | _ => rfl

/-- A call that succeeds remembers whether the first byte of its piece is a CR. Where it
leaves some of the text, it leaves the buffer as it is. -/
theorem conHandleWrite_sent (hw : con.w ≠ 0) (h : result.Succeeds) :
    (conHandleWrite env now nat result con state).1.seenCr =
        decide (con.outBuf.getD con.outP nul = '\r') ∧
      (con.outRemaining ≠ result.text →
        (conHandleWrite env now nat result con state).1.outBuf = con.outBuf ∧
        (conHandleWrite env now nat result con state).1.outP = con.outP + result.text.toNat ∧
        (conHandleWrite env now nat result con state).1.outRemaining = con.outRemaining - result.text) := by
  obtain ⟨stutter, hsettled⟩ := con.settleStutter_frame now state
  rw [conHandleWrite_eq env now nat result con state hw, conWrite_succeeds h, hsettled]
  dsimp only [Con.sent, Con.sawCr]
  by_cases hdone : con.outRemaining - result.text = 0
  · rw [if_pos hdone]
    exact ⟨(conNextState_step _ _ _ _ _).seenCr, fun hne => absurd (by omega) hne⟩
  · rw [if_neg hdone]
    exact ⟨rfl, fun _ => ⟨rfl, rfl, rfl⟩⟩

end Calls

/-! ## Runs -/

/-- Where a run stands: what is left of the text is what the output window shows, and the
flag is that of the last piece. -/
structure Wire.Sound (w : Wire) : Prop where
  texts : w.texts = w.pieces.flatten ++ w.left
  window : w.left ≠ [] → w.con.outRemaining = w.left.length ∧
    w.left = (cstr w.con.outBuf).drop w.con.outP
  flag : w.con.seenCr = decide ((w.pieces.getLast?.getD []).head? = some '\r')
  whole : ∀ piece ∈ w.pieces, piece ≠ []

/-- The bytes of a C string are those of the buffer. -/
theorem drop_cstr {buf : List Char} {p n : Nat} (h : p + n ≤ (cstr buf).length) :
    (buf.drop p).take n = ((cstr buf).drop p).take n := by
  have hfront : cstr buf = buf.take (cstr buf).length :=
    List.prefix_iff_eq_take.mp (List.takeWhile_prefix _)
  rw [hfront, List.drop_take, List.take_take, Nat.min_eq_left (by omega)]

namespace Wire.Sound

variable {w : Wire} {now : Int} {result : WriteResult} {state : GreydState}

/-- A call writes the next piece of what is left. -/
theorem piece (h : w.Sound) (hleft : w.left ≠ []) (henabled : ConAct.Enabled (.write result) now w.con state)
    (hok : result.Succeeds) : w.con.piece result = w.left.take result.text.toNat ∧
      w.con.piece result ≠ [] ∧ result.text ≤ w.left.length ∧
      (w.con.piece result).head? = some (w.con.outBuf.getD w.con.outP nul) := by
  obtain ⟨hremaining, hwindow⟩ := h.window hleft
  have hpos : 0 < w.left.length := List.length_pos_of_ne_nil hleft
  have htext := hok.text
  have hfew : result.text ≤ w.left.length := by
    have hasked := henabled.2.2.2.2
    have hsame : (w.con.settleStutter now state).outRemaining = w.con.outRemaining := by
      obtain ⟨stutter, hsettled⟩ := w.con.settleStutter_frame now state
      rw [hsettled]
    have hle := @toBeWritten_le (w.con.settleStutter now state) state (by omega)
    omega
  have hlen := congrArg List.length hwindow
  rw [List.length_drop] at hlen
  have hpiece : w.con.piece result = w.left.take result.text.toNat := by
    rw [Con.piece, drop_cstr (by omega), ← hwindow]
  have hne : w.con.piece result ≠ [] := by
    rw [hpiece, ← List.length_pos_iff, List.length_take]
    omega
  refine ⟨hpiece, hne, hfew, ?_⟩
  obtain ⟨n, hn⟩ : ∃ n, result.text.toNat = n + 1 := ⟨result.text.toNat - 1, by omega⟩
  have hinside : w.con.outP < w.con.outBuf.length := by
    have hshort : (cstr w.con.outBuf).length ≤ w.con.outBuf.length := (List.takeWhile_prefix _).length_le
    omega
  rw [Con.piece, hn, List.head?_take, if_neg (Nat.succ_ne_zero n), List.head?_drop,
    List.getElem?_eq_getElem hinside, List.getD_eq_getElem _ _ hinside]

/-- Where the flag is right for the next piece, it tells whether the text so far ends in a CR. -/
theorem flag_eq (h : w.Sound) {piece : CStr} (hhead : piece.head? = some '\n')
    (hright : ∀ before ∈ w.pieces.getLast?, FlagRight before piece) :
    w.con.seenCr = endsInCr false w.pieces.flatten := by
  rw [h.flag]
  rcases List.eq_nil_or_concat w.pieces with hnone | ⟨front, last, hpieces⟩
  · rw [hnone]
    rfl
  · rw [List.concat_eq_append] at hpieces
    have hlast : w.pieces.getLast? = some last := by rw [hpieces, List.getLast?_concat]
    have hne : last ≠ [] := h.whole last (List.mem_of_getLast? hlast)
    rw [hlast, hpieces, List.flatten_append, List.flatten_singleton, endsInCr_append,
      endsInCr_eq _ hne, decide_eq_decide]
    exact hright last hlast hhead

end Wire.Sound

theorem WireRun.sound {env : ConEnv} {w : Wire} (h : WireRun env w) : w.Sound := by
  induction h with
  | start hcr => exact ⟨rfl, fun hne => absurd rfl hne, hcr, by simp⟩
  | @place w con _ hleft hwindow hcr ih =>
    refine ⟨?_, fun _ => ⟨hwindow.whole, by rw [hwindow.start]; rfl⟩, hcr.trans ih.flag, ih.whole⟩
    have htexts := ih.texts
    rw [hleft, List.append_nil] at htexts
    exact congrArg (· ++ cstr con.outBuf) htexts
  | @write w now nat result state _ hleft henabled hok ih =>
    obtain ⟨hpiece, hne, hfew, hhead⟩ := ih.piece hleft henabled hok
    obtain ⟨hremaining, hwindow⟩ := ih.window hleft
    obtain ⟨hflag, hmore⟩ := @conHandleWrite_sent env now nat w.con state result henabled.2.1 hok
    have htext := hok.text
    refine ⟨?_, fun hrest => ?_, ?_, ?_⟩
    · show w.texts = (w.pieces ++ [w.con.piece result]).flatten ++ w.left.drop result.text.toNat
      rw [ih.texts, hpiece, List.flatten_append, List.flatten_singleton, List.append_assoc,
        List.take_append_drop]
    · have hleft' : w.left.drop result.text.toNat ≠ [] := hrest
      have hlen := List.length_pos_of_ne_nil hleft'
      rw [List.length_drop] at hlen
      obtain ⟨hbuf, hp, hrest'⟩ := hmore (by omega)
      refine ⟨?_, ?_⟩
      · show (conHandleWrite env now nat result w.con state).1.outRemaining =
          (w.left.drop result.text.toNat).length
        rw [hrest', List.length_drop]
        omega
      · show w.left.drop result.text.toNat =
          (cstr (conHandleWrite env now nat result w.con state).1.outBuf).drop _
        rw [hbuf, hp, ← List.drop_drop, ← hwindow]
    · show (conHandleWrite env now nat result w.con state).1.seenCr =
        decide (((w.pieces ++ [w.con.piece result]).getLast?.getD []).head? = some '\r')
      rw [hflag, decide_eq_decide, List.getLast?_append_of_ne_nil _ (List.cons_ne_nil _ _),
        List.getLast?_singleton, Option.getD_some, hhead, Option.some.injEq]
    · intro piece hp
      rcases List.mem_append.mp hp with hp | hp
      · exact ih.whole piece hp
      · rw [List.mem_singleton.mp hp]
        exact hne

/-- In a run whose pieces are clean, the client has received the pieces with their line
endings. -/
theorem WireRun.received {env : ConEnv} {w : Wire} (h : WireRun env w) (hclean : CleanPieces w.pieces) :
    w.received = crlf false w.pieces.flatten := by
  induction h with
  | start _ => rfl
  | place _ _ _ _ ih => exact ih hclean
  | @write w now nat result state hrun hleft henabled hok ih =>
    have hsound := hrun.sound
    obtain ⟨-, hne, -, hhead⟩ := hsound.piece hleft henabled hok
    obtain ⟨hinside, hbetween⟩ := hclean
    obtain ⟨hbefore, -, hright⟩ := List.isChain_append.mp hbetween
    have hwas := ih ⟨fun piece hp => hinside piece (List.mem_append_left _ hp), hbefore⟩
    show w.received ++ w.con.delivered result = crlf false (w.pieces ++ [w.con.piece result]).flatten
    rw [hwas, List.flatten_append, List.flatten_singleton, crlf_append, List.append_cancel_left_eq,
      Con.delivered]
    have hnobare : NoBareNewline (w.con.piece result) :=
      hinside _ (List.mem_append_right _ (List.mem_singleton_self _))
    have hflag : w.con.outBuf.getD w.con.outP nul = '\n' →
        w.con.seenCr = endsInCr false w.pieces.flatten := fun hn =>
      hsound.flag_eq (hhead.trans (congrArg some hn)) fun before hb => hright before hb _ rfl
    generalize w.con.piece result = piece at hne hhead hnobare
    obtain ⟨c, rest, rfl⟩ := List.exists_cons_of_ne_nil hne
    obtain rfl := Option.some.inj hhead
    rw [crlf_piece _ hnobare]
    by_cases hn : w.con.outBuf.getD w.con.outP nul = '\n'
    · rw [← hflag hn]
      simp only [hn, true_and, Bool.not_eq_true']
    · rw [if_neg fun h => hn h.1, if_neg fun h => hn h.1]

/-- Where the pieces are clean, the client has received the texts as far as they are written,
each byte once and in order, with a CR in front of each newline that had none. -/
theorem wire_text {env : ConEnv} {w : Wire} (h : WireRun env w) (hclean : CleanPieces w.pieces) :
    w.received = crlf false w.pieces.flatten ∧ w.texts = w.pieces.flatten ++ w.left :=
  ⟨h.received hclean, h.sound.texts⟩

/-- A text that is stuttered throughout is received with its line endings. -/
theorem WireRun.stuttered {env : ConEnv} {w : Wire} (h : WireRun env w)
    (hone : ∀ piece ∈ w.pieces, piece.length = 1) : w.received = crlf false w.pieces.flatten :=
  h.received (cleanPieces_stuttered hone)

/-- A connection without stutter that has a text to write. -/
def bulkCon (text : CStr) : Con :=
  { Con.zero with
    fd := some 3
    outBuf := text ++ [nul]
    outSize := conOutBufSize
    outRemaining := text.length
    w := 1 }

/-- The whole text in one call. -/
theorem wireRun_bulk {text : CStr} (hne : text ≠ []) (hnul : nul ∉ text) :
    ∃ con, WireRun listedEnv
      ⟨con, text, [], [text], (bulkCon text).delivered ⟨1, text.length⟩⟩ := by
  have hpos : 0 < text.length := List.length_pos_of_ne_nil hne
  have htext : cstr (bulkCon text).outBuf = text := cstr_append_nul hnul []
  have hplaced : WireRun listedEnv ⟨bulkCon text, cstr (bulkCon text).outBuf,
      cstr (bulkCon text).outBuf, [], []⟩ := by
    refine .place (.start (rfl : Con.zero.seenCr = false)) rfl ⟨rfl, ?_, ?_⟩ rfl
    · rw [htext]
      rfl
    · exact Int.natCast_pos.mpr hpos
  have hsettled : (bulkCon text).settleStutter 1 (listedState []) = bulkCon text :=
    if_neg fun h => h.1 rfl
  have hasked : toBeWritten (bulkCon text) (listedState []) = text.length := if_neg fun h => h.2 rfl
  have hpiece : (bulkCon text).piece ⟨1, text.length⟩ = text := by
    show ((text ++ [nul]).drop 0).take (text.length : Int).toNat = text
    rw [List.drop_zero, Int.toNat_natCast, List.take_left]
  have henabled : ConAct.Enabled (.write ⟨1, text.length⟩) 1 (bulkCon text) (listedState []) := by
    refine ⟨Option.some_ne_none 3, Int.one_ne_zero, le_refl _, ?_, ?_⟩
    · show (-1 : Int) ≤ text.length
      omega
    · rw [hsettled, hasked]
  have hok : WriteResult.Succeeds ⟨1, text.length⟩ := ⟨rfl, by show (1 : Int) ≤ text.length; omega⟩
  have hrun := @WireRun.write listedEnv _ 1 none _ (listedState []) hplaced (by rw [htext]; exact hne)
    henabled hok
  rw [htext] at hrun
  have hleft : text.drop (text.length : Int).toNat = [] := by
    rw [Int.toNat_natCast, List.drop_length]
  have hdone : WireRun listedEnv ⟨_, text, text.drop (text.length : Int).toNat,
      [(bulkCon text).piece ⟨1, text.length⟩], (bulkCon text).delivered ⟨1, text.length⟩⟩ := hrun
  rw [hleft, hpiece] at hdone
  exact ⟨_, hdone⟩

def okText : CStr := "250 OK\r\n".toList

theorem wire_text_ok : ∃ con, WireRun listedEnv
      ⟨con, okText, [], [okText], (bulkCon okText).delivered ⟨1, okText.length⟩⟩ ∧
    (bulkCon okText).delivered ⟨1, okText.length⟩ = crlf false [okText].flatten ∧
    okText = [okText].flatten ++ [] := by
  obtain ⟨con, hrun⟩ := @wireRun_bulk okText (by decide) (by decide)
  have hclean : CleanPieces [okText] := by
    refine ⟨fun piece hp => ?_, List.isChain_singleton _⟩
    rw [List.mem_singleton.mp hp]
    unfold NoBareNewline
    decide
  exact ⟨con, hrun, wire_text hrun hclean⟩

def twoLines : CStr := "450-one\n450 two\n".toList

/-- A reply of two lines in bulk: no CR is sent in front of its newlines. -/
theorem wire_text_bare : ∃ w, WireRun listedEnv w ∧ w.left = [] ∧ w.received ≠ crlf false w.texts := by
  obtain ⟨con, hrun⟩ := @wireRun_bulk twoLines (by decide) (by decide)
  have hbare : (bulkCon twoLines).delivered ⟨1, twoLines.length⟩ ≠ crlf false twoLines := by
    decide +kernel
  exact ⟨_, hrun, rfl, hbare⟩

end Greyd
