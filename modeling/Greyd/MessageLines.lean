import Greyd.ConRuns
import Mathlib.Data.List.DropRight

/-!
# The lines of a message (con.c)

A message ends at a line that is a single dot, or at the tenth line behind the first empty
one. `Con_next_state` looks for it in one input at a time: in what has been read up to a read
with a newline, without the CRs and LFs at its end.
-/
namespace Greyd

/-! ## Where a message ends -/

/-- The text of a line in front of its LF or CRLF. -/
def textOfLine (line : List Char) : CStr :=
  if line.getLast? = some '\r' then line.dropLast else line

/-- The texts of the lines of a stream that have ended. -/
def endedLines (stream : List Char) : List CStr := (stream.splitOn '\n').dropLast.map textOfLine

/-- The lines behind the first empty one. -/
def bodyLines (lines : List CStr) : List CStr := (lines.dropWhile (· ≠ [])).tail

/-- The last line of the message is among the lines. -/
def MessageEnds (lines : List CStr) : Prop := ".".toList ∈ lines ∨ 10 ≤ (bodyLines lines).length

instance (lines : List CStr) : Decidable (MessageEnds lines) := inferInstanceAs (Decidable (_ ∨ _))

/-- What is remembered of the lines so far. -/
structure Progress where
  lines : Nat
  inBody : Bool
  ended : Bool
  deriving DecidableEq

def Progress.start : Progress := ⟨0, false, false⟩

def Progress.line (s : Progress) (text : CStr) : Progress :=
  if s.ended = true ∨ text = ".".toList then { s with ended := true }
  else if s.inBody then ⟨s.lines + 1, true, decide (10 ≤ s.lines + 1)⟩
  else ⟨s.lines, decide (text = []), false⟩

def progress (lines : List CStr) : Progress := lines.foldl Progress.line .start

theorem progress_append (lines more : List CStr) :
    progress (lines ++ more) = more.foldl Progress.line (progress lines) := List.foldl_append

theorem Progress.ended_line {s : Progress} (h : s.ended = true) (text : CStr) :
    (s.line text).ended = true := by
  rw [Progress.line, if_pos (.inl h)]

theorem Progress.line_dot (s : Progress) {text : CStr} (h : text = ".".toList) :
    (s.line text).ended = true := by
  rw [Progress.line, if_pos (.inr h)]

theorem Progress.line_text {s : Progress} {text : CStr} (hno : s.ended = false)
    (h : text ≠ ".".toList) : s.line text =
      if s.inBody then ⟨s.lines + 1, true, decide (10 ≤ s.lines + 1)⟩
      else ⟨s.lines, decide (text = []), false⟩ := by
  rw [Progress.line, if_neg]
  rw [hno, not_or]
  exact ⟨Bool.false_ne_true, h⟩

theorem Progress.ended_foldl {s : Progress} (h : s.ended = true) (lines : List CStr) :
    (lines.foldl Progress.line s).ended = true := by
  induction lines generalizing s with
  | nil => exact h
  | cons text lines ih => exact ih (s.ended_line h text)

theorem bodyLines_concat (lines : List CStr) (text : CStr) : bodyLines (lines ++ [text]) =
    if [] ∈ lines then bodyLines lines ++ [text] else [] := by
  unfold bodyLines
  rw [List.dropWhile_append]
  by_cases hin : [] ∈ lines
  · have hne : lines.dropWhile (· ≠ []) ≠ [] := by
      intro h
      simpa using List.dropWhile_eq_nil_iff.mp h [] hin
    rw [if_neg (by simpa using hne), if_pos hin, List.tail_append_of_ne_nil hne]
  · have hall : lines.dropWhile (· ≠ []) = [] :=
      List.dropWhile_eq_nil_iff.mpr fun x hx => by
        simp only [ne_eq, decide_eq_true_eq]
        rintro rfl
        exact hin hx
    rw [hall, if_neg hin]
    by_cases htext : text = [] <;> simp [htext]

theorem bodyLines_eq_nil {lines : List CStr} (h : [] ∉ lines) : bodyLines lines = [] := by
  have hall : lines.dropWhile (· ≠ []) = [] :=
    List.dropWhile_eq_nil_iff.mpr fun x hx => by
      simp only [ne_eq, decide_eq_true_eq]
      rintro rfl
      exact h hx
  rw [bodyLines, hall, List.tail_nil]

/-- What is remembered tells where the message ends. -/
theorem progress_spec (lines : List CStr) : ((progress lines).ended = true ↔ MessageEnds lines) ∧
    (¬MessageEnds lines → (progress lines).inBody = decide ([] ∈ lines) ∧
      (progress lines).lines = (bodyLines lines).length) := by
  induction lines using List.reverseRecOn with
  | nil => simp [progress, Progress.start, MessageEnds, bodyLines]
  | append_singleton lines text ih =>
    obtain ⟨hended, hkept⟩ := ih
    have hconcat : progress (lines ++ [text]) = (progress lines).line text := by
      rw [progress_append]
      rfl
    have hbody := bodyLines_concat lines text
    have hmem : MessageEnds (lines ++ [text]) ↔ ".".toList ∈ lines ∨ ".".toList = text ∨
        10 ≤ (bodyLines (lines ++ [text])).length := by
      rw [MessageEnds, List.mem_append, List.mem_singleton, or_assoc]
    rw [hconcat]
    by_cases hends : MessageEnds lines
    · have hnow : MessageEnds (lines ++ [text]) := by
        rw [hmem, hbody]
        rcases hends with hdot | hten
        · exact .inl hdot
        · by_cases hin : [] ∈ lines
          · rw [if_pos hin, List.length_append]
            exact .inr (.inr (by omega))
          · rw [bodyLines_eq_nil hin] at hten
            simp at hten
      exact ⟨iff_of_true (Progress.ended_line (hended.mpr hends) text) hnow,
        fun hno => absurd hnow hno⟩
    · obtain ⟨hinBody, hlines⟩ := hkept hends
      have hno : (progress lines).ended = false := by simpa using mt hended.mp hends
      rw [MessageEnds, not_or] at hends
      rw [hmem, hbody]
      by_cases hdot : text = ".".toList
      · have hnow : ".".toList ∈ lines ∨ ".".toList = text ∨
            10 ≤ (if [] ∈ lines then bodyLines lines ++ [text] else []).length := .inr (.inl hdot.symm)
        exact ⟨iff_of_true (Progress.line_dot _ hdot) hnow, fun hgo => absurd hnow hgo⟩
      · rw [Progress.line_text hno hdot, hinBody, hlines]
        have hdot' : ¬".".toList = text := Ne.symm hdot
        by_cases hin : [] ∈ lines
        · simp only [hin, decide_true, if_true, decide_eq_true_eq, hends.1, hdot', false_or,
            List.length_append, List.length_singleton, true_or, List.mem_append, true_and]
          exact fun _ => trivial
        · have hmem : ([] ∈ lines ++ [text]) = (text = []) := by
            simp only [List.mem_append, hin, false_or, List.mem_singleton, eq_comm]
          simp only [hin, decide_false, Bool.false_eq_true, if_false, hends.1, hdot', false_or,
            List.length_nil, hmem, bodyLines_eq_nil hin, and_self, implies_true, and_true]
          exact iff_of_false not_false (by decide)

/-! ## One line -/

/-- A CR or an LF. -/
def isEol (c : Char) : Bool := c = '\r' ∨ c = '\n'

/-- The counters of the loop. -/
def Body.progress (b : Body) : Progress := ⟨b.lines, b.inBody, false⟩

section Line

variable {b : Body} {front l tail : List Char} {c : Char}

/-- The line loses its CR, and becomes a string of its own. -/
theorem Body.line_text (hnul : nul ∉ l) (hbuf : b.buf = front ++ (l ++ c :: tail)) :
    ∃ front', front'.length = front.length + l.length + 1 ∧
      b.line front.length (front.length + l.length) =
        (let s := b.progress.line (textOfLine l)
        if textOfLine l = ".".toList then (⟨front' ++ tail, b.lines, b.inBody⟩, true)
        else (⟨front' ++ tail, s.lines, b.inBody || s.inBody⟩, s.ended)) := by
  have hset : b.buf.set (front.length + l.length) nul = front ++ (l ++ nul :: tail) := by
    rw [hbuf, List.set_append_right _ _ (Nat.le_add_right _ _), Nat.add_sub_cancel_left,
      List.set_append_right _ _ le_rfl, Nat.sub_self, List.set_cons_zero]
  obtain ⟨back, hlen, hcr, hcstr⟩ : ∃ back, back.length = l.length + 1 ∧
      (if front.length + l.length > front.length ∧
          (front ++ (l ++ nul :: tail)).getD (front.length + l.length - 1) nul = '\r'
        then (front ++ (l ++ nul :: tail)).set (front.length + l.length - 1) nul
        else front ++ (l ++ nul :: tail)) = front ++ (back ++ tail) ∧
      cstr (back ++ tail) = textOfLine l := by
    rcases l.eq_nil_or_concat with rfl | ⟨init, last, rfl⟩
    · exact ⟨[nul], rfl, by simp, by simp [cstr, textOfLine]⟩
    · rw [List.concat_eq_append] at hnul ⊢
      have hpos : front.length + (init ++ [last]).length - 1 = front.length + init.length := by
        rw [List.length_append, List.length_singleton]
        omega
      have hget : (front ++ (init ++ [last] ++ nul :: tail)).getD (front.length + init.length) nul =
          last := by
        rw [List.getD_append_right _ _ _ _ (Nat.le_add_right _ _), Nat.add_sub_cancel_left,
          List.append_assoc, List.getD_append_right _ _ _ _ le_rfl, Nat.sub_self]
        rfl
      have hgt : front.length + (init ++ [last]).length > front.length := by simp
      have hinit : nul ∉ init := fun h => hnul (List.mem_append_left _ h)
      rw [hpos, hget]
      by_cases hlast : last = '\r'
      · refine ⟨init ++ [nul, nul], by simp, ?_, ?_⟩
        · rw [if_pos ⟨hgt, hlast⟩, List.set_append_right _ _ (Nat.le_add_right _ _),
            Nat.add_sub_cancel_left, List.append_assoc, List.set_append_right _ _ le_rfl,
            Nat.sub_self]
          simp
        · rw [textOfLine, List.getLast?_append, hlast]
          simpa using cstr_append_nul hinit (nul :: tail)
      · refine ⟨init ++ [last, nul], by simp, ?_, ?_⟩
        · rw [if_neg fun h => hlast h.2]
          simp
        · rw [textOfLine, if_neg (by simpa using hlast)]
          simpa using cstr_append_nul hnul tail
  refine ⟨front ++ back, by rw [List.length_append, hlen, Nat.add_assoc], ?_⟩
  unfold Body.line
  dsimp only
  rw [hset, hcr, List.drop_left, hcstr, List.append_assoc]
  by_cases hdot : textOfLine l = ".".toList
  · rw [if_pos hdot, if_pos hdot]
  · rw [if_neg hdot, if_neg hdot]
    rw [Progress.line_text rfl hdot]
    cases hin : b.inBody
    · simp [Body.progress, hin]
    · by_cases hten : 10 ≤ b.lines + 1 <;> simp [Body.progress, hin, hten]

/-- A line of the loop is a line of the message. -/
theorem Body.line_progress (hnul : nul ∉ l) (hbuf : b.buf = front ++ (l ++ c :: tail)) :
    (b.line front.length (front.length + l.length)).2 = (b.progress.line (textOfLine l)).ended ∧
      ((b.progress.line (textOfLine l)).ended = false →
        (b.line front.length (front.length + l.length)).1.progress = b.progress.line (textOfLine l) ∧
        ∃ front', front'.length = front.length + l.length + 1 ∧
          (b.line front.length (front.length + l.length)).1.buf = front' ++ tail) := by
  obtain ⟨front', hlen, hline⟩ := Body.line_text hnul hbuf
  rw [hline]
  by_cases hdot : textOfLine l = ".".toList
  · have hended := b.progress.line_dot hdot
    dsimp only
    rw [if_pos hdot, hended]
    exact ⟨rfl, fun hgo => by cases hgo⟩
  · dsimp only
    rw [if_neg hdot]
    refine ⟨rfl, fun hgo => ⟨?_, front', hlen, rfl⟩⟩
    revert hgo
    rw [Progress.line_text rfl hdot]
    cases hin : b.inBody <;> simp [Body.progress, hin]

end Line

/-! ## One input -/

/-- Nothing of the lines is lost or cut: each of them has ended, an empty one behind another
ends in CRLF, and the last one does not go with the CRs and LFs at the end of the input. What
stands behind the end of the message does not matter. -/
def CleanLines (s : Progress) (first : Bool) : List (List Char) → Prop
  | [] => True
  | [rest] => rest = []
  | line :: next :: lines =>
    (first = true ∨ line ≠ []) ∧
    ((∀ l ∈ next :: lines, ∀ c ∈ l, c = '\r') →
      (textOfLine line).getLast? ≠ some '\r' ∧ (first = true ∨ textOfLine line ≠ [])) ∧
    ((s.line (textOfLine line)).ended = true ∨
      CleanLines (s.line (textOfLine line)) false (next :: lines))

instance decidableCleanLines (s : Progress) (first : Bool) :
    (lines : List (List Char)) → Decidable (CleanLines s first lines)
  | [] => inferInstanceAs (Decidable True)
  | [rest] => inferInstanceAs (Decidable (rest = []))
  | line :: next :: lines =>
    have := decidableCleanLines (s.line (textOfLine line)) false (next :: lines)
    -- the characters of the line are gone through, not all there are
    have (l : List Char) : Decidable (∀ c ∈ l, c = '\r') := List.decidableBAll _ l
    inferInstanceAs (Decidable (_ ∧ (_ → _) ∧ _))

section Trim

variable {l rest : List Char}

theorem rdropWhile_blank (l : List Char) (h : ∀ c ∈ rest, isEol c = true) :
    (l ++ rest).rdropWhile isEol = l.rdropWhile isEol := by
  have hnil : (rest.reverse.dropWhile isEol).isEmpty = true := by
    rw [List.isEmpty_iff, List.dropWhile_eq_nil_iff]
    simpa using h
  unfold List.rdropWhile
  rw [List.reverse_append, List.dropWhile_append, if_pos hnil]

theorem rdropWhile_kept (l : List Char) (h : ¬∀ c ∈ rest, isEol c = true) :
    (l ++ rest).rdropWhile isEol = l ++ rest.rdropWhile isEol := by
  have hnil : ¬(rest.reverse.dropWhile isEol).isEmpty = true := by
    rw [List.isEmpty_iff, List.dropWhile_eq_nil_iff]
    simpa using h
  unfold List.rdropWhile
  rw [List.reverse_append, List.dropWhile_append, if_neg hnil, List.reverse_append,
    List.reverse_reverse]

theorem trim_blank (h : ∀ c ∈ rest, isEol c = true) :
    (l ++ '\n' :: rest).rdropWhile isEol = l.rdropWhile isEol := by
  refine rdropWhile_blank l fun c hc => ?_
  rcases List.mem_cons.mp hc with rfl | hc
  · rfl
  · exact h c hc

theorem trim_line (h : ¬∀ c ∈ rest, isEol c = true) :
    (l ++ '\n' :: rest).rdropWhile isEol = l ++ '\n' :: rest.rdropWhile isEol := by
  have hcons : ('\n' :: rest).rdropWhile isEol = '\n' :: rest.rdropWhile isEol :=
    rdropWhile_kept ['\n'] h
  rw [rdropWhile_kept l fun hall => h fun c hc => hall c (List.mem_cons_of_mem _ hc), hcons]

/-- A line that ends in one CR at most loses no more than its end. -/
theorem trim_last (hnl : '\n' ∉ l) (hcr : (textOfLine l).getLast? ≠ some '\r') :
    l.rdropWhile isEol = textOfLine l := by
  rcases l.eq_nil_or_concat with rfl | ⟨init, last, rfl⟩
  · rfl
  · rw [List.concat_eq_append] at hnl hcr ⊢
    rw [List.mem_append, not_or, List.mem_singleton] at hnl
    by_cases hlast : last = '\r'
    · have htext : textOfLine (init ++ [last]) = init := by
        rw [textOfLine, hlast]
        simp
      rw [htext] at hcr ⊢
      rw [List.rdropWhile_concat_pos _ _ _ (by rw [hlast]; rfl), List.rdropWhile_eq_self_iff]
      intro hne heol
      have hmem := List.getLast_mem hne
      have hget := List.getLast?_eq_some_getLast hne
      simp only [isEol, decide_eq_true_eq] at heol
      rcases heol with h | h
      · exact hcr (by rw [hget, h])
      · exact hnl.1 (h ▸ hmem)
    · have hno : ¬isEol last = true := by
        simp only [isEol, decide_eq_true_eq, not_or]
        exact ⟨hlast, Ne.symm hnl.2⟩
      rw [textOfLine, if_neg (by simpa using hlast), List.rdropWhile_concat_neg _ _ _ hno]

theorem textOfLine_subset (line : List Char) : ∀ c ∈ textOfLine line, c ∈ line := by
  intro c hc
  unfold textOfLine at hc
  split at hc
  · exact List.mem_of_mem_dropLast hc
  · exact hc

theorem mem_of_splitOn {s piece : List Char} (h : piece ∈ s.splitOn '\n') :
    ∀ c ∈ piece, c ∈ s ∧ c ≠ '\n' := by
  induction hn : s.length using Nat.strong_induction_on generalizing s with
  | _ n ih =>
    by_cases hnl : '\n' ∈ s
    · obtain ⟨l, rest, rfl, hl⟩ := List.eq_append_cons_of_mem hnl
      rw [List.splitOn_append_cons_self, List.splitOn_eq_singleton hl, List.singleton_append] at h
      intro c hc
      rcases List.mem_cons.mp h with rfl | h
      · exact ⟨List.mem_append_left _ hc, fun heq => hl (heq ▸ hc)⟩
      · have hlen : rest.length < n := by
          rw [← hn, List.length_append, List.length_cons]
          omega
        obtain ⟨hin, hne⟩ := ih _ hlen h rfl c hc
        exact ⟨List.mem_append_right _ (List.mem_cons_of_mem _ hin), hne⟩
    · rw [List.splitOn_eq_singleton hnl, List.mem_singleton] at h
      intro c hc
      exact ⟨h ▸ hc, fun heq => hnl (heq ▸ h ▸ hc)⟩

theorem blank_lines (h : ∀ c ∈ rest, isEol c = true) :
    ∀ l ∈ rest.splitOn '\n', ∀ c ∈ l, c = '\r' := by
  intro l hl c hc
  obtain ⟨hin, hne⟩ := mem_of_splitOn hl c hc
  have heol := h c hin
  simp only [isEol, decide_eq_true_eq] at heol
  exact heol.resolve_right hne

theorem splitOn_line (hnl : '\n' ∉ l) : (l ++ '\n' :: rest).splitOn '\n' = l :: rest.splitOn '\n' := by
  rw [List.splitOn_append_cons_self, List.splitOn_eq_singleton hnl]
  rfl

/-- Behind a line that ends with the input there is nothing. -/
theorem CleanLines.blank {s : Progress} (hclean : CleanLines s false (rest.splitOn '\n'))
    (hblank : ∀ c ∈ rest, isEol c = true) : rest = [] := by
  by_cases hnl : '\n' ∈ rest
  · obtain ⟨l, more, rfl, hl⟩ := List.eq_append_cons_of_mem hnl
    have hpieces := blank_lines hblank
    obtain ⟨next, lines, hmore⟩ := List.exists_cons_of_ne_nil (List.splitOn_ne_nil '\n' more)
    rw [splitOn_line hl, hmore] at hclean hpieces
    obtain ⟨-, hlast, -⟩ := hclean
    obtain ⟨hcr, hne⟩ := hlast fun piece hp => hpieces piece (List.mem_cons_of_mem _ hp)
    have hne := hne.resolve_left (by simp)
    have hmem := List.getLast_mem hne
    refine absurd ?_ hcr
    rw [List.getLast?_eq_some_getLast hne,
      hpieces l List.mem_cons_self _ (textOfLine_subset l _ hmem)]
  · rwa [List.splitOn_eq_singleton hnl] at hclean

end Trim

section Loop

variable {b : Body} {front l tail junk : List Char} {c : Char} {inP fuel q : Nat}

theorem bodyLoop_skip {p : Nat} (hbuf : b.buf = front ++ (l ++ tail)) (hnl : '\n' ∉ l)
    (hin : front.length + l.length ≤ inP) : bodyLoop inP (fuel + l.length) p front.length b =
      bodyLoop inP fuel p (front.length + l.length) b := by
  induction l generalizing front with
  | nil => rfl
  | cons c l ih =>
    rw [List.mem_cons, not_or] at hnl
    rw [List.length_cons] at hin
    have hget : b.buf.getD front.length nul = c := by
      rw [hbuf, List.getD_append_right _ _ _ _ le_rfl, Nat.sub_self]
      rfl
    have hgo : ¬(b.buf.getD front.length nul = '\n' ∨ front.length = inP) := by
      rw [hget]
      rintro (h | h)
      · exact hnl.1 h.symm
      · omega
    have hlen : (front ++ [c]).length = front.length + 1 := by simp
    have hnext := @ih (front ++ [c]) (by rw [hbuf]; simp) hnl.2 (by rw [hlen]; omega)
    rw [hlen] at hnext
    rw [List.length_cons, ← Nat.add_assoc, bodyLoop, if_pos (by omega), if_neg hgo, hnext]
    congr 1
    omega

/-- The loop comes to the end of a line, also where it does not look at its first character. -/
theorem bodyLoop_line (hbuf : b.buf = front ++ (l ++ c :: tail)) (hnl : '\n' ∉ l)
    (hq : q = front.length ∨ q = front.length + 1 ∧ l ≠ [])
    (hend : c = '\n' ∨ front.length + l.length = inP) (hin : front.length + l.length ≤ inP)
    (hfuel : inP < fuel + q) : ∃ fuel', inP < fuel' + (front.length + l.length + 2) ∧
      bodyLoop inP fuel front.length q b =
        (let next := b.line front.length (front.length + l.length)
        if next.2 then (next.1, true)
        else bodyLoop inP fuel' (front.length + l.length + 1) (front.length + l.length + 2) next.1) := by
  have hle : q ≤ front.length + l.length := by
    rcases hq with rfl | ⟨rfl, hne⟩
    · omega
    · have := List.length_pos_iff.mpr hne
      omega
  obtain ⟨fuel', hfuel'⟩ : ∃ fuel', fuel = fuel' + 1 + (front.length + l.length - q) :=
    ⟨fuel - 1 - (front.length + l.length - q), by omega⟩
  refine ⟨fuel', by omega, ?_⟩
  have hskip : bodyLoop inP fuel front.length q b =
      bodyLoop inP (fuel' + 1) front.length (front.length + l.length) b := by
    rcases hq with rfl | ⟨rfl, hne⟩
    · rw [hfuel', Nat.add_sub_cancel_left]
      exact bodyLoop_skip hbuf hnl hin
    · cases l with
      | nil => exact absurd rfl hne
      | cons first l =>
        rw [List.mem_cons, not_or] at hnl
        rw [List.length_cons] at hin hfuel' ⊢
        have hlen : (front ++ [first]).length = front.length + 1 := by simp
        have h := @bodyLoop_skip b (front ++ [first]) l (c :: tail) inP (fuel' + 1) front.length
          (by rw [hbuf]; simp) hnl.2 (by rw [hlen]; omega)
        rw [hlen] at h
        rw [hfuel', show front.length + (l.length + 1) - (front.length + 1) = l.length by omega, h]
        congr 1
        omega
  have hget : b.buf.getD (front.length + l.length) nul = c := by
    rw [hbuf, List.getD_append_right _ _ _ _ (Nat.le_add_right _ _), Nat.add_sub_cancel_left,
      List.getD_append_right _ _ _ _ le_rfl, Nat.sub_self]
    rfl
  rw [hskip, bodyLoop, if_pos hin, hget, if_pos hend]

theorem bodyLoop_past {p : Nat} (h : inP < q) : bodyLoop inP fuel p q b = (b, false) := by
  cases fuel with
  | zero => rfl
  | succ fuel => rw [bodyLoop, if_neg (by omega)]

/-- What the loop makes of a line: the message ends with it, or the loop goes on behind it. -/
theorem bodyLoop_textLine (hbuf : b.buf = front ++ (l ++ c :: tail)) (hnl : '\n' ∉ l) (hnul : nul ∉ l)
    (hq : q = front.length ∨ q = front.length + 1 ∧ l ≠ [])
    (hend : c = '\n' ∨ front.length + l.length = inP) (hin : front.length + l.length ≤ inP)
    (hfuel : inP < fuel + q) :
    ((b.progress.line (textOfLine l)).ended = true → (bodyLoop inP fuel front.length q b).2 = true) ∧
      ((b.progress.line (textOfLine l)).ended = false → ∃ next fuel',
        bodyLoop inP fuel front.length q b =
            bodyLoop inP fuel' (front.length + l.length + 1) (front.length + l.length + 2) next ∧
          inP < fuel' + (front.length + l.length + 2) ∧
          next.progress = b.progress.line (textOfLine l) ∧
          ∃ front', front'.length = front.length + l.length + 1 ∧ next.buf = front' ++ tail) := by
  obtain ⟨fuel', hfuel', hloop⟩ := bodyLoop_line hbuf hnl hq hend hin hfuel
  obtain ⟨hnext, hkept⟩ := Body.line_progress hnul hbuf
  rw [hloop]
  dsimp only
  constructor
  · intro hdone
    rw [hnext, if_pos hdone]
  · intro hgo
    rw [hnext, hgo, if_neg Bool.false_ne_true]
    exact ⟨_, fuel', rfl, hfuel', hkept hgo⟩

/-- The line the trimmed input ends with is the last the loop sees. -/
theorem bodyLoop_lastLine (hbuf : b.buf = front ++ (textOfLine l ++ nul :: junk)) (hnl : '\n' ∉ l)
    (hnul : nul ∉ l) (hcr : (textOfLine l).getLast? ≠ some '\r')
    (hq : q = front.length ∨ q = front.length + 1 ∧ textOfLine l ≠ [])
    (hin : inP = front.length + (textOfLine l).length) (hfuel : inP < fuel + q) :
    (bodyLoop inP fuel front.length q b).2 = (b.progress.line (textOfLine l)).ended ∧
      ((b.progress.line (textOfLine l)).ended = false →
        (bodyLoop inP fuel front.length q b).1.progress = b.progress.line (textOfLine l)) := by
  have hsub := textOfLine_subset l
  have htext : textOfLine (textOfLine l) = textOfLine l := if_neg hcr
  have hline := bodyLoop_textLine hbuf (fun h => hnl (hsub _ h)) (fun h => hnul (hsub _ h)) hq
    (.inr hin.symm) hin.ge hfuel
  rw [htext] at hline
  obtain ⟨hdone, hmore⟩ := hline
  by_cases hended : (b.progress.line (textOfLine l)).ended = true
  · rw [hdone hended, hended]
    exact ⟨rfl, fun hgo => by cases hgo⟩
  · have hgo := Bool.not_eq_true _ ▸ hended
    obtain ⟨next, fuel', hloop, -, hprogress, -⟩ := hmore hgo
    rw [hloop, bodyLoop_past (by omega), hgo]
    exact ⟨rfl, fun _ => hprogress⟩

/-- The loop over a clean input comes to the lines of the input. -/
theorem bodyLoop_input {first : Bool} {input : List Char}
    (hclean : CleanLines b.progress first (input.splitOn '\n')) (hne : input ≠ []) (hnul : nul ∉ input)
    (hbuf : b.buf = front ++ (input.rdropWhile isEol ++ nul :: junk))
    (hin : inP = front.length + (input.rdropWhile isEol).length)
    (hq : q = if first then front.length else front.length + 1)
    (hseen : first = true ∨ ¬∀ c ∈ input, isEol c = true) (hfuel : inP < fuel + q) :
    (bodyLoop inP fuel front.length q b).2 =
        ((endedLines input).foldl Progress.line b.progress).ended ∧
      (((endedLines input).foldl Progress.line b.progress).ended = false →
        (bodyLoop inP fuel front.length q b).1.progress =
            (endedLines input).foldl Progress.line b.progress ∧
          ∃ whole, input = whole ++ ['\n']) := by
  induction hn : input.length using Nat.strong_induction_on
    generalizing input first b front q fuel with
  | _ n ih =>
    by_cases hnl : '\n' ∈ input
    · obtain ⟨l, rest, rfl, hl⟩ := List.eq_append_cons_of_mem hnl
      have hsplit := @splitOn_line l rest hl
      obtain ⟨next, lines, hrest⟩ := List.exists_cons_of_ne_nil (List.splitOn_ne_nil '\n' rest)
      have hended : endedLines (l ++ '\n' :: rest) = textOfLine l :: endedLines rest := by
        rw [endedLines, hsplit, List.dropLast_cons_of_ne_nil (List.splitOn_ne_nil _ _)]
        rfl
      rw [hsplit, hrest] at hclean
      obtain ⟨hbare, hlast, hmore⟩ := hclean
      have hlnul : nul ∉ l := fun h => hnul (List.mem_append_left _ h)
      rw [hended, List.foldl_cons]
      by_cases hblank : ∀ c ∈ rest, isEol c = true
      · -- the line is the last one that is left of the input
        obtain ⟨hcr, hempty⟩ := hlast fun piece hp => blank_lines hblank piece (hrest ▸ hp)
        rw [trim_blank hblank, trim_last hl hcr] at hbuf hin
        have hstart : q = front.length ∨ q = front.length + 1 ∧ textOfLine l ≠ [] := by
          cases first
          · exact .inr ⟨hq, hempty.resolve_left (by simp)⟩
          · exact .inl hq
        obtain ⟨hloop, hprogress⟩ := bodyLoop_lastLine hbuf hl hlnul hcr hstart hin hfuel
        by_cases hdone : (b.progress.line (textOfLine l)).ended = true
        · rw [Progress.ended_foldl hdone, hloop, hdone]
          exact ⟨rfl, fun hgo => by cases hgo⟩
        · have hnil : rest = [] := CleanLines.blank (hrest ▸ hmore.resolve_left hdone) hblank
          rw [hnil, hloop]
          exact ⟨rfl, fun hgo => ⟨hprogress hgo, l, rfl⟩⟩
      · rw [trim_line hblank, List.append_assoc, List.cons_append] at hbuf
        rw [trim_line hblank, List.length_append, List.length_cons] at hin
        have hstart : q = front.length ∨ q = front.length + 1 ∧ l ≠ [] := by
          cases first
          · exact .inr ⟨hq, hbare.resolve_left (by simp)⟩
          · exact .inl hq
        obtain ⟨hloop, hgoes⟩ := bodyLoop_textLine hbuf hl hlnul hstart (.inl rfl) (by omega) hfuel
        by_cases hdone : (b.progress.line (textOfLine l)).ended = true
        · rw [Progress.ended_foldl hdone, hloop hdone]
          exact ⟨rfl, fun hgo => by cases hgo⟩
        · obtain ⟨b', fuel', hloop, hfuel', hprogress, front', hlen, hbuf'⟩ :=
            hgoes (Bool.not_eq_true _ ▸ hdone)
          have hmore' := hmore.resolve_left hdone
          rw [← hprogress, ← hrest] at hmore'
          have hshort : rest.length < n := by
            rw [← hn, List.length_append, List.length_cons]
            omega
          have hne' : rest ≠ [] := by
            intro hnil
            exact hblank (by simp [hnil])
          have hnul' : nul ∉ rest := fun h =>
            hnul (List.mem_append_right _ (List.mem_cons_of_mem _ h))
          have hinput := ih rest.length hshort hmore' hne' hnul' hbuf' (by rw [hlen]; omega)
            (q := front.length + l.length + 2) (by rw [hlen]; rfl) (.inr hblank) hfuel' rfl
          rw [hlen, hprogress] at hinput
          rw [hloop]
          refine ⟨hinput.1, fun hend => ?_⟩
          obtain ⟨hsame, whole, hwhole⟩ := hinput.2 hend
          exact ⟨hsame, l ++ '\n' :: whole, by rw [hwhole]; simp⟩
    · rw [List.splitOn_eq_singleton hnl] at hclean
      exact absurd hclean hne

end Loop

end Greyd
