import Greyd.GreyRuns
import Mathlib.Data.List.Chain
import Mathlib.Data.List.DropRight

/-!
# The permitted_domains file (grey.c)

`Grey_load_domains` reads the file with `fgets` into a buffer of `GREY_MAX_MAIL` bytes. A
string without a newline raises the overflow flag, and the next string with one is then
taken for the tail of an over-long line. What the list should hold afterwards is said of
the lines of the file alone.
-/
namespace Greyd

/-- The strings successive calls of `fgets` return, for a buffer of `size + 1` bytes that
holds `buf` so far. -/
def fgetsReads (size : Nat) (buf : List Char) : List Char → List (List Char)
  | [] => if buf = [] then [] else [buf]
  | c :: file =>
    if c = '\n' ∨ buf.length + 1 = size then (buf ++ [c]) :: fgetsReads size [] file
    else fgetsReads size (buf ++ [c]) file

/-- Where `do dp--; while (dp > sp && isspace(*dp))` stops, from a position in the line. -/
def walkBack (line : CStr) : Nat → Nat
  | 0 => 0
  | dp + 1 => if 0 < dp ∧ isspace (line.getD dp nul) then walkBack line dp else dp

/-- What is inserted for the text in front of a newline. -/
def domainOf (line : CStr) : Option CStr :=
  -- on an empty line dp stops in front of sp, and the string is cut to nothing
  if line = [] then none
  else
    let dp := walkBack line line.length
    if dp = 0 then none
    else
      let sp := (line.take (dp + 1)).dropWhile isspace
      if sp = [] ∨ sp.head? = some '#' then none else some sp

/-- The loop over the strings read. -/
def loadLoop : List (List Char) → Bool → List CStr → List CStr
  | [], _, domains => domains
  | domain :: reads, overflow, domains =>
    if '\n' ∉ cstr domain then loadLoop reads true domains
    else if overflow then loadLoop reads false domains
    else loadLoop reads false
      (domains ++ (domainOf ((cstr domain).takeWhile (· ≠ '\n'))).toList)

/-- `Grey_load_domains`. There is no content when no file is configured or it cannot be
opened; the list is then left alone. -/
def greyLoadDomains (g : Greylister) (content : Option (List Char)) : Greylister :=
  match content with
  | none => g
  | some content => { g with domains := loadLoop (fgetsReads 1023 [] content) false [] }

/-! ## What the file lists -/

/-- The domain a line lists: the line without the white space around it, unless the line is
over-long, empty or a comment. -/
def listed (line : List Char) : Option CStr :=
  let text := (line.rdropWhile isspace).dropWhile isspace
  if 1022 < line.length ∨ text = [] ∨ text.head? = some '#' then none else some text

/-- The lines of the file, what stands behind the last newline included. -/
def fileLines (content : List Char) : List (List Char) := content.splitOn '\n'

/-- The domains the file lists. -/
def listedDomains (content : List Char) : List CStr := (fileLines content).filterMap listed

/-! ## A line in the loop -/

/-- The last string `fgets` returns of a line has a NUL: its newline is not seen, and the
next line is taken for the tail of an over-long one. -/
def Swallows (line : List Char) : Prop := nul ∈ line.drop (line.length - line.length % 1023)

instance (line : List Char) : Decidable (Swallows line) := by unfold Swallows; infer_instance

/-- What a line adds to the list, by the flag in front of it. -/
def taken (overflow : Bool) (line : List Char) : Option CStr :=
  if overflow ∨ 1022 < line.length ∨ nul ∈ line then none else domainOf line

/-- What a run of lines adds. -/
def takenAll : Bool → List (List Char) → List CStr
  | _, [] => []
  | overflow, line :: lines => (taken overflow line).toList ++ takenAll (Swallows line) lines

variable {line lines rest : List Char} {overflow : Bool} {domains : List CStr}

theorem fgetsReads_short {size : Nat} {buf : List Char} (hnl : '\n' ∉ line)
    (hshort : buf.length + line.length < size) :
    fgetsReads size buf (line ++ '\n' :: rest) =
      (buf ++ line ++ ['\n']) :: fgetsReads size [] rest := by
  induction line generalizing buf with
  | nil => simp [fgetsReads]
  | cons c line ih =>
    rw [List.mem_cons, not_or] at hnl
    rw [List.length_cons] at hshort
    have hgo : ¬(c = '\n' ∨ buf.length + 1 = size) := by
      rintro (h | h)
      · exact hnl.1 h.symm
      · omega
    rw [List.cons_append, fgetsReads, if_neg hgo,
      ih hnl.2 (by rw [List.length_append, List.length_singleton]; omega)]
    simp

theorem fgetsReads_long {size : Nat} {buf : List Char} (hnl : '\n' ∉ line)
    (hbuf : buf.length < size) (hlong : size ≤ buf.length + line.length) :
    fgetsReads size buf (line ++ rest) = (buf ++ line.take (size - buf.length)) ::
      fgetsReads size [] (line.drop (size - buf.length) ++ rest) := by
  induction line generalizing buf with
  | nil => simp at hlong; omega
  | cons c line ih =>
    rw [List.mem_cons, not_or] at hnl
    rw [List.length_cons] at hlong
    by_cases hfull : buf.length + 1 = size
    · have hone : size - buf.length = 1 := by omega
      simp [fgetsReads, hfull, hone]
    · have hgo : ¬(c = '\n' ∨ buf.length + 1 = size) := by
        rintro (h | h)
        · exact hnl.1 h.symm
        · exact hfull h
      have hlen : (buf ++ [c]).length = buf.length + 1 := by simp
      have hleft : size - buf.length = size - (buf.length + 1) + 1 := by omega
      rw [List.cons_append, fgetsReads, if_neg hgo, ih hnl.2 (by omega) (by omega), hlen, hleft]
      simp

/-- Nothing is read across the end of the file. -/
theorem newline_not_mem_reads {size : Nat} {buf file : List Char} (hbuf : '\n' ∉ buf)
    (hfile : '\n' ∉ file) : ∀ domain ∈ fgetsReads size buf file, '\n' ∉ domain := by
  induction file generalizing buf with
  | nil =>
    intro domain hdomain
    rw [fgetsReads] at hdomain
    split at hdomain
    · cases hdomain
    · rwa [List.mem_singleton.mp hdomain]
  | cons c file ih =>
    rw [List.mem_cons, not_or] at hfile
    have hnext : '\n' ∉ buf ++ [c] := by simp [hbuf, hfile.1]
    intro domain hdomain
    rw [fgetsReads] at hdomain
    split at hdomain
    · rcases List.mem_cons.mp hdomain with h | h
      · rwa [h]
      · exact ih (by simp) hfile.2 domain h
    · exact ih hnext hfile.2 domain hdomain

theorem loadLoop_no_newline {reads : List (List Char)} (h : ∀ domain ∈ reads, '\n' ∉ domain) :
    loadLoop reads overflow domains = domains := by
  induction reads generalizing overflow with
  | nil => rfl
  | cons domain reads ih =>
    have hfirst : '\n' ∉ cstr domain := fun hmem =>
      h domain List.mem_cons_self ((List.takeWhile_sublist _).subset hmem)
    rw [loadLoop, if_pos hfirst, ih fun d hd => h d (List.mem_cons_of_mem _ hd)]

theorem nul_not_mem_line (h : nul ∉ line) : nul ∉ line ++ ['\n'] := by
  rw [List.mem_append, not_or]
  exact ⟨h, by decide⟩

theorem newline_mem_cstr (hnl : '\n' ∉ line) : '\n' ∈ cstr (line ++ ['\n']) ↔ nul ∉ line := by
  constructor
  · intro h hnul
    obtain ⟨front, back, rfl, hfront⟩ := List.eq_append_cons_of_mem hnul
    rw [List.append_assoc, List.cons_append, cstr_append_nul hfront] at h
    exact hnl (List.mem_append_left _ h)
  · intro h
    rw [cstr_eq_self (nul_not_mem_line h)]
    simp

theorem cstr_line (hnl : '\n' ∉ line) (hnul : nul ∉ line) :
    (cstr (line ++ ['\n'])).takeWhile (· ≠ '\n') = line := by
  rw [cstr_eq_self (nul_not_mem_line hnul), List.takeWhile_append_of_pos]
  · simp
  · intro c hc
    simp only [ne_eq, decide_eq_true_eq]
    rintro rfl
    exact hnl hc

/-- One line of the file: what the loop adds for it, and the flag it leaves. -/
theorem loadLoop_line (hnl : '\n' ∉ line) :
    loadLoop (fgetsReads 1023 [] (line ++ '\n' :: rest)) overflow domains =
      loadLoop (fgetsReads 1023 [] rest) (Swallows line)
        (domains ++ (taken overflow line).toList) := by
  induction hn : line.length using Nat.strong_induction_on generalizing line overflow with
  | _ n ih =>
    by_cases hshort : line.length < 1023
    · rw [fgetsReads_short hnl (by simpa using hshort), List.nil_append, loadLoop]
      have hmod : Swallows line ↔ nul ∈ line := by
        rw [Swallows, Nat.mod_eq_of_lt hshort, Nat.sub_self, List.drop_zero]
      simp only [newline_mem_cstr hnl, hmod, taken, show ¬1022 < line.length by omega]
      by_cases hnul : nul ∈ line
      · simp [hnul]
      · rw [cstr_line hnl hnul]
        cases overflow <;> simp [hnul]
    · -- a full buffer without a newline raises the flag, and the rest of the line is read under it
      have hdrop : '\n' ∉ line.drop 1023 := fun h => hnl (List.mem_of_mem_drop h)
      have htake : '\n' ∉ cstr (line.take 1023) := fun h =>
        hnl (List.mem_of_mem_take ((List.takeWhile_sublist _).subset h))
      have hsame : Swallows (line.drop 1023) ↔ Swallows line := by
        unfold Swallows
        rw [List.drop_drop, List.length_drop]
        have hmod : line.length % 1023 = (line.length - 1023) % 1023 :=
          Nat.mod_eq_sub_mod (by omega)
        have hle := Nat.mod_le (line.length - 1023) 1023
        rw [show 1023 + (line.length - 1023 - (line.length - 1023) % 1023) =
          line.length - line.length % 1023 by omega]
      rw [fgetsReads_long hnl (by decide) (by simpa using hshort)]
      simp only [List.nil_append, List.length_nil, Nat.sub_zero]
      rw [loadLoop, if_pos htake,
        ih (line.drop 1023).length (by rw [List.length_drop]; omega) hdrop rfl]
      simp only [hsame, taken, true_or, if_true,
        show 1022 < line.length by omega, or_true]

/-- A whole file: the lines in front of the last newline are taken one by one, and what
stands behind it adds nothing. -/
theorem loadLoop_file (content : List Char) (overflow : Bool) (domains : List CStr) :
    loadLoop (fgetsReads 1023 [] content) overflow domains =
      domains ++ takenAll overflow (fileLines content).dropLast := by
  induction hn : content.length using Nat.strong_induction_on
    generalizing content overflow domains with
  | _ n ih =>
    by_cases hnl : '\n' ∈ content
    · obtain ⟨line, rest, rfl, hline⟩ := List.eq_append_cons_of_mem hnl
      have hlines : fileLines (line ++ '\n' :: rest) = line :: fileLines rest := by
        rw [fileLines, List.splitOn_append_cons_self, List.splitOn_eq_singleton hline]
        rfl
      have hlen : rest.length < n := by
        rw [← hn, List.length_append, List.length_cons]
        omega
      have hne : fileLines rest ≠ [] := List.splitOn_ne_nil _ _
      rw [loadLoop_line hline, ih _ hlen _ _ _ rfl, hlines, List.dropLast_cons_of_ne_nil hne,
        takenAll, List.append_assoc]
    · rw [loadLoop_no_newline (newline_not_mem_reads (by simp) hnl), fileLines,
        List.splitOn_eq_singleton hnl]
      simp [takenAll]

/-! ## The text of a line -/

/-- The backward walk stops at the last character that is no white space, and never in
front of the first. -/
theorem walkBack_eq {n : Nat} (hn : n < line.length) :
    walkBack line (n + 1) + 1 = max 1 ((line.take (n + 1)).rdropWhile isspace).length := by
  induction n with
  | zero =>
    cases line with
    | nil => cases hn
    | cons c line =>
      have hone : ((c :: line).take (0 + 1)).rdropWhile isspace = if isspace c then [] else [c] :=
        List.rdropWhile_singleton _ _
      rw [hone]
      split <;> rfl
  | succ n ih =>
    have hget : (line)[n + 1]? = some (line.getD (n + 1) nul) := by
      rw [List.getD_eq_getElem?_getD, List.getElem?_eq_getElem hn]
      rfl
    rw [walkBack, List.take_add_one, hget, Option.toList_some]
    by_cases hspace : isspace (line.getD (n + 1) nul)
    · rw [if_pos ⟨by omega, hspace⟩, List.rdropWhile_concat_pos _ _ _ hspace, ih (by omega)]
    · rw [if_neg fun h => hspace h.2, List.rdropWhile_concat_neg _ _ _ hspace]
      simp only [List.length_append, List.length_take, List.length_singleton]
      omega

/-- The text of a line is found unless all of it but its first character is white space. -/
theorem domainOf_eq (hshort : ¬1022 < line.length) :
    domainOf line = if (line.rdropWhile isspace).length < 2 then none else listed line := by
  cases line with
  | nil => rfl
  | cons c line =>
    set text := (c :: line).rdropWhile isspace with htext
    have hwalk : walkBack (c :: line) (c :: line).length + 1 = max 1 text.length := by
      rw [List.length_cons, walkBack_eq (by simp), ← List.length_cons, List.take_length]
    have hfront : text <+: c :: line := List.rdropWhile_prefix _ _
    unfold domainOf listed
    rw [if_neg (List.cons_ne_nil _ _)]
    simp only [hshort, false_or, ← htext]
    by_cases hlen : text.length < 2
    · rw [if_pos (by omega), if_pos hlen]
    · rw [if_neg (by omega), if_neg hlen,
        show walkBack (c :: line) (c :: line).length + 1 = text.length by omega,
        ← List.prefix_iff_eq_take.mp hfront]

theorem taken_eq : taken overflow line =
    if overflow ∨ nul ∈ line ∨ (line.rdropWhile isspace).length < 2 then none
    else listed line := by
  unfold taken
  by_cases hlong : 1022 < line.length
  · simp [listed, hlong]
  · rw [domainOf_eq hlong]
    by_cases hoff : overflow = true ∨ nul ∈ line
    · rw [if_pos (by tauto), if_pos (by tauto)]
    · rw [if_neg (by tauto)]
      exact if_congr (by tauto) rfl rfl

/-! ## When no domain is lost -/

/-- The line lists a domain. -/
def Lists (line : List Char) : Prop := (listed line).isSome = true

/-- No line of the file that lists a domain is lost. -/
structure KeepsDomains (content : List Char) : Prop where
  /-- It has no NUL, and more than its first character is no white space. -/
  plain : ∀ line ∈ (fileLines content).dropLast, Lists line →
    nul ∉ line ∧ 2 ≤ (line.rdropWhile isspace).length
  /-- It does not follow a comment or an over-long line whose newline is not seen. -/
  undisturbed : (fileLines content).dropLast.IsChain fun before line =>
    Swallows before → ¬Lists line
  /-- It ends in a newline. -/
  ended : ∀ line ∈ (fileLines content).getLast?, ¬Lists line

theorem taken_or : taken overflow line = none ∨ taken overflow line = listed line := by
  rw [taken_eq]
  split
  · exact .inl rfl
  · exact .inr rfl

theorem taken_eq_listed : taken overflow line = listed line ↔
    (Lists line → overflow = false ∧ nul ∉ line ∧ 2 ≤ (line.rdropWhile isspace).length) := by
  rw [taken_eq, Lists]
  by_cases hlost : overflow = true ∨ nul ∈ line ∨ (line.rdropWhile isspace).length < 2
  · have hnot : ¬(overflow = false ∧ nul ∉ line ∧ 2 ≤ (line.rdropWhile isspace).length) := by
      rintro ⟨h₁, h₂, h₃⟩
      rcases hlost with h | h | h
      · simp [h₁] at h
      · exact h₂ h
      · omega
    rw [if_pos hlost]
    cases listed line with
    | none => simp
    | some domain => simp [hnot]
  · rw [if_neg hlost]
    rw [not_or, not_or, Bool.not_eq_true, Nat.not_lt] at hlost
    exact iff_of_true rfl fun _ => hlost

theorem filterMap_listed_cons (line : List Char) (lines : List (List Char)) :
    (line :: lines).filterMap listed = (listed line).toList ++ lines.filterMap listed := by
  cases h : listed line <;> simp [h]

theorem takenAll_sublist (overflow : Bool) (lines : List (List Char)) :
    (takenAll overflow lines).Sublist (lines.filterMap listed) := by
  induction lines generalizing overflow with
  | nil => exact .slnil
  | cons line lines ih =>
    rw [takenAll, filterMap_listed_cons]
    refine .append ?_ (ih _)
    rcases @taken_or line overflow with h | h
    · rw [h]
      exact List.nil_sublist _
    · rw [h]

/-- The lines in front of the last newline are all there, read from a flag on. -/
theorem takenAll_eq_iff (overflow : Bool) (lines : List (List Char)) :
    takenAll overflow lines = lines.filterMap listed ↔
      (∀ line ∈ lines, Lists line → nul ∉ line ∧ 2 ≤ (line.rdropWhile isspace).length) ∧
      lines.IsChain (fun before line => Swallows before → ¬Lists line) ∧
      (∀ line ∈ lines.head?, overflow = true → ¬Lists line) := by
  induction lines generalizing overflow with
  | nil => simp [takenAll]
  | cons line lines ih =>
    have hsplit : takenAll overflow (line :: lines) = (line :: lines).filterMap listed ↔
        taken overflow line = listed line ∧
          takenAll (Swallows line) lines = lines.filterMap listed := by
      rw [takenAll, filterMap_listed_cons]
      constructor
      · intro h
        rcases @taken_or line overflow with hnone | hsame
        · cases hlisted : listed line with
          | none =>
            rw [hnone, hlisted] at h
            exact ⟨hnone, h⟩
          | some domain =>
            -- what is lost cannot be made up for by the lines behind
            have hlen := (takenAll_sublist (Swallows line) lines).length_le
            have heq := congrArg List.length h
            simp [hnone, hlisted] at heq
            omega
        · rw [hsame] at h
          exact ⟨hsame, List.append_cancel_left h⟩
      · rintro ⟨h₁, h₂⟩
        rw [h₁, h₂]
    have hchain : (line :: lines).IsChain (fun before line => Swallows before → ¬Lists line) ↔
        (∀ next ∈ lines.head?, Swallows line → ¬Lists next) ∧
          lines.IsChain (fun before line => Swallows before → ¬Lists line) := by
      cases lines with
      | nil => simp
      | cons next lines => simp [List.isChain_cons_cons]
    rw [hsplit, taken_eq_listed, ih, hchain]
    simp only [decide_eq_true_eq, List.forall_mem_cons, List.head?_cons, Option.mem_def,
      Option.some.injEq, forall_eq']
    cases overflow
    · simp only [true_and, Bool.false_eq_true, false_implies, and_true]
      tauto
    · simp only [Bool.true_eq_false, false_and, imp_false, true_implies]
      tauto

/-- The domains of a file are loaded, each in its place, exactly when no line that lists one
is lost. -/
theorem domains_loaded_iff (g : Greylister) (content : List Char) :
    (greyLoadDomains g (some content)).domains = listedDomains content ↔
      KeepsDomains content := by
  obtain ⟨lines, last, hlines⟩ : ∃ lines last, fileLines content = lines ++ [last] :=
    ⟨_, _, (List.dropLast_append_getLast (List.splitOn_ne_nil _ _)).symm⟩
  have hloaded : (greyLoadDomains g (some content)).domains = takenAll false lines := by
    rw [greyLoadDomains, loadLoop_file, List.nil_append, hlines, List.dropLast_concat]
  have hlisted : listedDomains content = lines.filterMap listed ++ (listed last).toList := by
    rw [listedDomains, hlines, List.filterMap_append, filterMap_listed_cons]
    simp
  have hall : takenAll false lines = lines.filterMap listed ++ (listed last).toList ↔
      takenAll false lines = lines.filterMap listed ∧ ¬Lists last := by
    cases h : listed last with
    | none => simp [Lists, h]
    | some domain =>
      have hlen := (takenAll_sublist false lines).length_le
      refine iff_of_false (fun heq => ?_) (fun ⟨_, hno⟩ => hno (by simp [Lists, h]))
      have heq := congrArg List.length heq
      simp at heq
      omega
  rw [hloaded, hlisted, hall, takenAll_eq_iff]
  constructor
  · rintro ⟨⟨hplain, hchain, -⟩, hended⟩
    refine ⟨?_, ?_, ?_⟩
    · rwa [hlines, List.dropLast_concat]
    · rwa [hlines, List.dropLast_concat]
    · simpa [hlines] using hended
  · intro h
    obtain ⟨hplain, hchain, hended⟩ := h
    rw [hlines, List.dropLast_concat] at hplain hchain
    refine ⟨⟨hplain, hchain, by simp⟩, ?_⟩
    simpa [hlines] using hended

/-- A domain of one letter is lost, and so is one with no newline behind it. -/
theorem domains_lost :
    (greyLoadDomains defaultGreylister (some "a\n".toList)).domains ≠
        listedDomains "a\n".toList ∧
      (greyLoadDomains defaultGreylister (some "org".toList)).domains ≠
        listedDomains "org".toList := by
  decide

end Greyd
