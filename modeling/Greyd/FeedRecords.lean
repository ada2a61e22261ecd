import Mathlib.Tactic
import Greyd.FeedLines
import Greyd.RangeCalls

/-!
# What a feed leaves in the blacklist

A feed that is accepted leaves the ranges of the lines that its parser has read. The first
character that the lexer does not know looks like the end of the text, and a range that runs
up to the last address is not stored.
-/
namespace Greyd

/-! ## Segments of tokens -/

theorem readAddress_eol (left : Nat) {ts : List SpamdTok} (more : List SpamdTok) :
    readAddress left (ts ++ .eol :: more) =
      ((readAddress left ts).1, (readAddress left ts).2 ++ .eol :: more) := by
  induction left generalizing ts with
  | zero => rfl
  | succ left ih =>
    rcases ts with _ | ⟨t, ts⟩
    · rfl
    · rw [List.cons_append, readAddress, readAddress]
      cases number? t with
      | none => rfl
      | some v =>
        dsimp only
        by_cases hleft : left = 0
        · simp [hleft]
        · rw [if_neg hleft, if_neg hleft]
          rcases ts with _ | ⟨t', ts⟩
          · rfl
          · cases t' with
            | dot => simp [ih]
            | _ => rfl

theorem readEntry_eol {ts : List SpamdTok} (more : List SpamdTok) :
    readEntry (ts ++ .eol :: more) = ((readEntry ts).1, (readEntry ts).2 ++ .eol :: more) := by
  rw [readEntry, readEntry, readAddress_eol]
  rcases readAddress spamdParserIpv4Quads ts with ⟨_ | start, rest⟩
  · rfl
  · rcases rest with _ | ⟨t, rest⟩
    · rfl
    · cases t with
      | slash =>
        rcases rest with _ | ⟨t', rest⟩
        · rfl
        · cases t' <;> rfl
      | dash => simp [readAddress_eol]
      | _ => rfl

/-- The ranges of a sequence of lines, and whether the parser is content with them. Only the
last line may break off. -/
def readSegments : List (List SpamdTok) → List FeedRange × Bool
  | [] => ([], true)
  | [] :: segs => readSegments segs
  | seg :: segs =>
    match readEntry seg with
    | (some r, []) => (r :: (readSegments segs).1, (readSegments segs).2)
    | (some r, _) => ([r], false)
    | (none, rest) => ([], decide (rest = [] ∧ segs = []))

theorem readEntries_stop (fuel : Nat) {ts : List SpamdTok} (h : .eol ∉ ts) :
    readEntries fuel ts = ([], .stopped ts) := by
  rcases ts with _ | ⟨t, ts⟩
  · cases fuel <;> rfl
  · cases t with
    | eol => exact absurd List.mem_cons_self h
    | _ => cases fuel <;> rfl

private theorem dropWhile_eol {seg : List SpamdTok} (hne : seg ≠ []) (heol : .eol ∉ seg)
    (more : List SpamdTok) : (seg ++ more).dropWhile (· = .eol) = seg ++ more := by
  obtain ⟨t, ts, rfl⟩ := List.exists_cons_of_ne_nil hne
  rw [List.mem_cons, not_or] at heol
  rw [List.cons_append, List.dropWhile_cons_of_neg]
  simpa using fun h => heol.1 h.symm

private theorem readEntries_last (fuel : Nat) {seg : List SpamdTok} (heol : .eol ∉ seg) :
    (readEntries (fuel + 1) (.eol :: seg)).1 = (readSegments [seg]).1 ∧
      (readEntries (fuel + 1) (.eol :: seg)).2.ok = (readSegments [seg]).2 := by
  by_cases hne : seg = []
  · subst hne
    exact ⟨rfl, rfl⟩
  · have hdrop := dropWhile_eol hne heol []
    rw [List.append_nil] at hdrop
    rw [readEntries, hdrop, readSegments.eq_3 _ _ hne]
    rcases hread : readEntry seg with ⟨_ | r, rest⟩
    · simp [FeedEnd.ok, hread]
    · obtain ⟨e, -, rfl⟩ := entry_of_readEntry hread
      have hrest : .eol ∉ rest := fun h => heol (List.mem_append_right e h)
      dsimp only
      rw [readEntries_stop fuel hrest]
      cases rest <;> simp [FeedEnd.ok, readSegments]

/-- The parser reads the segments one by one. -/
theorem readEntries_segments {fuel : Nat} {segs : List (List SpamdTok)} (hne : segs ≠ [])
    (heol : ∀ seg ∈ segs, .eol ∉ seg) (hfuel : ([.eol].intercalate segs).length + 1 < fuel) :
    (readEntries fuel (.eol :: [.eol].intercalate segs)).1 = (readSegments segs).1 ∧
      (readEntries fuel (.eol :: [.eol].intercalate segs)).2.ok = (readSegments segs).2 := by
  induction segs generalizing fuel with
  | nil => exact absurd rfl hne
  | cons seg segs ih =>
    obtain ⟨fuel, rfl⟩ := Nat.exists_eq_succ_of_ne_zero (Nat.ne_of_gt (Nat.zero_lt_of_lt hfuel))
    rw [List.forall_mem_cons] at heol
    by_cases hlast : segs = []
    · subst hlast
      rw [List.intercalate_singleton]
      exact readEntries_last fuel heol.1
    · have hjoin : [SpamdTok.eol].intercalate (seg :: segs) =
          seg ++ .eol :: [.eol].intercalate segs := by
        rw [List.intercalate_cons_of_ne_nil hlast]
        simp
      rw [hjoin, List.length_append, List.length_cons] at hfuel
      rw [hjoin]
      by_cases hempty : seg = []
      · subst hempty
        have hlt : ([SpamdTok.eol].intercalate segs).length + 1 < fuel + 1 :=
          Nat.lt_succ_of_lt (by simpa using hfuel)
        exact ih hlast heol.2 hlt
      · have hpos := List.length_pos_iff.mpr hempty
        rw [readEntries, dropWhile_eol hempty heol.1, readEntry_eol, readSegments.eq_3 _ _ hempty]
        rcases hread : readEntry seg with ⟨_ | r, rest⟩
        · simp [FeedEnd.ok, hlast, readEntry_eol, hread]
        · rcases rest with _ | ⟨t, rest⟩
          · have hlt : ([SpamdTok.eol].intercalate segs).length + 1 < fuel := by omega
            obtain ⟨hranges, hok⟩ := ih hlast heol.2 hlt
            exact ⟨congrArg (r :: ·) hranges, hok⟩
          · obtain ⟨e, -, rfl⟩ := entry_of_readEntry hread
            have ht : t ≠ .eol := by
              rintro rfl
              exact heol.1 (by simp)
            have hstop : readEntries fuel (t :: rest ++ .eol :: [.eol].intercalate segs) =
                ([], .stopped (t :: rest ++ .eol :: [.eol].intercalate segs)) := by
              cases t with
              | eol => exact absurd rfl ht
              | _ => cases fuel <;> rfl
            dsimp only
            rw [hstop]
            exact ⟨rfl, rfl⟩

/-- A reading that ends well has taken every segment but the last whole. -/
theorem readSegments_mem {segs : List (List SpamdTok)} (h : (readSegments segs).2 = true)
    (r : FeedRange) : r ∈ (readSegments segs).1 ↔ ∃ seg ∈ segs, readEntry seg = (some r, []) := by
  induction segs with
  | nil => simp [readSegments]
  | cons seg segs ih =>
    by_cases hempty : seg = []
    · subst hempty
      rw [readSegments, ih h, List.exists_mem_cons_iff]
      exact (or_iff_right (fun h => by cases h)).symm
    · rw [readSegments.eq_3 _ _ hempty] at h ⊢
      rw [List.exists_mem_cons_iff]
      rcases hread : readEntry seg with ⟨_ | r', _ | ⟨t, rest⟩⟩
      · rw [hread] at h
        have hsegs : segs = [] := by simpa using h
        simp [hsegs]
      · rw [hread] at h
        simp at h
      · rw [hread] at h
        simp [ih h, eq_comm]
      · rw [hread] at h
        cases h

theorem readSegments_whole {segs : List (List SpamdTok)} (h : (readSegments segs).2 = true)
    {seg : List SpamdTok} (hseg : seg ∈ segs.dropLast) :
    seg = [] ∨ ∃ r, readEntry seg = (some r, []) := by
  induction segs with
  | nil => cases hseg
  | cons seg' segs ih =>
    have hsegs : segs ≠ [] := by
      rintro rfl
      cases hseg
    rw [List.dropLast_cons_of_ne_nil hsegs, List.mem_cons] at hseg
    by_cases hempty : seg' = []
    · subst hempty
      exact hseg.elim .inl (ih h)
    · rw [readSegments.eq_3 _ _ hempty] at h
      rcases hread : readEntry seg' with ⟨_ | r, _ | ⟨t, rest⟩⟩
      · rw [hread] at h
        simp [hsegs] at h
      · rw [hread] at h
        simp at h
      · rw [hread] at h
        exact hseg.elim (fun he => .inr ⟨r, he ▸ hread⟩) (ih h)
      · rw [hread] at h
        cases h

/-! ## Lines and their entries -/

def lineTokens (line : List Char) : List SpamdTok := (lexFeed (spamdLexerCreate line)).1

/-- The line has a character that the lexer does not know. -/
def stops (line : List Char) : Bool := !(lexFeed (spamdLexerCreate line)).2

/-- The lines that are read, the one with the first unknown character as the last of them,
and the lines behind it. -/
def readLines : List (List Char) → List (List Char) × List (List Char)
  | [] => ([], [])
  | line :: lines =>
    if stops line then ([line], lines) else (line :: (readLines lines).1, (readLines lines).2)

/-- The entry that a text is. -/
def entryText (text : List Char) : Option FeedRange :=
  match readEntry (lineTokens text) with
  | (some r, []) => if stops text then none else some r
  | _ => none

/-- The entry among the first characters of a line, the longest one: what follows it is a
space and text that is ignored, or nothing. -/
def longestEntry (line : List Char) : Nat → Option FeedRange
  | 0 => none
  | n + 1 =>
    let entry := if (line.drop (n + 1)).head?.all (· = ' ') then entryText (line.take (n + 1)) else none
    entry.or (longestEntry line n)

def lineEntry (line : List Char) : Option FeedRange := longestEntry line line.length

theorem readLines_append (lines : List (List Char)) : (readLines lines).1 ++ (readLines lines).2 = lines := by
  induction lines with
  | nil => rfl
  | cons line lines ih =>
    rw [readLines]
    split
    · rfl
    · simp [ih]

theorem readLines_ne_nil {lines : List (List Char)} (h : lines ≠ []) : (readLines lines).1 ≠ [] := by
  obtain ⟨line, lines, rfl⟩ := List.exists_cons_of_ne_nil h
  rw [readLines]
  split <;> simp

/-- No line but the last that is read has an unknown character. -/
theorem stops_of_mem_dropLast {lines : List (List Char)} {line : List Char}
    (h : line ∈ (readLines lines).1.dropLast) : stops line = false := by
  induction lines with
  | nil => cases h
  | cons first lines ih =>
    rw [readLines] at h
    split at h
    · cases h
    · next hfirst =>
      by_cases hlines : (readLines lines).1 = []
      · rw [hlines] at h
        cases h
      · rw [List.dropLast_cons_of_ne_nil hlines, List.mem_cons] at h
        rcases h with rfl | h
        · simpa using hfirst
        · exact ih h

/-- The tokens of a text, line by line. -/
theorem lexFeed_lines {lines : List (List Char)} (hne : lines ≠ [])
    (heol : ∀ line ∈ lines, '\n' ∉ line) :
    lineTokens (['\n'].intercalate lines) =
      [.eol].intercalate ((readLines lines).1.map lineTokens) := by
  induction lines with
  | nil => exact absurd rfl hne
  | cons line lines ih =>
    rw [List.forall_mem_cons] at heol
    have hin : InLine (spamdLexerCreate line) := ⟨heol.1, fun h => by cases h⟩
    by_cases hlast : lines = []
    · subst hlast
      have hread : (readLines [line]).1 = [line] := by
        rw [readLines]
        split <;> rfl
      rw [hread, List.intercalate_singleton, List.map_singleton, List.intercalate_singleton]
    · have hjoin : spamdLexerCreate (['\n'].intercalate (line :: lines)) =
          (spamdLexerCreate line).behind (['\n'].intercalate lines) := by
        rw [List.intercalate_cons_of_ne_nil hlast]
        simp [spamdLexerCreate, Lexer.behind]
      rw [lineTokens, hjoin, lexFeed_behind hin, readLines]
      by_cases hstops : stops line = true
      · have hunknown : (lexFeed (spamdLexerCreate line)).2 = false := by simpa [stops] using hstops
        simp [hstops, hunknown, lineTokens]
      · have hknown : (lexFeed (spamdLexerCreate line)).2 = true := by simpa [stops] using hstops
        rw [if_neg hstops, if_pos hknown, List.map_cons,
          List.intercalate_cons_of_ne_nil (by simpa using readLines_ne_nil hlast), ← ih hlast heol.2]
        simp [lineTokens]

/-! ## Lines that are read whole -/

private theorem skipBlanks_take {comment : Bool} {cs : List Char} (h : (skipBlanks comment cs).source = [])
    (n : Nat) : (skipBlanks comment (cs.take n)).source = [] := by
  induction cs generalizing comment n with
  | nil => simp [skipBlanks]
  | cons c cs ih =>
    cases n with
    | zero => rfl
    | succ n =>
      rw [List.take_succ_cons, skipBlanks]
      rw [skipBlanks] at h
      split_ifs at h ⊢
      · cases h
      · exact ih h n
      · exact ih h n
      · exact ih h n

private theorem lineTokens_eq_nil {line : List Char} (hstops : stops line = false)
    (h : lineTokens line = []) : (skipBlanks false line).source = [] := by
  have hknown : (lexFeed (spamdLexerCreate line)).2 = true := by simpa [stops] using hstops
  by_cases heof : (spamdLexerNextToken (spamdLexerCreate line)).1 = .eof
  · rw [lexFeed_eof heof, Lexer.atEnd] at hknown
    simpa [spamdLexerCreate] using hknown
  · rw [lineTokens, lexFeed_tok heof] at h
    cases h

private theorem lineTokens_of_blank {line : List Char} (h : (skipBlanks false line).source = []) :
    lineTokens line = [] := by
  rw [lineTokens, lexFeed_eof (next_atEnd _)]
  simp [Lexer.atEnd, spamdLexerCreate, h]

/-- A line of blanks and comments holds no entry. -/
theorem lineEntry_of_blank {line : List Char} (hstops : stops line = false) (h : lineTokens line = []) :
    lineEntry line = none := by
  have hblank := lineTokens_eq_nil hstops h
  have hlongest : ∀ n, longestEntry line n = none := by
    intro n
    induction n with
    | zero => rfl
    | succ n ih =>
      have htake := lineTokens_of_blank (skipBlanks_take hblank (n + 1))
      have hentry : entryText (line.take (n + 1)) = none := by
        rw [entryText, htake]
        rfl
      rw [longestEntry, ih, hentry, ite_self]
      rfl
  exact hlongest _

/-- A line that reads as an entry holds that one. -/
theorem lineEntry_of_entry {line : List Char} {r : FeedRange} (hstops : stops line = false)
    (h : readEntry (lineTokens line) = (some r, [])) : lineEntry line = some r := by
  cases hlen : line.length with
  | zero =>
    rw [List.length_eq_zero_iff.mp hlen] at h
    cases h
  | succ n =>
    rw [lineEntry, hlen, longestEntry, ← hlen, List.take_length, List.drop_length, entryText, h]
    simp [hstops]

/-! ## What is recorded -/

def feedLines (text : List Char) : List (List Char) := text.splitOn '\n'

/-- The range is that of a line which is read. -/
def ReadFrom (text : List Char) (r : FeedRange) : Prop :=
  ∃ line ∈ (readLines (feedLines text)).1, readEntry (lineTokens line) = (some r, [])

/-- What stands between an accepted feed and its entries: the lines behind the first unknown
character, the line of that character or one that breaks off, and entries that run up to
the last address. -/
structure NothingLost (text : List Char) : Prop where
  behind : ∀ line ∈ (readLines (feedLines text)).2, ∀ r, lineEntry line = some r → ReadFrom text r
  last : ∀ line ∈ (readLines (feedLines text)).1.getLast?, ∀ r, lineEntry line = some r → ReadFrom text r
  stored : ∀ line ∈ feedLines text, ∀ r, lineEntry line = some r → r.1 ≤ r.2

/-- The array has the two elements of the range behind those it had before. -/
def RecordedSince (before after : Blacklist) (type : BlType) (r : FeedRange) : Prop :=
  ∃ i, before.count ≤ 2 * i ∧ (after.entries.drop (2 * i)).take 2 = rangeEvents type r

theorem recordedSince_iff {name message : CStr} {calls : List AddCall} {b b' : Blacklist}
    (hb : addCalls (blacklistCreate name message .list) calls = some b) {type : BlType}
    {ranges : List FeedRange} (hb' : addRanges b type ranges = some b') (r : FeedRange) :
    RecordedSince b b' type r ↔ r ∈ ranges ∧ r.1 ≤ r.2 := by
  have hfirst := firstAlloc_of_addCalls hb
  have hboth : addCalls (blacklistCreate name message .list) (calls ++ ranges.map (·, type)) = some b' := by
    rw [addCalls_append, hb, Option.bind_some, ← addRanges_eq_addCalls, hb']
  have hentries : b'.entries = callEvents calls ++ (ranges.filter fun r => r.1 ≤ r.2).flatMap (rangeEvents type) := by
    rw [(firstAlloc_of_addCalls hboth).entries, callEvents, List.filter_append, List.flatMap_append,
      List.filter_map, List.flatMap_map]
    rfl
  have hcount : b.count = (callEvents calls).length := hfirst.count
  have heven := even_callEvents calls
  have hkept : r ∈ ranges ∧ r.1 ≤ r.2 ↔ r ∈ ranges.filter fun r => r.1 ≤ r.2 := by simp
  rw [RecordedSince, hentries, hcount, hkept,
    ← mem_pairs_iff (rangeEvents_length type) (fun _ _ => rangeEvents_inj)]
  obtain ⟨k, hk⟩ := heven
  constructor
  · intro h
    obtain ⟨i, hi, htake⟩ := h
    refine ⟨i - k, ?_⟩
    rw [← htake, show 2 * i = (callEvents calls).length + 2 * (i - k) by omega, List.drop_length_add_append]
  · intro h
    obtain ⟨i, htake⟩ := h
    refine ⟨i + k, by omega, ?_⟩
    rw [← htake, show 2 * (i + k) = (callEvents calls).length + 2 * i by omega, List.drop_length_add_append]

private theorem not_mem_of_mem_splitOn (text : List Char) {line : List Char}
    (h : line ∈ text.splitOn '\n') : '\n' ∉ line := by
  rw [List.splitOn_eq_splitOnP] at h
  induction text generalizing line with
  | nil =>
    rw [List.splitOnP_nil, List.mem_singleton] at h
    simp [h]
  | cons c cs ih =>
    rw [List.splitOnP_cons_eq_if_modifyHead] at h
    split at h
    · rcases List.mem_cons.mp h with rfl | h
      · simp
      · exact ih h
    · next hc =>
      obtain ⟨first, others, hsplit⟩ := List.exists_cons_of_ne_nil (List.splitOnP_ne_nil (· == '\n') cs)
      rw [hsplit] at h ih
      rcases List.mem_cons.mp h with rfl | h
      · rw [List.mem_cons, not_or]
        exact ⟨fun hnl => hc (by simpa using hnl.symm), ih List.mem_cons_self⟩
      · exact ih (List.mem_cons_of_mem _ h)

theorem feedLines_spec (text : List Char) : ['\n'].intercalate (feedLines text) = text ∧
    feedLines text ≠ [] ∧ ∀ line ∈ feedLines text, '\n' ∉ line :=
  ⟨List.intercalate_splitOn '\n', List.splitOn_ne_nil '\n' text, fun _ => not_mem_of_mem_splitOn text⟩

/-- The tokens of the text, read as a whole and line by line. -/
theorem readFeed_lines (text : List Char) :
    (readFeed (lineTokens text)).1 = (readSegments ((readLines (feedLines text)).1.map lineTokens)).1 ∧
      (readFeed (lineTokens text)).2.ok =
        (readSegments ((readLines (feedLines text)).1.map lineTokens)).2 := by
  obtain ⟨htext, hne, heol⟩ := feedLines_spec text
  have htokens := lexFeed_lines hne heol
  rw [htext] at htokens
  have hsub : ∀ line ∈ (readLines (feedLines text)).1, '\n' ∉ line := fun line hline =>
    heol line (readLines_append (feedLines text) ▸ List.mem_append_left _ hline)
  rw [readFeed, htokens]
  refine readEntries_segments (by simpa using readLines_ne_nil hne) ?_ (by omega)
  intro seg hseg
  obtain ⟨line, hline, rfl⟩ := List.mem_map.mp hseg
  exact eol_not_mem_lexFeed ⟨hsub line hline, fun h => by cases h⟩

/-- In an accepted feed, the entry of a line in front of the last one read is recorded. -/
theorem readFrom_of_mem_dropLast {text : List Char} (hok : (readFeed (lineTokens text)).2.ok = true)
    {line : List Char} (hline : line ∈ (readLines (feedLines text)).1.dropLast) {r : FeedRange}
    (hentry : lineEntry line = some r) : ReadFrom text r := by
  have hstops := stops_of_mem_dropLast hline
  rw [(readFeed_lines text).2] at hok
  have hseg : lineTokens line ∈ ((readLines (feedLines text)).1.map lineTokens).dropLast := by
    rw [← List.map_dropLast]
    exact List.mem_map_of_mem hline
  rcases readSegments_whole hok hseg with hblank | ⟨r', hread⟩
  · rw [lineEntry_of_blank hstops hblank] at hentry
    cases hentry
  · rw [lineEntry_of_entry hstops hread] at hentry
    exact ⟨line, List.mem_of_mem_dropLast hline, Option.some.inj hentry ▸ hread⟩

/-- Nothing is lost from an accepted feed exactly where nothing stands between it and its
entries. -/
theorem feed_recorded_iff {name message : CStr} {calls : List AddCall} {blacklist : Blacklist}
    (hb : addCalls (blacklistCreate name message .list) calls = some blacklist)
    (text : List Char) (type : BlType) :
    (∀ parser, spamdParserStart spamdLexerNextToken (text.length + 1) (spamdLexerCreate text)
        blacklist type = some (true, parser) →
      ∀ line ∈ feedLines text, ∀ r, lineEntry line = some r →
        RecordedSince blacklist parser.blacklist type r) ↔
      (FeedFits blacklist type (lineTokens text) →
        Feed (lineTokens text) ∨ EndsInEntry (lineTokens text) → NothingLost text) := by
  have hfeeds : Feeds spamdLexerNextToken (spamdLexerCreate text) (lineTokens text) := feeds_lexFeed _
  have hlen : (lineTokens text).length < text.length + 1 := Nat.lt_succ_of_le (lexFeed_length _)
  obtain ⟨parser, hrun⟩ := spamdParserStart_reads hfeeds hlen blacklist type
  rw [hrun, FeedFits, ← ok_iff]
  cases hadd : addRanges blacklist type (readFeed (lineTokens text)).1 with
  | none => simp
  | some b =>
    cases hok : (readFeed (lineTokens text)).2.ok with
    | false => simp
    | true =>
      have hmem : ∀ r, RecordedSince blacklist b type r ↔ ReadFrom text r ∧ r.1 ≤ r.2 := by
        intro r
        rw [recordedSince_iff hb hadd, (readFeed_lines text).1,
          readSegments_mem ((readFeed_lines text).2.symm.trans hok)]
        simp [ReadFrom]
      have hrecorded : (∀ parser', some (true, { parser with blacklist := b }) = some (true, parser') →
          ∀ line ∈ feedLines text, ∀ r, lineEntry line = some r →
            RecordedSince blacklist parser'.blacklist type r) ↔
          ∀ line ∈ feedLines text, ∀ r, lineEntry line = some r → ReadFrom text r ∧ r.1 ≤ r.2 := by
        simp only [Option.some.injEq, Prod.mk.injEq, true_and, forall_eq', hmem]
      rw [Option.map_some, hrecorded]
      simp only [Option.isSome_some, forall_const]
      constructor
      · intro h
        have hsplit := readLines_append (feedLines text)
        refine ⟨fun line hline r hr => (h line ?_ r hr).1, fun line hline r hr => (h line ?_ r hr).1,
          fun line hline r hr => (h line hline r hr).2⟩
        · exact hsplit ▸ List.mem_append_right _ hline
        · exact hsplit ▸ List.mem_append_left _ (List.mem_of_mem_getLast? hline)
      · intro h line hline r hr
        refine ⟨?_, h.stored line hline r hr⟩
        rw [← readLines_append (feedLines text), List.mem_append] at hline
        rcases hline with hread | hbehind
        · have hne : (readLines (feedLines text)).1 ≠ [] := List.ne_nil_of_mem hread
          rw [← List.dropLast_append_getLast hne, List.mem_append, List.mem_singleton] at hread
          rcases hread with hfront | hlast
          · exact readFrom_of_mem_dropLast hok hfront hr
          · exact h.last line (by rw [List.getLast?_eq_getLast_of_ne_nil hne, hlast]; rfl) r hr
        · exact h.behind line hbehind r hr

def twoAddresses : List Char := "10.0.0.1 # one\n10.0.0.2\n".toList

theorem feed_recorded_two : ∃ parser : SpamdParser Lexer,
    spamdParserStart spamdLexerNextToken (twoAddresses.length + 1) (spamdLexerCreate twoAddresses)
        (blacklistCreate [] [] .list) .black = some (true, parser) ∧
      ∀ line ∈ feedLines twoAddresses, ∀ r, lineEntry line = some r →
        RecordedSince (blacklistCreate [] [] .list) parser.blacklist .black r := by
  have hnone : addCalls (blacklistCreate [] [] .list) [] = some (blacklistCreate [] [] .list) := rfl
  have haccepted : (spamdParserStart spamdLexerNextToken (twoAddresses.length + 1)
      (spamdLexerCreate twoAddresses) (blacklistCreate [] [] .list) .black).map Prod.fst = some true := by
    decide +kernel
  obtain ⟨⟨_, parser⟩, hrun, rfl⟩ := Option.map_eq_some_iff.mp haccepted
  refine ⟨parser, hrun, (feed_recorded_iff hnone twoAddresses .black).mpr (fun _ _ => ⟨?_, ?_, ?_⟩)
    parser hrun⟩
  · have hbehind : (readLines (feedLines twoAddresses)).2 = [] := by decide +kernel
    simp [hbehind]
  · have hlast : (readLines (feedLines twoAddresses)).1.getLast? = some [] := by decide +kernel
    intro line hline r hr
    rw [hlast, Option.mem_some_iff] at hline
    subst hline
    cases hr
  · have hstored : ((feedLines twoAddresses).filterMap lineEntry).all (fun r => r.1 ≤ r.2) = true := by
      decide +kernel
    intro line hline r hr
    exact of_decide_eq_true (List.all_eq_true.mp hstored r (List.mem_filterMap.mpr ⟨line, hline, hr⟩))

/-- The first letter that is no part of a comment ends the feed, and it is accepted. -/
theorem feed_truncated :
    let text := "10.0.0.1 foo\n10.0.0.2\n".toList
    let line := "10.0.0.2".toList
    let r : FeedRange := (0x0a000002, 0x0a000003)
    line ∈ feedLines text ∧ lineEntry line = some r ∧
      ∃ parser, spamdParserStart spamdLexerNextToken (text.length + 1) (spamdLexerCreate text)
          (blacklistCreate [] [] .list) .black = some (true, parser) ∧
        ¬ RecordedSince (blacklistCreate [] [] .list) parser.blacklist .black r := by
  intro text line r
  refine ⟨by decide +kernel, by decide +kernel, ?_⟩
  have hrun : (spamdParserStart spamdLexerNextToken (text.length + 1) (spamdLexerCreate text)
      (blacklistCreate [] [] .list) .black).map (fun p => (p.1, p.2.blacklist.entries)) =
        some (true, rangeEvents .black (0x0a000001, 0x0a000002)) := by decide +kernel
  obtain ⟨⟨ok, parser⟩, hstart, hresult⟩ := Option.map_eq_some_iff.mp hrun
  obtain ⟨rfl, hentries⟩ := Prod.mk.inj hresult
  refine ⟨parser, hstart, fun hrecorded => ?_⟩
  obtain ⟨i, -, htake⟩ := hrecorded
  rw [hentries] at htake
  cases i with
  | zero => exact absurd htake (by decide)
  | succ i => exact absurd (congrArg List.length htake) (by simp [rangeEvents])

end Greyd
