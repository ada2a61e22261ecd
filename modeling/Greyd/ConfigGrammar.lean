import Mathlib.Tactic
import Greyd.ConfigLexer

/-!
# The grammar of the configuration (config_parser.h)

The productions of the header over the tokens in front of EOF, and those of the statements
that the tail rules of the parser let pass although a part of them is missing. `readConfig`
tells the two apart in one pass.
-/
namespace Greyd.ConfigGrammar

/-! ## The BNF -/

/-- Optional ends of line. -/
def OptEol (e : List Token) : Prop := ∀ t ∈ e, t = .eol

/-- EOL: a run of ends of line counts as one. -/
def Eol (e : List Token) : Prop := ∃ more, e = .eol :: more ∧ OptEol more

inductive OptComma : List Token → Prop
  | none : OptComma []
  | comma : OptComma [.comma]

inductive ListValue : List Token → Prop
  | int (i : Int) : ListValue [.int i]
  | str (s : CStr) : ListValue [.str s]

/-- `list_values`, with or without EOL behind a comma, and with a trailing comma. -/
inductive ListValues : List Token → Prop
  | next {e v vs : List Token} (he : OptEol e) (hv : ListValue v) (hvs : ListValues vs) :
      ListValues (.comma :: (e ++ v ++ vs))
  | nil : ListValues []
  | trailing : ListValues [.comma]

inductive ListStatements : List Token → Prop
  | mk {v vs : List Token} (hv : ListValue v) (hvs : ListValues vs) : ListStatements (v ++ vs)

/-- `list`, behind its opening bracket. -/
inductive ListTail : List Token → Prop
  | mk {e w e' : List Token} (he : OptEol e) (hw : ListStatements w) (he' : OptEol e') :
      ListTail (e ++ w ++ e' ++ [.sqbrackR])

inductive Assignment : List Token → Prop
  | int (varname : CStr) (i : Int) : Assignment [.name varname, .eq, .int i]
  | str (varname s : CStr) : Assignment [.name varname, .eq, .str s]
  | list (varname : CStr) {l : List Token} (hl : ListTail l) :
      Assignment ([.name varname, .eq, .sqbrackL] ++ l)

/-- `section_assignments`, with optional commas. -/
inductive SectionAssignments : List Token → Prop
  | next {c e a more : List Token} (hc : OptComma c) (he : Eol e) (ha : Assignment a)
      (hmore : SectionAssignments more) : SectionAssignments (c ++ e ++ a ++ more)
  | last {c : List Token} (hc : OptComma c) : SectionAssignments c

inductive SectionType : Token → Prop
  | section : SectionType .section
  | blacklist : SectionType .blacklist
  | whitelist : SectionType .whitelist

/-- A section behind its name, with optional ends of line around the braces. -/
inductive Block (assignments : List Token → Prop) : List Token → Prop
  | mk {e e' a more e'' : List Token} (he : OptEol e) (he' : OptEol e') (ha : Assignment a)
      (hmore : assignments more) (he'' : OptEol e'') :
      Block assignments (e ++ [.bracketL] ++ e' ++ a ++ more ++ e'' ++ [.bracketR])

inductive Section : List Token → Prop
  | mk {t : Token} (ht : SectionType t) (secname : CStr) {w : List Token}
      (hw : Block SectionAssignments w) : Section ([t, .name secname] ++ w)

inductive Include : List Token → Prop
  | mk (s : CStr) : Include [.include, .str s]

inductive Statement : List Token → Prop
  | assignment {w : List Token} (h : Assignment w) : Statement w
  | section {w : List Token} (h : Section w) : Statement w
  | include {w : List Token} (h : Include w) : Statement w

/-- `statements`, with trailing ends of line. -/
inductive Statements : List Token → Prop
  | next {e w more : List Token} (he : Eol e) (hw : Statement w) (hmore : Statements more) :
      Statements (e ++ w ++ more)
  | last {e : List Token} (he : OptEol e) : Statements e

/-- `config`, with leading ends of line. -/
inductive Config : List Token → Prop
  | statements {e w more : List Token} (he : OptEol e) (hw : Statement w) (hmore : Statements more) :
      Config (e ++ w ++ more)
  | empty {e : List Token} (he : OptEol e) : Config e

/-! ## Broken statements -/

/-- A list behind its opening bracket, without a value or without the closing one. -/
inductive BrokenTail : List Token → Prop
  | opened {e : List Token} (he : OptEol e) : BrokenTail e
  | values {e w e' : List Token} (he : OptEol e) (hw : ListStatements w) (he' : OptEol e') :
      BrokenTail (e ++ w ++ e')

/-- The beginning of an assignment that breaks off. -/
inductive BrokenAssignment : List Token → Prop
  | name (varname : CStr) : BrokenAssignment [.name varname]
  | eq (varname : CStr) : BrokenAssignment [.name varname, .eq]
  | list (varname : CStr) {l : List Token} (hl : BrokenTail l) :
      BrokenAssignment ([.name varname, .eq, .sqbrackL] ++ l)

/-- Assignments of a section, the last of which breaks off. -/
inductive BrokenAssignments : List Token → Prop
  | next {c e a more : List Token} (hc : OptComma c) (he : Eol e) (ha : Assignment a)
      (hmore : BrokenAssignments more) : BrokenAssignments (c ++ e ++ a ++ more)
  | last {c e b : List Token} (hc : OptComma c) (he : Eol e) (hb : BrokenAssignment b) :
      BrokenAssignments (c ++ e ++ b)

/-- A whole section, but for its last assignment. -/
inductive PatchedSection : List Token → Prop
  | mk {t : Token} (ht : SectionType t) (secname : CStr) {w : List Token}
      (hw : Block BrokenAssignments w) : PatchedSection ([t, .name secname] ++ w)

/-- A section behind its name, up to where it breaks off. -/
inductive BrokenBlock : List Token → Prop
  | named {e : List Token} (he : OptEol e) : BrokenBlock e
  | opened {e e' : List Token} (he : OptEol e) (he' : OptEol e') : BrokenBlock (e ++ [.bracketL] ++ e')
  | first {e e' b : List Token} (he : OptEol e) (he' : OptEol e') (hb : BrokenAssignment b) :
      BrokenBlock (e ++ [.bracketL] ++ e' ++ b)
  | unclosed {e e' a more e'' : List Token} (he : OptEol e) (he' : OptEol e') (ha : Assignment a)
      (hmore : SectionAssignments more ∨ BrokenAssignments more) (he'' : OptEol e'') :
      BrokenBlock (e ++ [.bracketL] ++ e' ++ a ++ more ++ e'')

/-- The beginning of a section that breaks off. -/
inductive BrokenSection : List Token → Prop
  | sectype {t : Token} (ht : SectionType t) : BrokenSection [t]
  | block {t : Token} (ht : SectionType t) (secname : CStr) {w : List Token} (hw : BrokenBlock w) :
      BrokenSection ([t, .name secname] ++ w)

/-- A broken assignment, a broken section, or the one behind the other. -/
inductive Rubble : List Token → Prop
  | assignment {b : List Token} (hb : BrokenAssignment b) : Rubble b
  | section {b : List Token} (hb : BrokenSection b) : Rubble b
  | both {b b' : List Token} (hb : BrokenAssignment b) (hb' : BrokenSection b') : Rubble (b ++ b')

/-- A statement that the parser takes although something in it breaks off. -/
inductive PatchedStatement : List Token → Prop
  | section {w : List Token} (hw : PatchedSection w) : PatchedStatement w
  | behind {b w : List Token} (hb : BrokenAssignment b) (hw : Section w ∨ PatchedSection w) :
      PatchedStatement (b ++ w)
  | include {r w : List Token} (hr : Rubble r) (hw : Include w) : PatchedStatement (r ++ w)

/-- What can be left in front of EOF. -/
inductive BrokenStatement : List Token → Prop
  | rubble {r : List Token} (hr : Rubble r) : BrokenStatement r
  | include : BrokenStatement [.include]
  | both {r : List Token} (hr : Rubble r) : BrokenStatement (r ++ [.include])

/-- Statements of which at least one is patched or broken, the broken one at the end. -/
inductive PatchedStatements : List Token → Prop
  | next {e w more : List Token} (he : Eol e) (hw : Statement w) (hmore : PatchedStatements more) :
      PatchedStatements (e ++ w ++ more)
  | patched {e w more : List Token} (he : Eol e) (hw : PatchedStatement w) (hmore : Statements more) :
      PatchedStatements (e ++ w ++ more)
  | again {e w more : List Token} (he : Eol e) (hw : PatchedStatement w)
      (hmore : PatchedStatements more) : PatchedStatements (e ++ w ++ more)
  | broken {e b : List Token} (he : Eol e) (hb : BrokenStatement b) : PatchedStatements (e ++ b)

/-- A configuration with a patched or a broken statement. -/
def PatchedConfig (ts : List Token) : Prop := PatchedStatements (.eol :: ts)

/-! ## Ends of line -/

def dropEols (ts : List Token) : List Token := ts.dropWhile (· = .eol)

/-- The first token is there and is no end of line. -/
def Starts (w : List Token) : Prop := ∃ t more, w = t :: more ∧ t ≠ .eol

theorem OptEol.append {e e' : List Token} (he : OptEol e) (he' : OptEol e') : OptEol (e ++ e') := by
  intro t ht
  exact (List.mem_append.mp ht).elim (he t) (he' t)

theorem optEol_nil : OptEol [] := by
  intro t ht
  cases ht

theorem dropEols_append {e : List Token} (he : OptEol e) (ts : List Token) :
    dropEols (e ++ ts) = dropEols ts :=
  List.dropWhile_append_of_pos fun t ht => decide_eq_true (he t ht)

theorem dropEols_spec (ts : List Token) : ∃ e, OptEol e ∧ ts = e ++ dropEols ts := by
  refine ⟨ts.takeWhile (· = .eol), fun t ht => ?_, List.takeWhile_append_dropWhile.symm⟩
  simpa using List.mem_takeWhile_imp ht

theorem Starts.dropEols {w : List Token} (h : Starts w) (rest : List Token) :
    dropEols (w ++ rest) = w ++ rest := by
  obtain ⟨t, more, rfl, ht⟩ := h
  exact List.dropWhile_cons_of_neg (by simpa using ht)

theorem Starts.append {w : List Token} (h : Starts w) (rest : List Token) : Starts (w ++ rest) := by
  obtain ⟨t, more, rfl, ht⟩ := h
  exact ⟨t, more ++ rest, rfl, ht⟩

@[simp] theorem dropEols_eol (ts : List Token) : dropEols (.eol :: ts) = dropEols ts := rfl

@[simp] theorem dropEols_nil : dropEols [] = [] := rfl

theorem dropEols_cons {t : Token} (ht : t ≠ .eol) (ts : List Token) : dropEols (t :: ts) = t :: ts :=
  List.dropWhile_cons_of_neg (by simpa using ht)

theorem dropEols_head {t : Token} {ts rest : List Token} (h : dropEols ts = t :: rest) : t ≠ .eol := by
  induction ts with
  | nil => cases h
  | cons t' ts ih =>
    by_cases ht : t' = .eol
    · subst ht
      exact ih h
    · rw [dropEols_cons ht] at h
      cases h
      exact ht

theorem dropEols_length (ts : List Token) : (dropEols ts).length ≤ ts.length :=
  (List.dropWhile_sublist _).length_le

/-! ## Lists -/

/-- `grammar_list_value`, if there is a value. -/
def readValue : List Token → Option (List Token)
  | .int _ :: ts => some ts
  | .str _ :: ts => some ts
  | _ => none

theorem readValue_sound {ts rest : List Token} (h : readValue ts = some rest) :
    ∃ v, ListValue v ∧ ts = v ++ rest := by
  unfold readValue at h
  split at h
  · cases h
    exact ⟨_, .int _, rfl⟩
  · cases h
    exact ⟨_, .str _, rfl⟩
  · cases h

theorem readValue_length {ts rest : List Token} (h : readValue ts = some rest) :
    rest.length < ts.length := by
  obtain ⟨v, hv, rfl⟩ := readValue_sound h
  cases hv <;> simp

theorem ListValue.read {v : List Token} (h : ListValue v) (rest : List Token) :
    readValue (v ++ rest) = some rest := by
  cases h <;> rfl

theorem ListValue.starts {v : List Token} (h : ListValue v) : Starts v := by
  cases h with
  | int i => exact ⟨_, _, rfl, by simp⟩
  | str s => exact ⟨_, _, rfl, by simp⟩

/-- `grammar_list_values`: what is left of the tokens. -/
def readValues : List Token → List Token
  | .comma :: ts =>
    match _h : readValue (dropEols ts) with
    | some rest => readValues rest
    | none => dropEols ts
  | ts => ts
termination_by ts => ts.length
decreasing_by
  have hlt := readValue_length _h
  have hle := dropEols_length ts
  simp only [List.length_cons]
  omega

/-- The tokens do not go on with a value, a comma or an end of line. -/
def EndsValues (rest : List Token) : Prop :=
  dropEols rest = rest ∧ readValue rest = none ∧ ∀ more, rest ≠ .comma :: more

theorem readValues_sound (ts : List Token) :
    ∃ vs e, ListValues vs ∧ OptEol e ∧ ts = vs ++ e ++ readValues ts := by
  fun_induction readValues ts with
  | case1 ts rest hvalue ih =>
    obtain ⟨e, he, hts⟩ := dropEols_spec ts
    obtain ⟨v, hv, hrest⟩ := readValue_sound hvalue
    obtain ⟨vs, e', hvs, he', heq⟩ := ih
    refine ⟨.comma :: (e ++ v ++ vs), e', .next he hv hvs, he', ?_⟩
    rw [hts, hrest]
    conv_lhs => rw [heq]
    simp only [List.append_assoc, List.cons_append]
  | case2 ts hvalue =>
    obtain ⟨e, he, hts⟩ := dropEols_spec ts
    exact ⟨[.comma], e, .trailing, he, congrArg (.comma :: ·) hts⟩
  | case3 ts hcomma => exact ⟨[], [], .nil, optEol_nil, rfl⟩

theorem readValues_of_ne {ts : List Token} (h : ∀ more, ts ≠ .comma :: more) : readValues ts = ts := by
  rw [readValues.eq_def]
  split
  · exact absurd rfl (h _)
  · rfl

/-- Behind the values of a list the parser has nothing but ends of line in front of it. -/
theorem ListValues.read {vs e rest : List Token} (hvs : ListValues vs) (he : OptEol e)
    (hrest : EndsValues rest) : dropEols (readValues (vs ++ e ++ rest)) = rest := by
  obtain ⟨heol, hvalue, hcomma⟩ := hrest
  have hempty : ∀ e, OptEol e → dropEols (readValues (e ++ rest)) = rest := by
    intro e he
    have hne : ∀ more, e ++ rest ≠ .comma :: more := by
      intro more hmore
      cases e with
      | nil => exact hcomma more hmore
      | cons t e =>
        rw [he t List.mem_cons_self] at hmore
        cases hmore
    rw [readValues_of_ne hne, dropEols_append he, heol]
  induction hvs with
  | nil => exact hempty e he
  | trailing =>
    have hdrop : dropEols (e ++ rest) = rest := by rw [dropEols_append he, heol]
    rw [List.cons_append, List.nil_append, List.cons_append, readValues, hdrop]
    split
    · next more hmore =>
      rw [hvalue] at hmore
      cases hmore
    · exact heol
  | @next e' v vs he' hv hvs ih =>
    have hdrop : dropEols (e' ++ v ++ vs ++ e ++ rest) = v ++ (vs ++ e ++ rest) := by
      simp only [List.append_assoc]
      rw [dropEols_append he', hv.starts.dropEols]
    rw [List.cons_append, List.cons_append, readValues, hdrop]
    split
    · next more hmore =>
      rw [hv.read] at hmore
      cases hmore
      exact ih
    · next hnone =>
      rw [hv.read] at hnone
      cases hnone

/-- How a rule ends: it succeeds, with nothing broken or with something; or it fails, where
it stands or behind tokens that it has taken. -/
inductive Outcome
  | clean
  | patched
  | absent
  | broken
  deriving DecidableEq

/-- What a rule has taken, and that the rest is as it was. -/
inductive ReadAs (clean patched broken : List Token → Prop) : List Token → Outcome × List Token → Prop
  | clean {w : List Token} (hw : clean w) (rest : List Token) :
      ReadAs clean patched broken (w ++ rest) (.clean, rest)
  | patched {w : List Token} (hw : patched w) (rest : List Token) :
      ReadAs clean patched broken (w ++ rest) (.patched, rest)
  | absent (ts : List Token) : ReadAs clean patched broken ts (.absent, ts)
  | broken {w : List Token} (hw : broken w) (rest : List Token) :
      ReadAs clean patched broken (w ++ rest) (.broken, rest)

def Never (_ : List Token) : Prop := False

section taken

variable {clean patched broken : List Token → Prop} {ts w rest : List Token}

theorem ReadAs.clean_of (hw : clean w) (hts : ts = w ++ rest) :
    ReadAs clean patched broken ts (.clean, rest) := by
  subst hts
  exact .clean hw rest

theorem ReadAs.patched_of (hw : patched w) (hts : ts = w ++ rest) :
    ReadAs clean patched broken ts (.patched, rest) := by
  subst hts
  exact .patched hw rest

theorem ReadAs.broken_of (hw : broken w) (hts : ts = w ++ rest) :
    ReadAs clean patched broken ts (.broken, rest) := by
  subst hts
  exact .broken hw rest

end taken

/-- `grammar_list` behind its bracket. -/
def readList (ts : List Token) : Outcome × List Token :=
  match readValue (dropEols ts) with
  | none => (.broken, dropEols ts)
  | some ts =>
    match dropEols (readValues ts) with
    | .sqbrackR :: ts => (.clean, ts)
    | ts => (.broken, ts)

theorem readList_sound (ts : List Token) : ReadAs ListTail Never BrokenTail ts (readList ts) := by
  obtain ⟨e, he, hts⟩ := dropEols_spec ts
  unfold readList
  cases hvalue : readValue (dropEols ts) with
  | none =>
    exact .broken_of (.opened he) hts
  | some ts' =>
    obtain ⟨v, hv, hrest⟩ := readValue_sound hvalue
    obtain ⟨vs, e', hvs, he', hmore⟩ := readValues_sound ts'
    obtain ⟨e'', he'', hlast⟩ := dropEols_spec (readValues ts')
    have hall : ts = e ++ (v ++ vs) ++ (e' ++ e'') ++ dropEols (readValues ts') := by
      calc ts = e ++ (v ++ (vs ++ e' ++ readValues ts')) := by rw [← hmore, ← hrest, ← hts]
        _ = e ++ (v ++ (vs ++ e' ++ (e'' ++ dropEols (readValues ts')))) := by rw [← hlast]
        _ = _ := by simp only [List.append_assoc]
    dsimp only
    generalize dropEols (readValues ts') = rest at hall ⊢
    split
    · exact .clean_of (ListTail.mk he (.mk hv hvs) (he'.append he'')) (by simp [hall])
    · exact .broken_of (.values he (.mk hv hvs) (he'.append he'')) hall

theorem readList_ne_absent (ts : List Token) : (readList ts).1 ≠ .absent := by
  unfold readList
  split
  · nofun
  · split <;> nofun

theorem ListStatements.starts {w : List Token} (hw : ListStatements w) : Starts w := by
  obtain ⟨hv, -⟩ := hw
  exact hv.starts.append _

/-- The list behind its bracket, up to a token that ends the values. -/
theorem ListStatements.read {e w e' : List Token} (he : OptEol e) (hw : ListStatements w)
    (he' : OptEol e') {rest : List Token} (hrest : EndsValues rest) :
    ∃ ts, readValue (dropEols (e ++ w ++ e' ++ rest)) = some ts ∧ dropEols (readValues ts) = rest := by
  have hdrop : dropEols (e ++ w ++ e' ++ rest) = w ++ (e' ++ rest) := by
    simp only [List.append_assoc]
    rw [dropEols_append he, hw.starts.dropEols]
  obtain ⟨hv, hvs⟩ := hw
  refine ⟨_, ?_, hvs.read he' hrest⟩
  rw [hdrop]
  simp only [List.append_assoc]
  exact hv.read _

theorem ListTail.read {l : List Token} (hl : ListTail l) (rest : List Token) :
    readList (l ++ rest) = (.clean, rest) := by
  obtain ⟨he, hw, he'⟩ := hl
  have hends : EndsValues ([.sqbrackR] ++ rest) := ⟨rfl, rfl, by simp⟩
  obtain ⟨ts, hvalue, hvalues⟩ := ListStatements.read he hw he' hends
  rw [List.append_assoc, readList, hvalue]
  dsimp only
  rw [hvalues]
  rfl

/-! ## Assignments -/

/-- `grammar_assignment`. -/
def readAssignment : List Token → Outcome × List Token
  | .name _ :: .eq :: .int _ :: ts => (.clean, ts)
  | .name _ :: .eq :: .str _ :: ts => (.clean, ts)
  | .name _ :: .eq :: .sqbrackL :: ts => readList ts
  | .name _ :: .eq :: ts => (.broken, ts)
  | .name _ :: ts => (.broken, ts)
  | ts => (.absent, ts)

theorem readAssignment_sound (ts : List Token) :
    ReadAs Assignment Never BrokenAssignment ts (readAssignment ts) := by
  unfold readAssignment
  split
  · next varname i ts => exact .clean (Assignment.int varname i) ts
  · next varname s ts => exact .clean (Assignment.str varname s) ts
  · next varname ts =>
    have hlist := readList_sound ts
    have hend := readList_ne_absent ts
    generalize readList ts = r at hlist hend
    cases hlist with
    | clean hw rest => exact .clean (Assignment.list varname hw) rest
    | patched hw => exact absurd hw id
    | absent => exact absurd rfl hend
    | broken hw rest => exact .broken (BrokenAssignment.list varname hw) rest
  · next varname ts _ _ _ => exact .broken (BrokenAssignment.eq varname) ts
  · next varname ts _ _ _ _ => exact .broken (BrokenAssignment.name varname) ts
  · exact .absent _

theorem Assignment.read {a : List Token} (ha : Assignment a) (rest : List Token) :
    readAssignment (a ++ rest) = (.clean, rest) := by
  cases ha with
  | int => rfl
  | str => rfl
  | list varname hl => exact hl.read rest

/-- No assignment, no value and no section goes on with the token. -/
def Token.Stops : Token → Prop
  | .section | .include | .blacklist | .whitelist | .bracketR => True
  | _ => False

/-- Behind the tokens of a broken statement: nothing, or a token that stops it. -/
def Stops (rest : List Token) : Prop := ∀ t ∈ rest.head?, Token.Stops t

theorem Stops.endsValues {rest : List Token} (h : Stops rest) : EndsValues rest := by
  cases rest with
  | nil => exact ⟨rfl, rfl, by simp⟩
  | cons t ts =>
    have ht := h t rfl
    cases t <;> first | exact absurd ht id | exact ⟨rfl, rfl, by simp⟩

theorem BrokenTail.read {l e rest : List Token} (hl : BrokenTail l) (he : OptEol e) (hrest : Stops rest) :
    readList (l ++ e ++ rest) = (.broken, rest) := by
  have hends := hrest.endsValues
  cases hl with
  | opened he' =>
    have hdrop : dropEols (l ++ e ++ rest) = rest := by rw [dropEols_append (he'.append he), hends.1]
    rw [readList, hdrop, hends.2.1]
  | @values e' w e'' he' hw he'' =>
    obtain ⟨ts, hvalue, hvalues⟩ := ListStatements.read he' hw (he''.append he) hends
    have hassoc : e' ++ w ++ e'' ++ e ++ rest = e' ++ w ++ (e'' ++ e) ++ rest := by
      simp only [List.append_assoc]
    rw [hassoc, readList, hvalue]
    dsimp only
    rw [hvalues]
    cases rest with
    | nil => rfl
    | cons t ts =>
      have ht := hrest t rfl
      cases t <;> first | exact absurd ht id | rfl

/-- Ends of line behind a broken assignment are taken with it or left for the caller. -/
theorem BrokenAssignment.read {b e rest : List Token} (hb : BrokenAssignment b) (he : OptEol e)
    (hrest : Stops rest) :
    ∃ e', OptEol e' ∧ (e = [] → e' = []) ∧ readAssignment (b ++ e ++ rest) = (.broken, e' ++ rest) := by
  have hhead : ∀ t ∈ (e ++ rest).head?, t = .eol ∨ Token.Stops t := by
    intro t ht
    cases e with
    | nil => exact .inr (hrest t ht)
    | cons t' e =>
      cases ht
      exact .inl (he _ List.mem_cons_self)
  cases hb with
  | name varname =>
    refine ⟨e, he, id, ?_⟩
    rw [List.append_assoc]
    generalize e ++ rest = ts at hhead
    cases ts with
    | nil => rfl
    | cons t ts =>
      have ht := hhead t rfl
      cases t <;> first | rfl | simp [Token.Stops] at ht
  | eq varname =>
    refine ⟨e, he, id, ?_⟩
    rw [List.append_assoc]
    generalize e ++ rest = ts at hhead
    cases ts with
    | nil => rfl
    | cons t ts =>
      have ht := hhead t rfl
      cases t <;> first | rfl | simp [Token.Stops] at ht
  | list varname hl => exact ⟨[], optEol_nil, fun _ => rfl, hl.read he hrest⟩

/-- Without ends of line behind it a broken assignment is taken alone. -/
theorem BrokenAssignment.read_alone {b rest : List Token} (hb : BrokenAssignment b) (hrest : Stops rest) :
    readAssignment (b ++ rest) = (.broken, rest) := by
  obtain ⟨e, -, hnil, hread⟩ := hb.read optEol_nil hrest
  rwa [List.append_nil, hnil rfl, List.nil_append] at hread

theorem Assignment.starts {a : List Token} (ha : Assignment a) : Starts a := by
  cases ha with
  | int => exact ⟨_, _, rfl, by simp⟩
  | str => exact ⟨_, _, rfl, by simp⟩
  | list => exact ⟨_, _, rfl, by simp⟩

theorem BrokenAssignment.starts {b : List Token} (hb : BrokenAssignment b) : Starts b := by
  cases hb with
  | name => exact ⟨_, _, rfl, by simp⟩
  | eq => exact ⟨_, _, rfl, by simp⟩
  | list => exact ⟨_, _, rfl, by simp⟩

theorem Stops.absent {rest : List Token} (h : Stops rest) : readAssignment rest = (.absent, rest) := by
  cases rest with
  | nil => rfl
  | cons t ts =>
    have ht := h t rfl
    cases t <;> first | exact absurd ht id | rfl

theorem ReadAs.length {clean patched broken : List Token → Prop} {ts : List Token}
    {r : Outcome × List Token} (h : ReadAs clean patched broken ts r) : r.2.length ≤ ts.length := by
  cases h <;> simp

theorem ReadAs.not_patched {clean broken : List Token → Prop} {ts : List Token}
    {r : Outcome × List Token} (h : ReadAs clean Never broken ts r) : r.1 ≠ .patched := by
  cases h with
  | patched hw => exact absurd hw id
  | _ => nofun

/-! ## Sections -/

def dropComma : List Token → List Token
  | .comma :: ts => ts
  | ts => ts

theorem dropComma_spec (ts : List Token) : ∃ c, OptComma c ∧ ts = c ++ dropComma ts := by
  unfold dropComma
  split
  · exact ⟨_, .comma, rfl⟩
  · exact ⟨_, .none, rfl⟩

theorem OptComma.drop {c ts : List Token} (hc : OptComma c) (hts : ∀ more, ts ≠ .comma :: more) :
    dropComma (c ++ ts) = ts := by
  cases hc with
  | comma => rfl
  | none =>
    rw [List.nil_append, dropComma.eq_def]
    split
    · exact absurd rfl (hts _)
    · rfl

theorem dropComma_length (ts : List Token) : (dropComma ts).length ≤ ts.length := by
  obtain ⟨c, -, hts⟩ := dropComma_spec ts
  have hlen := congrArg List.length hts
  rw [List.length_append] at hlen
  omega

/-- `grammar_section_assignments`, which always succeeds: whether an assignment has been
broken, and what is left of the tokens. -/
def readSectionAssignments (ts : List Token) : Bool × List Token :=
  match _hcomma : dropComma ts with
  | .eol :: ts' =>
    match _hread : readAssignment (dropEols ts') with
    | (.clean, rest) => readSectionAssignments rest
    | (outcome, rest) => (decide (outcome = .broken), rest)
  | rest => (false, rest)
termination_by ts.length
decreasing_by
  have hrest := (readAssignment_sound (dropEols ts')).length
  have hlines := dropEols_length ts'
  have hle := dropComma_length ts
  rw [_hread] at hrest
  rw [_hcomma, List.length_cons] at hle
  dsimp only at hrest
  omega

theorem readSectionAssignments_sound (ts : List Token) : ∃ w e, OptEol e ∧
    (if (readSectionAssignments ts).1 then BrokenAssignments w else SectionAssignments w) ∧
      ts = w ++ e ++ (readSectionAssignments ts).2 := by
  fun_induction readSectionAssignments ts with
  | case1 ts ts' hcomma rest hread ih =>
    obtain ⟨c, hc, hts⟩ := dropComma_spec ts
    obtain ⟨e, he, hlines⟩ := dropEols_spec ts'
    have hassignment := readAssignment_sound (dropEols ts')
    rw [hread] at hassignment
    generalize dropEols ts' = ts'' at hlines hassignment
    cases hassignment with
    | @clean a ha =>
      obtain ⟨w, e', he', hw, hrest⟩ := ih
      refine ⟨c ++ .eol :: e ++ a ++ w, e', he', ?_, ?_⟩
      · revert hw
        cases (readSectionAssignments rest).1 with
        | false => exact SectionAssignments.next hc ⟨e, rfl, he⟩ ha
        | true => exact BrokenAssignments.next hc ⟨e, rfl, he⟩ ha
      · rw [hts, hcomma, hlines]
        conv_lhs => rw [hrest]
        simp only [List.append_assoc, List.cons_append]
  | case2 ts ts' hcomma outcome rest hne hread =>
    obtain ⟨c, hc, hts⟩ := dropComma_spec ts
    obtain ⟨e, he, hlines⟩ := dropEols_spec ts'
    have hassignment := readAssignment_sound (dropEols ts')
    rw [hread] at hassignment
    rw [hts, hcomma, hlines]
    generalize dropEols ts' = ts'' at hassignment
    cases hassignment with
    | clean => exact absurd rfl hne
    | patched hw => exact absurd hw id
    | absent => exact ⟨c, .eol :: e, by simpa [OptEol] using he, .last hc, by simp⟩
    | @broken b hb =>
      exact ⟨c ++ .eol :: e ++ b, [], optEol_nil, .last hc ⟨e, rfl, he⟩ hb, by simp⟩
  | case3 ts hne =>
    obtain ⟨c, hc, hts⟩ := dropComma_spec ts
    exact ⟨c, [], optEol_nil, .last hc, by simpa using hts⟩

/-- Behind the assignments of a section there are ends of line at most, up to a token that
stops it. -/
def LeavesEols (broken : Bool) (ts rest : List Token) : Prop :=
  ∃ e, OptEol e ∧ readSectionAssignments ts = (broken, e ++ rest)

/-- One assignment of a section is taken. -/
theorem readSectionAssignments_next {c e a : List Token} (hc : OptComma c) (he : Eol e)
    (ha : Assignment a) (ts : List Token) :
    readSectionAssignments (c ++ e ++ a ++ ts) = readSectionAssignments ts := by
  obtain ⟨more, rfl, hmore⟩ := he
  have hcomma : dropComma (c ++ (.eol :: more) ++ a ++ ts) = .eol :: (more ++ (a ++ ts)) := by
    simp only [List.append_assoc, List.cons_append]
    exact hc.drop (by simp)
  have hlines : dropEols (more ++ (a ++ ts)) = a ++ ts := by
    rw [dropEols_append hmore, ha.starts.dropEols]
  rw [readSectionAssignments.eq_def, hcomma]
  dsimp only
  rw [hlines, ha.read]

theorem readSectionAssignments_last {c e ts : List Token} (hc : OptComma c) (he : Eol e)
    (hts : dropEols ts = ts) {outcome : Outcome} {rest : List Token}
    (hread : readAssignment ts = (outcome, rest)) (hne : outcome ≠ .clean) :
    readSectionAssignments (c ++ e ++ ts) = (decide (outcome = .broken), rest) := by
  obtain ⟨more, rfl, hmore⟩ := he
  have hcomma : dropComma (c ++ (.eol :: more) ++ ts) = .eol :: (more ++ ts) := by
    simp only [List.append_assoc, List.cons_append]
    exact hc.drop (by simp)
  have hlines : dropEols (more ++ ts) = ts := by rw [dropEols_append hmore, hts]
  rw [readSectionAssignments.eq_def, hcomma]
  dsimp only
  rw [hlines, hread]
  cases outcome with
  | clean => exact absurd rfl hne
  | patched => rfl
  | absent => rfl
  | broken => rfl

theorem LeavesEols.next {broken : Bool} {c e a ts rest : List Token} (hc : OptComma c) (he : Eol e)
    (ha : Assignment a) (h : LeavesEols broken ts rest) : LeavesEols broken (c ++ e ++ a ++ ts) rest := by
  obtain ⟨e', he', hread⟩ := h
  exact ⟨e', he', (readSectionAssignments_next hc he ha ts).trans hread⟩

theorem SectionAssignments.read {w e rest : List Token} (hw : SectionAssignments w) (he : OptEol e)
    (hrest : Stops rest) : LeavesEols false (w ++ e ++ rest) rest := by
  induction hw with
  | next hc he' ha _ ih =>
    rw [List.append_assoc, List.append_assoc _ _ (e ++ rest), ← List.append_assoc _ e rest]
    exact ih.next hc he' ha
  | @last c hc =>
    cases e with
    | nil =>
      refine ⟨[], optEol_nil, ?_⟩
      have hends := hrest.endsValues
      rw [List.append_nil, readSectionAssignments.eq_def, hc.drop hends.2.2]
      split
      · exact absurd rfl (dropEols_head hends.1)
      · rfl
    | cons t e =>
      have hline : Eol (t :: e) := by
        rw [he t List.mem_cons_self]
        exact ⟨e, rfl, fun t ht => he t (List.mem_cons_of_mem _ ht)⟩
      refine ⟨[], optEol_nil, ?_⟩
      rw [readSectionAssignments_last hc hline hrest.endsValues.1 hrest.absent (by simp)]
      rfl

theorem BrokenAssignments.read {w e rest : List Token} (hw : BrokenAssignments w) (he : OptEol e)
    (hrest : Stops rest) : LeavesEols true (w ++ e ++ rest) rest := by
  induction hw with
  | next hc he' ha _ ih =>
    rw [List.append_assoc, List.append_assoc _ _ (e ++ rest), ← List.append_assoc _ e rest]
    exact ih.next hc he' ha
  | @last c e' b hc he' hb =>
    obtain ⟨e'', he'', -, hread⟩ := hb.read he hrest
    refine ⟨e'', he'', ?_⟩
    have hassoc : c ++ e' ++ b ++ e ++ rest = c ++ e' ++ (b ++ e ++ rest) := by
      simp only [List.append_assoc]
    have hstart : dropEols (b ++ e ++ rest) = b ++ e ++ rest := by
      rw [List.append_assoc, hb.starts.dropEols]
    rw [hassoc, readSectionAssignments_last hc he' hstart hread (by simp)]
    rfl

/-- `grammar_section` behind the name. -/
def readBlock (ts : List Token) : Outcome × List Token :=
  match dropEols ts with
  | .bracketL :: ts =>
    match readAssignment (dropEols ts) with
    | (.clean, ts) =>
      match dropEols (readSectionAssignments ts).2 with
      | .bracketR :: rest => (if (readSectionAssignments ts).1 then .patched else .clean, rest)
      | rest => (.broken, rest)
    | (_, ts) => (.broken, ts)
  | ts => (.broken, ts)

theorem readBlock_sound (ts : List Token) :
    ReadAs (Block SectionAssignments) (Block BrokenAssignments) BrokenBlock ts (readBlock ts) ∧
      (readBlock ts).1 ≠ .absent := by
  obtain ⟨e, he, hts⟩ := dropEols_spec ts
  unfold readBlock
  generalize dropEols ts = ts₁ at hts ⊢
  subst hts
  split
  · next ts₂ =>
    obtain ⟨e', he', hlines⟩ := dropEols_spec ts₂
    have hassignment := readAssignment_sound (dropEols ts₂)
    generalize dropEols ts₂ = ts₃ at hlines hassignment ⊢
    subst hlines
    generalize readAssignment ts₃ = r at hassignment ⊢
    cases hassignment with
    | @clean a ha ts₄ =>
      obtain ⟨more, e₁, he₁, hmore, hrest⟩ := readSectionAssignments_sound ts₄
      dsimp only
      generalize readSectionAssignments ts₄ = r at hmore hrest ⊢
      obtain ⟨e₂, he₂, hlast⟩ := dropEols_spec r.2
      generalize dropEols r.2 = ts₅ at hlast ⊢
      rw [hlast] at hrest
      subst hrest
      obtain ⟨flag, left⟩ := r
      have hblank := he₁.append he₂
      split
      · next rest =>
        cases flag with
        | false => exact ⟨.clean_of (Block.mk he he' ha hmore hblank) (by simp), by simp⟩
        | true => exact ⟨.patched_of (Block.mk he he' ha hmore hblank) (by simp), by simp⟩
      · have hassignments : SectionAssignments more ∨ BrokenAssignments more := by
          cases flag with
          | false => exact .inl hmore
          | true => exact .inr hmore
        exact ⟨.broken_of (.unclosed he he' ha hassignments hblank) (by simp), by simp⟩
    | patched hw => exact absurd hw id
    | absent => exact ⟨.broken_of (.opened he he') (by simp), by simp⟩
    | broken hb ts₄ => exact ⟨.broken_of (.first he he' hb) (by simp), by simp⟩
  · exact ⟨.broken (BrokenBlock.named he) _, by simp⟩

/-- Up to the first line of a section. -/
theorem readBlock_opened {e e' : List Token} (he : OptEol e) (he' : OptEol e') (ts : List Token) :
    readBlock (e ++ [.bracketL] ++ e' ++ ts) =
      match readAssignment (dropEols ts) with
      | (.clean, ts) =>
        match dropEols (readSectionAssignments ts).2 with
        | .bracketR :: rest => (if (readSectionAssignments ts).1 then .patched else .clean, rest)
        | rest => (.broken, rest)
      | (_, ts) => (.broken, ts) := by
  have hbrace : dropEols (e ++ [.bracketL] ++ e' ++ ts) = .bracketL :: (e' ++ ts) := by
    simp only [List.append_assoc]
    exact dropEols_append he _
  rw [readBlock, hbrace]
  dsimp only
  rw [dropEols_append he']

/-- Up to the first assignment of a section. -/
theorem readBlock_first {e e' a : List Token} (he : OptEol e) (he' : OptEol e') (ha : Assignment a)
    (ts : List Token) : readBlock (e ++ [.bracketL] ++ e' ++ a ++ ts) =
      match dropEols (readSectionAssignments ts).2 with
      | .bracketR :: rest => (if (readSectionAssignments ts).1 then .patched else .clean, rest)
      | rest => (.broken, rest) := by
  rw [List.append_assoc _ a ts, readBlock_opened he he', ha.starts.dropEols, ha.read]

theorem Block.read {assignments : List Token → Prop} {broken : Bool} {w : List Token}
    (hw : Block assignments w)
    (hread : ∀ {more e rest : List Token}, assignments more → OptEol e → Stops rest →
      LeavesEols broken (more ++ e ++ rest) rest) (rest : List Token) :
    readBlock (w ++ rest) = (if broken then .patched else .clean, rest) := by
  obtain ⟨he, he', ha, hmore, he''⟩ := hw
  have hstops : Stops (.bracketR :: rest) := by
    intro t ht
    cases ht
    exact trivial
  obtain ⟨e₁, he₁, hassignments⟩ := hread hmore he'' hstops
  have hdrop : dropEols (e₁ ++ .bracketR :: rest) = .bracketR :: rest := dropEols_append he₁ _
  have hfirst := readBlock_first he he' ha
  simp only [List.append_assoc, List.cons_append, List.nil_append] at hfirst hassignments ⊢
  rw [hfirst, hassignments, hdrop]

/-- A broken section ends where nothing follows, or an include. -/
theorem BrokenBlock.read {w rest : List Token} (hw : BrokenBlock w) (hrest : Stops rest)
    (hname : ∀ t ∈ rest.head?, t ≠ .bracketR) : readBlock (w ++ rest) = (.broken, rest) := by
  have hends := hrest.endsValues
  have hunopened : ∀ {e}, OptEol e → readBlock (e ++ rest) = (.broken, rest) := by
    intro e he
    rw [readBlock, dropEols_append he, hends.1]
    split
    · exact absurd (hrest _ rfl) id
    · rfl
  cases hw with
  | named he => exact hunopened he
  | opened he he' => rw [readBlock_opened he he', hends.1, hrest.absent]
  | first he he' hb =>
    rw [List.append_assoc, readBlock_opened he he', hb.starts.dropEols, hb.read_alone hrest]
  | @unclosed e e' a more e'' he he' ha hmore he'' =>
    have hleaves : ∃ flag, LeavesEols flag (more ++ e'' ++ rest) rest := by
      rcases hmore with hmore | hmore
      · exact ⟨_, hmore.read he'' hrest⟩
      · exact ⟨_, hmore.read he'' hrest⟩
    obtain ⟨flag, e₁, he₁, hassignments⟩ := hleaves
    have hfirst := readBlock_first he he' ha
    simp only [List.append_assoc, List.cons_append, List.nil_append] at hfirst hassignments ⊢
    rw [hfirst, hassignments, dropEols_append he₁, hends.1]
    split
    · exact absurd rfl (hname _ rfl)
    · rfl

/-- `grammar_section`. -/
def readSection : List Token → Outcome × List Token
  | .section :: .name _ :: ts => readBlock ts
  | .blacklist :: .name _ :: ts => readBlock ts
  | .whitelist :: .name _ :: ts => readBlock ts
  | .section :: ts => (.broken, ts)
  | .blacklist :: ts => (.broken, ts)
  | .whitelist :: ts => (.broken, ts)
  | ts => (.absent, ts)

theorem readSection_sound (ts : List Token) :
    ReadAs Section PatchedSection BrokenSection ts (readSection ts) := by
  have hblock : ∀ {t}, SectionType t → ∀ secname ts,
      ReadAs Section PatchedSection BrokenSection (t :: .name secname :: ts) (readBlock ts) := by
    intro t ht secname ts
    obtain ⟨hread, hend⟩ := readBlock_sound ts
    generalize readBlock ts = r at hread hend
    cases hread with
    | clean hw rest => exact .clean (Section.mk ht secname hw) rest
    | patched hw rest => exact .patched (PatchedSection.mk ht secname hw) rest
    | absent => exact absurd rfl hend
    | broken hw rest => exact .broken (BrokenSection.block ht secname hw) rest
  unfold readSection
  split
  · exact hblock .section _ _
  · exact hblock .blacklist _ _
  · exact hblock .whitelist _ _
  · exact .broken (BrokenSection.sectype .section) _
  · exact .broken (BrokenSection.sectype .blacklist) _
  · exact .broken (BrokenSection.sectype .whitelist) _
  · exact .absent _

theorem SectionType.readSection {t : Token} (ht : SectionType t) (secname : CStr) (ts : List Token) :
    ConfigGrammar.readSection (t :: .name secname :: ts) = readBlock ts := by
  cases ht <;> rfl

theorem Section.read {w : List Token} (hw : Section w) (rest : List Token) :
    readSection (w ++ rest) = (.clean, rest) := by
  obtain ⟨ht, secname, hw⟩ := hw
  exact (ht.readSection secname _).trans (hw.read SectionAssignments.read rest)

theorem PatchedSection.read {w : List Token} (hw : PatchedSection w) (rest : List Token) :
    readSection (w ++ rest) = (.patched, rest) := by
  obtain ⟨ht, secname, hw⟩ := hw
  exact (ht.readSection secname _).trans (hw.read BrokenAssignments.read rest)

/-- Nothing follows, or an include. -/
def AtInclude (rest : List Token) : Prop := ∀ t ∈ rest.head?, t = .include

theorem AtInclude.stops {rest : List Token} (h : AtInclude rest) : Stops rest := by
  intro t ht
  rw [h t ht]
  trivial

theorem BrokenSection.read {w rest : List Token} (hw : BrokenSection w) (hrest : AtInclude rest) :
    readSection (w ++ rest) = (.broken, rest) := by
  cases hw with
  | block ht secname hw =>
    refine (ht.readSection secname _).trans (hw.read hrest.stops fun t ht => ?_)
    rw [hrest t ht]
    nofun
  | sectype ht =>
    cases rest with
    | nil => cases ht <;> rfl
    | cons t ts =>
      obtain rfl : t = .include := hrest t rfl
      cases ht <;> rfl

/-! ## Statements -/

/-- `grammar_include`. -/
def readInclude : List Token → Outcome × List Token
  | .include :: .str _ :: ts => (.clean, ts)
  | .include :: ts => (.broken, ts)
  | ts => (.absent, ts)

/-- The outcome of a rule behind one that has failed. -/
def Outcome.behind : Outcome → Outcome → Outcome
  | .absent, outcome => outcome
  | _, .clean => .patched
  | _, .patched => .patched
  | _, .absent => .broken
  | _, .broken => .broken

/-- `grammar_statement`: each rule starts where the one before has failed. -/
def readStatement (ts : List Token) : Outcome × List Token :=
  match readAssignment ts with
  | (.clean, rest) => (.clean, rest)
  | (first, rest) =>
    match readSection rest with
    | (.clean, rest) => (first.behind .clean, rest)
    | (.patched, rest) => (.patched, rest)
    | (second, rest) => (first.behind (second.behind (readInclude rest).1), (readInclude rest).2)

inductive BrokenInclude : List Token → Prop
  | mk : BrokenInclude [.include]

theorem readInclude_sound (ts : List Token) : ReadAs Include Never BrokenInclude ts (readInclude ts) := by
  unfold readInclude
  split
  · next s ts => exact .clean (Include.mk s) ts
  · next ts _ => exact .broken BrokenInclude.mk ts
  · exact .absent _

/-- An include behind what two rules have failed on. -/
theorem include_sound (ts : List Token) :
    ReadAs Statement PatchedStatement BrokenStatement ts (readInclude ts) ∧
      ∀ r, Rubble r → ReadAs Statement PatchedStatement BrokenStatement (r ++ ts)
        (Outcome.broken.behind (readInclude ts).1, (readInclude ts).2) := by
  have hinclude := readInclude_sound ts
  generalize readInclude ts = result at hinclude
  cases hinclude with
  | clean hw rest =>
    refine ⟨.clean (.include hw) rest, fun r hr => ?_⟩
    rw [← List.append_assoc]
    exact .patched (.include hr hw) rest
  | patched hw => exact absurd hw id
  | absent => exact ⟨.absent ts, fun r hr => .broken (.rubble hr) ts⟩
  | broken hw rest =>
    cases hw with
    | mk =>
      refine ⟨.broken .include rest, fun r hr => ?_⟩
      rw [← List.append_assoc]
      exact .broken (.both hr) rest

theorem readStatement_sound (ts : List Token) :
    ReadAs Statement PatchedStatement BrokenStatement ts (readStatement ts) := by
  unfold readStatement
  have hassignment := readAssignment_sound ts
  generalize readAssignment ts = r at hassignment ⊢
  cases hassignment with
  | clean hw rest => exact .clean (.assignment hw) rest
  | patched hw => exact absurd hw id
  | absent =>
    dsimp only
    have hsection := readSection_sound ts
    generalize readSection ts = r at hsection ⊢
    cases hsection with
    | clean hw rest => exact .clean (.section hw) rest
    | patched hw rest => exact .patched (.section hw) rest
    | absent => exact (include_sound ts).1
    | broken hw rest => exact (include_sound rest).2 _ (.section hw)
  | @broken b hb rest =>
    dsimp only
    have hsection := readSection_sound rest
    generalize readSection rest = r at hsection ⊢
    cases hsection with
    | clean hw rest =>
      rw [← List.append_assoc]
      exact .patched (.behind hb (.inl hw)) rest
    | patched hw rest =>
      rw [← List.append_assoc]
      exact .patched (.behind hb (.inr hw)) rest
    | absent => exact (include_sound rest).2 _ (.assignment hb)
    | @broken b' hb' rest =>
      rw [← List.append_assoc]
      have h := (include_sound rest).2 _ (.both hb hb')
      dsimp only
      generalize readInclude rest = result at h ⊢
      obtain ⟨outcome, left⟩ := result
      cases outcome <;> exact h

theorem Include.read {w : List Token} (hw : Include w) (rest : List Token) :
    readInclude (w ++ rest) = (.clean, rest) := by
  obtain ⟨s⟩ := hw
  rfl

/-- A section begins with its type, an include with its keyword. -/
theorem SectionType.stops {t : Token} (ht : SectionType t) (ts : List Token) : Stops (t :: ts) := by
  intro t' ht'
  cases ht'
  cases ht <;> trivial

theorem Section.stops {w : List Token} (hw : Section w) (rest : List Token) : Stops (w ++ rest) := by
  obtain ⟨ht, secname, hw⟩ := hw
  exact ht.stops _

theorem PatchedSection.stops {w : List Token} (hw : PatchedSection w) (rest : List Token) :
    Stops (w ++ rest) := by
  obtain ⟨ht, secname, hw⟩ := hw
  exact ht.stops _

theorem BrokenSection.stops {w : List Token} (hw : BrokenSection w) (rest : List Token) :
    Stops (w ++ rest) := by
  cases hw with
  | sectype ht => exact ht.stops _
  | block ht secname hw => exact ht.stops _

theorem Include.atInclude {w : List Token} (hw : Include w) (rest : List Token) :
    AtInclude (w ++ rest) := by
  obtain ⟨s⟩ := hw
  intro t ht
  cases ht
  rfl

theorem AtInclude.absent {rest : List Token} (h : AtInclude rest) :
    readSection rest = (.absent, rest) := by
  cases rest with
  | nil => rfl
  | cons t ts =>
    obtain rfl : t = .include := h t rfl
    rfl

theorem Statement.read {w : List Token} (hw : Statement w) (rest : List Token) :
    readStatement (w ++ rest) = (.clean, rest) := by
  unfold readStatement
  cases hw with
  | assignment h => rw [h.read]
  | «section» h =>
    rw [(h.stops rest).absent]
    dsimp only
    rw [h.read]
    rfl
  | «include» h =>
    rw [(h.atInclude rest).stops.absent]
    dsimp only
    rw [(h.atInclude rest).absent]
    dsimp only
    rw [h.read]
    rfl

theorem Rubble.read {r rest : List Token} (hr : Rubble r) (hrest : AtInclude rest) :
    readStatement (r ++ rest) = (Outcome.broken.behind (readInclude rest).1, (readInclude rest).2) := by
  unfold readStatement
  cases hr with
  | assignment hb =>
    rw [hb.read_alone hrest.stops]
    dsimp only
    rw [hrest.absent]
    rfl
  | «section» hb =>
    rw [(hb.stops rest).absent]
    dsimp only
    rw [hb.read hrest]
    rfl
  | both hb hb' =>
    rw [List.append_assoc, hb.read_alone (hb'.stops rest)]
    dsimp only
    rw [hb'.read hrest]
    dsimp only
    generalize readInclude rest = result
    obtain ⟨outcome, left⟩ := result
    cases outcome <;> rfl

theorem PatchedStatement.read {w : List Token} (hw : PatchedStatement w) (rest : List Token) :
    readStatement (w ++ rest) = (.patched, rest) := by
  cases hw with
  | «section» h =>
    rw [readStatement, (h.stops rest).absent]
    dsimp only
    rw [h.read]
  | behind hb hw =>
    rw [readStatement, List.append_assoc]
    rcases hw with hw | hw
    · rw [hb.read_alone (hw.stops rest)]
      dsimp only
      rw [hw.read]
      rfl
    · rw [hb.read_alone (hw.stops rest)]
      dsimp only
      rw [hw.read]
  | «include» hr hw =>
    rw [List.append_assoc, hr.read (hw.atInclude rest), hw.read]
    rfl

theorem BrokenStatement.read {b : List Token} (hb : BrokenStatement b) :
    readStatement b = (.broken, []) := by
  have hend : AtInclude [] := by
    intro t ht
    cases ht
  have hlast : AtInclude [.include] := by
    intro t ht
    cases ht
    rfl
  cases hb with
  | rubble hr =>
    have h := hr.read hend
    rwa [List.append_nil] at h
  | «include» => rfl
  | both hr => exact hr.read hlast

theorem SectionType.starts {t : Token} (ht : SectionType t) (ts : List Token) : Starts (t :: ts) := by
  cases ht <;> exact ⟨_, _, rfl, by simp⟩

theorem Section.starts {w : List Token} (hw : Section w) : Starts w := by
  obtain ⟨ht, secname, hw⟩ := hw
  exact ht.starts _

theorem PatchedSection.starts {w : List Token} (hw : PatchedSection w) : Starts w := by
  obtain ⟨ht, secname, hw⟩ := hw
  exact ht.starts _

theorem Include.starts {w : List Token} (hw : Include w) : Starts w := by
  obtain ⟨s⟩ := hw
  exact ⟨_, _, rfl, by simp⟩

theorem Statement.starts {w : List Token} (hw : Statement w) : Starts w := by
  cases hw with
  | assignment h => exact h.starts
  | «section» h => exact h.starts
  | «include» h => exact h.starts

theorem Rubble.starts {r : List Token} (hr : Rubble r) : Starts r := by
  cases hr with
  | assignment hb => exact hb.starts
  | «section» hb =>
    cases hb with
    | sectype ht => exact ht.starts _
    | block ht secname hw => exact ht.starts _
  | both hb hb' => exact hb.starts.append _

theorem PatchedStatement.starts {w : List Token} (hw : PatchedStatement w) : Starts w := by
  cases hw with
  | «section» h => exact h.starts
  | behind hb hw => exact hb.starts.append _
  | «include» hr hw => exact hr.starts.append _

theorem BrokenStatement.starts {b : List Token} (hb : BrokenStatement b) : Starts b := by
  cases hb with
  | rubble hr => exact hr.starts
  | «include» => exact ⟨_, _, rfl, by simp⟩
  | both hr => exact hr.starts.append _

/-! ## Configurations -/

/-- `grammar_statements`: whether a statement has been patched or broken, and what is left of the
tokens. -/
def readStatements : List Token → Bool × List Token
  | .eol :: ts =>
    match _h : readStatement (dropEols ts) with
    | (.clean, rest) => readStatements rest
    | (.patched, rest) => (true, (readStatements rest).2)
    | (outcome, rest) => (decide (outcome = .broken), rest)
  | ts => (false, ts)
termination_by ts => ts.length
decreasing_by
  all_goals
    have hrest := (readStatement_sound (dropEols ts)).length
    have hlines := dropEols_length ts
    rw [_h] at hrest
    rw [List.length_cons]
    dsimp only at hrest
    omega

/-- The whole configuration, whose first statement may stand without an end of line. -/
def readConfig (ts : List Token) : Bool × List Token := readStatements (.eol :: ts)

theorem readStatements_sound (ts : List Token) : ∃ w,
    (if (readStatements ts).1 then PatchedStatements w else Statements w) ∧
      ts = w ++ (readStatements ts).2 := by
  fun_induction readStatements ts with
  | case1 ts rest hread ih =>
    obtain ⟨e, he, hlines⟩ := dropEols_spec ts
    have hstatement := readStatement_sound (dropEols ts)
    rw [hread] at hstatement
    generalize dropEols ts = ts' at hlines hstatement
    cases hstatement with
    | @clean w hw =>
      obtain ⟨more, hmore, hrest⟩ := ih
      refine ⟨.eol :: e ++ w ++ more, ?_, ?_⟩
      · revert hmore
        cases (readStatements rest).1 with
        | false => exact Statements.next ⟨e, rfl, he⟩ hw
        | true => exact PatchedStatements.next ⟨e, rfl, he⟩ hw
      · rw [hlines]
        conv_lhs => rw [hrest]
        simp only [List.append_assoc, List.cons_append]
  | case2 ts rest hread ih =>
    obtain ⟨e, he, hlines⟩ := dropEols_spec ts
    have hstatement := readStatement_sound (dropEols ts)
    rw [hread] at hstatement
    generalize dropEols ts = ts' at hlines hstatement
    cases hstatement with
    | @patched w hw =>
      obtain ⟨more, hmore, hrest⟩ := ih
      refine ⟨.eol :: e ++ w ++ more, ?_, ?_⟩
      · revert hmore
        cases (readStatements rest).1 with
        | false => exact PatchedStatements.patched ⟨e, rfl, he⟩ hw
        | true => exact PatchedStatements.again ⟨e, rfl, he⟩ hw
      · rw [hlines]
        conv_lhs => rw [hrest]
        simp only [List.append_assoc, List.cons_append]
  | case3 ts outcome rest hclean hpatched hread =>
    obtain ⟨e, he, hlines⟩ := dropEols_spec ts
    have hstatement := readStatement_sound (dropEols ts)
    rw [hread] at hstatement
    rw [hlines]
    generalize dropEols ts = ts' at hstatement
    cases hstatement with
    | clean => exact absurd rfl hclean
    | patched => exact absurd rfl hpatched
    | absent => exact ⟨.eol :: e, .last (by simpa [OptEol] using he), rfl⟩
    | @broken b hb => exact ⟨.eol :: e ++ b, .broken ⟨e, rfl, he⟩ hb, by simp⟩
  | case4 ts hne => exact ⟨[], .last optEol_nil, rfl⟩

/-- Behind an end of line the statement is the next one. -/
theorem readStatements_next {e w : List Token} (he : Eol e) (hw : Starts w) (more : List Token) :
    ∃ ts, e ++ w ++ more = .eol :: ts ∧ dropEols ts = w ++ more := by
  obtain ⟨e', rfl, he'⟩ := he
  refine ⟨e' ++ (w ++ more), by simp, ?_⟩
  rw [dropEols_append he', hw.dropEols]

theorem Statements.read {w : List Token} (hw : Statements w) : readStatements w = (false, []) := by
  induction hw with
  | next he hw _ ih =>
    obtain ⟨ts, heq, hdrop⟩ := readStatements_next he hw.starts _
    rw [heq, readStatements, hdrop, hw.read]
    exact ih
  | @last e he =>
    cases e with
    | nil => simp [readStatements]
    | cons t e =>
      obtain rfl := he t List.mem_cons_self
      have hdrop : dropEols e = [] := by
        have h := dropEols_append (fun t ht => he t (List.mem_cons_of_mem _ ht)) []
        rwa [List.append_nil] at h
      rw [readStatements, hdrop]
      rfl

theorem PatchedStatements.read {w : List Token} (hw : PatchedStatements w) :
    readStatements w = (true, []) := by
  induction hw with
  | next he hw _ ih =>
    obtain ⟨ts, heq, hdrop⟩ := readStatements_next he hw.starts _
    rw [heq, readStatements, hdrop, hw.read]
    exact ih
  | patched he hw hmore =>
    obtain ⟨ts, heq, hdrop⟩ := readStatements_next he hw.starts _
    rw [heq, readStatements, hdrop, hw.read]
    dsimp only
    rw [hmore.read]
  | again he hw _ ih =>
    obtain ⟨ts, heq, hdrop⟩ := readStatements_next he hw.starts _
    rw [heq, readStatements, hdrop, hw.read]
    dsimp only
    rw [ih]
  | broken he hb =>
    obtain ⟨ts, heq, hdrop⟩ := readStatements_next he hb.starts []
    rw [List.append_nil] at heq hdrop
    rw [heq, readStatements, hdrop, hb.read]
    rfl

theorem config_iff_statements (ts : List Token) : Config ts ↔ Statements (.eol :: ts) := by
  constructor
  · intro h
    cases h with
    | @statements e w more he hw hmore => exact .next ⟨e, rfl, he⟩ hw hmore
    | empty he => exact .last (by simpa [OptEol] using he)
  · intro h
    generalize hts : Token.eol :: ts = ts' at h
    cases h with
    | next he hw hmore =>
      obtain ⟨e, rfl, he⟩ := he
      obtain ⟨-, rfl⟩ := List.cons.inj hts
      exact .statements he hw hmore
    | last he =>
      subst hts
      exact .empty fun t ht => he t (List.mem_cons_of_mem _ ht)

/-- The grammar is what is read to the end without a broken statement. -/
theorem config_iff (ts : List Token) : Config ts ↔ readConfig ts = (false, []) := by
  rw [config_iff_statements]
  refine ⟨fun h => h.read, fun h => ?_⟩
  obtain ⟨w, hw, heq⟩ := readStatements_sound (.eol :: ts)
  rw [readConfig] at h
  rw [h, List.append_nil] at heq
  rw [h] at hw
  exact heq ▸ hw

theorem patchedConfig_iff (ts : List Token) : PatchedConfig ts ↔ readConfig ts = (true, []) := by
  refine ⟨fun h => h.read, fun h => ?_⟩
  obtain ⟨w, hw, heq⟩ := readStatements_sound (.eol :: ts)
  rw [readConfig] at h
  rw [h, List.append_nil] at heq
  rw [h] at hw
  rw [PatchedConfig, heq]
  exact hw

end Greyd.ConfigGrammar
