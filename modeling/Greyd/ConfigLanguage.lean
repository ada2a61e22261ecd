import Greyd.ParserReferences
import Greyd.ConfigGrammar

/-!
# The language of the configuration parser

Each grammar function takes from its tokens what the reading of its production takes. With a
fuel above the number of tokens, and no dangling reference, it has a result.
-/
namespace Greyd

open Parse ConfigGrammar

/-! ## Readings -/

def ConfigGrammar.Outcome.accepted : Outcome → Bool
  | .clean | .patched => true
  | .absent | .broken => false

/-- A grammar function over tokens: whether it succeeds, and what it leaves of them. -/
abbrev Reading := List Token → Bool × List Token

namespace Reading

variable {f g : Reading} {ts rest : List Token}

def andThen (f g : Reading) : Reading := fun ts =>
  match f ts with
  | (true, rest) => g rest
  | r => r

def orElse (f g : Reading) : Reading := fun ts =>
  match f ts with
  | (false, rest) => g rest
  | r => r

def ok : Reading := fun ts => (true, ts)

def accept (tok : Token) : Reading := fun ts =>
  match ts with
  | t :: rest => if t = tok then (true, if tok = .eol then dropEols rest else rest) else (false, ts)
  | [] => (false, [])

/-- The rules that end with an outcome. -/
def ofOutcome (read : List Token → Outcome × List Token) : Reading := fun ts =>
  ((read ts).1.accepted, (read ts).2)

theorem andThen_true (h : f ts = (true, rest)) : andThen f g ts = g rest := by
  rw [andThen, h]

theorem andThen_false (h : f ts = (false, rest)) : andThen f g ts = (false, rest) := by
  rw [andThen, h]

theorem orElse_true (h : f ts = (true, rest)) : orElse f g ts = (true, rest) := by
  rw [orElse, h]

theorem orElse_false (h : f ts = (false, rest)) : orElse f g ts = g rest := by
  rw [orElse, h]

theorem ok_andThen (f : Reading) (ts : List Token) : andThen ok f ts = f ts := rfl

theorem accept_same (tok : Token) (htok : tok ≠ .eol) (ts : List Token) :
    accept tok (tok :: ts) = (true, ts) := by
  rw [accept, if_pos rfl, if_neg htok]

theorem accept_eol (ts : List Token) : accept .eol (.eol :: ts) = (true, dropEols ts) := rfl

theorem accept_other {tok : Token} (h : ∀ more, ts ≠ tok :: more) : accept tok ts = (false, ts) := by
  cases ts with
  | nil => rfl
  | cons t ts =>
    have hne : t ≠ tok := fun heq => h ts (heq ▸ rfl)
    rw [accept, if_neg hne]

theorem dropEols_of_ne (h : ∀ more, ts ≠ .eol :: more) : dropEols ts = ts := by
  cases ts with
  | nil => rfl
  | cons t ts => exact dropEols_cons (fun heq => h ts (heq ▸ rfl)) ts

/-- Optional ends of line. -/
theorem optional_eol (ts : List Token) : orElse (accept .eol) ok ts = (true, dropEols ts) := by
  by_cases h : ∃ more, ts = .eol :: more
  · obtain ⟨more, rfl⟩ := h
    exact orElse_true (accept_eol more)
  · have hne : ∀ more, ts ≠ .eol :: more := fun more heq => h ⟨more, heq⟩
    rw [orElse_false (accept_other hne), dropEols_of_ne hne, ok]

theorem optional_comma (ts : List Token) : orElse (accept .comma) ok ts = (true, dropComma ts) := by
  by_cases h : ∃ more, ts = .comma :: more
  · obtain ⟨more, rfl⟩ := h
    exact orElse_true (accept_same .comma (by simp) more)
  · have hne : ∀ more, ts ≠ .comma :: more := fun more heq => h ⟨more, heq⟩
    rw [orElse_false (accept_other hne), dropComma.eq_def, ok]
    split
    · exact absurd rfl (hne _)
    · rfl

/-- A rule that takes nothing when it fails may be tried behind ends of line and again where
these have led. -/
theorem behind_eol (hback : ∀ ts, (f ts).1 = false → (f ts).2 = ts) (ts : List Token) :
    orElse (andThen (accept .eol) f) f ts = f (dropEols ts) := by
  by_cases h : ∃ more, ts = .eol :: more
  · obtain ⟨more, rfl⟩ := h
    have hfirst : andThen (accept .eol) f (.eol :: more) = f (dropEols more) :=
      andThen_true (accept_eol more)
    have hagain := hback (dropEols more)
    rw [dropEols_eol]
    cases hread : f (dropEols more) with
    | mk r rest =>
      rw [hread] at hagain hfirst
      cases r with
      | true => exact orElse_true hfirst
      | false =>
        rw [orElse_false hfirst]
        obtain rfl : rest = dropEols more := hagain rfl
        exact hread
  · have hne : ∀ more, ts ≠ .eol :: more := fun more heq => h ⟨more, heq⟩
    rw [orElse_false (andThen_false (accept_other hne)), dropEols_of_ne hne]

/-- An accepted token other than an end of line. -/
theorem accept_back (tok : Token) (ts : List Token) (hfalse : (accept tok ts).1 = false) :
    (accept tok ts).2 = ts := by
  cases ts with
  | nil => rfl
  | cons t ts =>
    unfold accept at hfalse ⊢
    dsimp only at hfalse ⊢
    split_ifs at hfalse ⊢
    rfl

end Reading

/-! ## What the grammar functions take -/

/-- The parser succeeds where the reading does, and goes on where it ends. -/
def Parse.Takes (p : Parse) (f : Reading) : Prop :=
  ∀ parser r parser', p parser = some (r, parser') → f parser.tokens = (r, parser'.tokens)

section takes

variable {p q : Parse} {f g : Reading} {parser parser' : ConfigParser} {r : Bool} {tok : Token}

theorem Parse.Takes.ok : ok.Takes Reading.ok := by
  intro parser r parser' hrun
  cases hrun
  rfl

theorem Parse.Takes.noResult : Parse.Takes (fun _ => none) f := by
  intro parser r parser' hrun
  cases hrun

theorem Parse.Takes.andThen (hp : p.Takes f) (hq : q.Takes g) :
    (andThen p q).Takes (Reading.andThen f g) := by
  intro parser r parser' hrun
  obtain ⟨parser₁, hfirst, hsecond⟩ | ⟨hfirst, rfl⟩ := andThen_cases hrun
  · rw [Reading.andThen_true (hp _ _ _ hfirst), hq _ _ _ hsecond]
  · exact Reading.andThen_false (hp _ _ _ hfirst)

theorem Parse.Takes.orElse (hp : p.Takes f) (hq : q.Takes g) :
    (orElse p q).Takes (Reading.orElse f g) := by
  intro parser r parser' hrun
  obtain ⟨parser₁, hfirst, hsecond⟩ | ⟨hfirst, rfl⟩ := orElse_cases hrun
  · rw [Reading.orElse_false (hp _ _ _ hfirst), hq _ _ _ hsecond]
  · exact Reading.orElse_true (hp _ _ _ hfirst)

theorem tokens_curr (hcurr : parser.curr = tok) (htok : tok ≠ .eof) :
    parser.tokens = tok :: parser.advance.tokens := by
  rw [tokens_of_curr (hcurr ▸ htok), hcurr]

theorem advanceEols_tokens {fuel : Nat} (hfuel : parser.lexer.source.length < fuel) :
    (advanceEols fuel parser).tokens = dropEols parser.advance.tokens := by
  induction fuel generalizing parser with
  | zero => omega
  | succ fuel ih =>
    rw [advanceEols]
    split
    · next heol =>
      have hend : (configLexerNextToken parser.lexer).1 ≠ .eof := by
        show parser.advance.curr ≠ .eof
        simp [heol]
      have hlength : parser.advance.lexer.source.length < parser.lexer.source.length :=
        configLexerNextToken_length hend
      rw [ih (by omega), tokens_curr heol (by simp), dropEols_eol]
    · next hne =>
      rw [ConfigParser.tokens]
      split
      · rfl
      · exact (dropEols_cons hne _).symm

theorem Parse.Takes.accept (tok : Token) (htok : tok ≠ .eof) : (accept tok).Takes (Reading.accept tok) := by
  intro parser r parser' hrun
  unfold Greyd.accept at hrun
  split at hrun
  · next hcurr =>
    rw [tokens_curr hcurr htok]
    cases hrun
    by_cases heol : tok = .eol
    · subst heol
      rw [Reading.accept_eol, if_pos rfl, advanceEols_tokens (Nat.lt_succ_self _)]
    · rw [Reading.accept_same tok heol, if_neg heol]
  · next hcurr =>
    cases hrun
    refine Reading.accept_other fun more heq => ?_
    by_cases hend : parser.curr = .eof
    · rw [ConfigParser.tokens, if_pos hend] at heq
      cases heq
    · rw [tokens_of_curr hend] at heq
      exact hcurr (List.cons.inj heq).1

theorem Parse.Takes.congr (hp : p.Takes f) (hfg : ∀ ts, f ts = g ts) : p.Takes g := by
  intro parser r parser' hrun
  rw [← hfg]
  exact hp _ _ _ hrun

/-! ## The productions -/

/-- `grammar_list_value`. -/
def valueReading : Reading := fun ts =>
  match readValue ts with
  | some rest => (true, rest)
  | none => (false, ts)

theorem Parse.Takes.listValue : grammarListValue.Takes valueReading := by
  intro parser r parser' hrun
  unfold grammarListValue at hrun
  split at hrun
  · next i hcurr =>
    obtain ⟨l, -, heq⟩ := Option.map_eq_some_iff.mp hrun
    cases heq
    rw [tokens_curr hcurr (by simp)]
    rfl
  · next s hcurr =>
    obtain ⟨l, -, heq⟩ := Option.map_eq_some_iff.mp hrun
    cases heq
    rw [tokens_curr hcurr (by simp)]
    rfl
  · next hint hstr =>
    cases hrun
    by_cases hend : parser.curr = .eof
    · rw [ConfigParser.tokens, if_pos hend]
      rfl
    · rw [tokens_of_curr hend]
      revert hint hstr
      cases parser.curr <;> intro hint hstr
      case int i => exact absurd rfl (hint i)
      case str s => exact absurd rfl (hstr s)
      all_goals rfl

/-- `grammar_list_statements`: nothing is taken where there is no value. -/
def statementsReading : Reading := fun ts =>
  match readValue ts with
  | some rest => (true, readValues rest)
  | none => (false, ts)

theorem statementsReading_back (ts : List Token) (hfalse : (statementsReading ts).1 = false) :
    (statementsReading ts).2 = ts := by
  unfold statementsReading at hfalse ⊢
  split at hfalse
  · cases hfalse
  · rfl

theorem Parse.Takes.listStatements (hvalues : q.Takes fun ts => (true, readValues ts)) :
    (Parse.andThen grammarListValue q).Takes statementsReading := by
  refine (Takes.listValue.andThen hvalues).congr fun ts => ?_
  unfold Reading.andThen valueReading statementsReading
  cases readValue ts <;> rfl

/-- The values of a list behind optional ends of line. -/
def itemsReading : Reading := fun ts => statementsReading (dropEols ts)

theorem Parse.Takes.items (hp : p.Takes statementsReading) :
    (Parse.orElse (Parse.andThen (Greyd.accept .eol) p) p).Takes itemsReading :=
  (((Takes.accept .eol (by simp)).andThen hp).orElse hp).congr (Reading.behind_eol statementsReading_back)

theorem Parse.Takes.listValues (fuel : Nat) :
    (grammarListValues fuel).Takes fun ts => (true, readValues ts) := by
  induction fuel with
  | zero => exact .noResult
  | succ fuel ih =>
    have hcomma := Takes.accept .comma (by simp)
    have hitems := (Takes.listStatements ih).items
    refine ((hcomma.andThen hitems).orElse .ok).congr fun ts => ?_
    by_cases h : ∃ more, ts = .comma :: more
    · obtain ⟨more, rfl⟩ := h
      have hfirst : Reading.andThen (Reading.accept .comma) itemsReading (.comma :: more) =
          itemsReading more := Reading.andThen_true (Reading.accept_same .comma (by simp) more)
      rw [itemsReading, statementsReading] at hfirst
      rw [readValues]
      cases hvalue : readValue (dropEols more) with
      | none =>
        rw [hvalue] at hfirst
        exact Reading.orElse_false hfirst
      | some rest =>
        rw [hvalue] at hfirst
        exact Reading.orElse_true hfirst
    · have hne : ∀ more, ts ≠ .comma :: more := fun more heq => h ⟨more, heq⟩
      rw [Reading.orElse_false (Reading.andThen_false (Reading.accept_other hne)), readValues_of_ne hne]
      rfl

/-- A closing token behind optional ends of line. -/
def closingReading (tok : Token) : Reading := fun ts => Reading.accept tok (dropEols ts)

theorem Parse.Takes.closing (tok : Token) (htok : tok ≠ .eof) :
    (Parse.orElse (Parse.andThen (Greyd.accept .eol) (Greyd.accept tok)) (Greyd.accept tok)).Takes
      (closingReading tok) := by
  have heol := Takes.accept .eol (by simp)
  have hclose := Takes.accept tok htok
  exact ((heol.andThen hclose).orElse hclose).congr (Reading.behind_eol (Reading.accept_back tok))

/-- `grammar_list`. -/
def listReading : Reading := fun ts =>
  match ts with
  | .sqbrackL :: ts => Reading.ofOutcome readList ts
  | ts => (false, ts)

theorem Parse.Takes.list (fuel : Nat) : (grammarList fuel).Takes listReading := by
  have hopen := Takes.accept .sqbrackL (by simp)
  have hnew : newList.Takes Reading.ok := by
    intro parser r parser' hrun
    cases hrun
    rfl
  have hitems := (Takes.listStatements (.listValues fuel)).items
  refine (hopen.andThen (hnew.andThen (hitems.andThen (.closing .sqbrackR (by simp))))).congr fun ts => ?_
  unfold listReading
  split
  · next ts =>
    rw [Reading.andThen_true (Reading.accept_same .sqbrackL (by simp) ts), Reading.ok_andThen]
    have hitems : itemsReading ts = statementsReading (dropEols ts) := rfl
    unfold Reading.ofOutcome readList
    unfold statementsReading at hitems
    cases hvalue : readValue (dropEols ts) with
    | none =>
      rw [hvalue] at hitems
      exact Reading.andThen_false hitems
    | some ts' =>
      rw [hvalue] at hitems
      rw [Reading.andThen_true hitems, closingReading]
      dsimp only
      cases dropEols (readValues ts') with
      | nil => rfl
      | cons t rest => cases t <;> rfl
  · next hne => exact Reading.andThen_false (Reading.accept_other hne)

/-! ## Assignments and sections -/

/-- The right-hand side of an assignment. -/
def assignedReading : Reading := fun ts =>
  match ts with
  | .int _ :: ts => (true, ts)
  | .str _ :: ts => (true, ts)
  | ts => listReading ts

/-- A section variable is set behind the value or, for a list, behind its closing bracket. -/
theorem assign_tokens {varname : CStr} {value : ConfigValue} {parser₁ : ConfigParser}
    (hassign : assign varname value parser = some parser₁) :
    parser₁.tokens = parser.tokens ∧ parser₁.advance.tokens = parser.advance.tokens := by
  obtain ⟨config, rfl⟩ := assign_frame hassign
  exact ⟨rfl, rfl⟩

theorem Parse.Takes.assignmentValue (fuel : Nat) (varname : CStr) :
    (assignmentValue fuel varname).Takes assignedReading := by
  intro parser r parser' hrun
  unfold Greyd.assignmentValue at hrun
  split at hrun
  · next i hcurr =>
    obtain ⟨parser₁, hassign, heq⟩ := Option.map_eq_some_iff.mp hrun
    cases heq
    rw [tokens_curr hcurr (by simp), (assign_tokens hassign).2]
    rfl
  · next s hcurr =>
    obtain ⟨parser₁, hassign, heq⟩ := Option.map_eq_some_iff.mp hrun
    cases heq
    rw [tokens_curr hcurr (by simp), (assign_tokens hassign).2]
    rfl
  · next hint hstr =>
    have hlist : assignedReading parser.tokens = listReading parser.tokens := by
      unfold ConfigParser.tokens
      split
      · rfl
      · revert hint hstr
        cases parser.curr <;> intro hint hstr
        case int i => exact absurd rfl (hint i)
        case str s => exact absurd rfl (hstr s)
        all_goals rfl
    rw [hlist]
    obtain ⟨parser₁, hlist, hrest⟩ | ⟨hlist, rfl⟩ := andThen_cases hrun
    · obtain ⟨l, -, hset⟩ := Option.bind_eq_some_iff.mp hrest
      obtain ⟨parser₂, hassign, heq⟩ := Option.map_eq_some_iff.mp hset
      cases heq
      rw [Takes.list fuel _ _ _ hlist, ← (assign_tokens hassign).1]
      rfl
    · exact Takes.list fuel _ _ _ hlist

theorem Parse.Takes.assignment (fuel : Nat) :
    (grammarAssignment fuel).Takes (Reading.ofOutcome readAssignment) := by
  intro parser r parser' hrun
  unfold grammarAssignment at hrun
  split at hrun
  · next varname hcurr =>
    have hread := (Takes.accept .eq (by simp)).andThen (.assignmentValue fuel varname) _ _ _ hrun
    rw [tokens_curr hcurr (by simp), ← hread]
    cases parser.advance.tokens with
    | nil => rfl
    | cons t ts =>
      cases t with
      | eq =>
        cases ts with
        | nil => rfl
        | cons t ts => cases t <;> rfl
      | _ => rfl
  · next hname =>
    cases hrun
    unfold ConfigParser.tokens
    split
    · rfl
    · revert hname
      cases parser.curr <;> intro hname
      case name s => exact absurd rfl (hname s)
      all_goals rfl

theorem Parse.Takes.sectionAssignments (fuel : Nat) :
    (grammarSectionAssignments fuel).Takes fun ts => (true, (readSectionAssignments ts).2) := by
  induction fuel with
  | zero => exact .noResult
  | succ fuel ih =>
    have hcomma := (Takes.accept .comma (by simp)).orElse .ok
    have heol := Takes.accept .eol (by simp)
    refine (hcomma.andThen ((heol.andThen ((Takes.assignment fuel).andThen ih)).orElse .ok)).congr
      fun ts => ?_
    rw [Reading.andThen_true (Reading.optional_comma ts), readSectionAssignments.eq_def]
    split
    · next ts' hline =>
      rw [hline]
      have hassignment : Reading.ofOutcome readAssignment (dropEols ts') =
        ((readAssignment (dropEols ts')).1.accepted, (readAssignment (dropEols ts')).2) := rfl
      have hfirst := Reading.andThen_true (g := Reading.andThen (Reading.ofOutcome readAssignment)
        fun ts => (true, (readSectionAssignments ts).2)) (Reading.accept_eol ts')
      have hnever := (readAssignment_sound (dropEols ts')).not_patched
      cases hread : readAssignment (dropEols ts') with
      | mk outcome rest =>
        rw [hread] at hassignment hnever
        cases outcome with
        | clean =>
          rw [Reading.andThen_true hassignment] at hfirst
          exact Reading.orElse_true hfirst
        | patched => exact absurd rfl hnever
        | absent =>
          rw [Reading.andThen_false hassignment] at hfirst
          exact Reading.orElse_false hfirst
        | broken =>
          rw [Reading.andThen_false hassignment] at hfirst
          exact Reading.orElse_false hfirst
    · next hne =>
      rw [Reading.orElse_false (Reading.andThen_false (Reading.accept_other hne))]
      rfl

/-- `grammar_section_statements`. -/
def sectionReading : Reading :=
  Reading.andThen (Reading.ofOutcome readAssignment) fun ts => (true, (readSectionAssignments ts).2)

/-- A section behind its name. -/
def blockReading : Reading :=
  Reading.andThen (Reading.orElse (Reading.accept .eol) Reading.ok)
    (Reading.andThen (Reading.accept .bracketL)
      (Reading.andThen (Reading.orElse (Reading.accept .eol) Reading.ok)
        (Reading.andThen Reading.ok
          (Reading.andThen sectionReading (Reading.andThen (closingReading .bracketR) Reading.ok)))))

theorem blockReading_eq (ts : List Token) : blockReading ts = Reading.ofOutcome readBlock ts := by
  rw [blockReading, Reading.andThen_true (Reading.optional_eol ts), Reading.ofOutcome, readBlock]
  split
  · next ts₁ hbrace =>
    rw [hbrace, Reading.andThen_true (Reading.accept_same .bracketL (by simp) ts₁),
      Reading.andThen_true (Reading.optional_eol ts₁), Reading.ok_andThen, sectionReading]
    have hassignment : Reading.ofOutcome readAssignment (dropEols ts₁) =
      ((readAssignment (dropEols ts₁)).1.accepted, (readAssignment (dropEols ts₁)).2) := rfl
    have hnever := (readAssignment_sound (dropEols ts₁)).not_patched
    cases hread : readAssignment (dropEols ts₁) with
    | mk outcome ts₂ =>
      rw [hread] at hassignment hnever
      cases outcome with
      | clean =>
        have hstatements : Reading.andThen (Reading.ofOutcome readAssignment)
            (fun ts => (true, (readSectionAssignments ts).2)) (dropEols ts₁) =
            (true, (readSectionAssignments ts₂).2) := Reading.andThen_true hassignment
        rw [Reading.andThen_true hstatements]
        dsimp only
        unfold Reading.andThen closingReading
        cases dropEols (readSectionAssignments ts₂).2 with
        | nil => rfl
        | cons t rest =>
          cases t with
          | bracketR => cases (readSectionAssignments ts₂).1 <;> rfl
          | _ => rfl
      | patched => exact absurd rfl hnever
      | absent => exact Reading.andThen_false (Reading.andThen_false hassignment)
      | broken => exact Reading.andThen_false (Reading.andThen_false hassignment)
  · next hne => exact Reading.andThen_false (Reading.accept_other hne)

theorem Parse.Takes.block (fuel : Nat) (secname : CStr) :
    (Parse.andThen (acceptOptional .eol) (Parse.andThen (Greyd.accept .bracketL)
      (Parse.andThen (acceptOptional .eol)
        (Parse.andThen (fun parser => Parse.ok (openSection secname parser))
          (Parse.andThen (grammarSectionStatements fuel)
            (Parse.andThen (Parse.orElse (Parse.andThen (Greyd.accept .eol) (Greyd.accept .bracketR))
                (Greyd.accept .bracketR))
              (fun parser => Parse.ok { parser with section' := none }))))))).Takes
      (Reading.ofOutcome readBlock) := by
  have hlines := (Takes.accept .eol (by simp)).orElse .ok
  have hopen : Takes (fun parser => Parse.ok (openSection secname parser)) Reading.ok := by
    intro parser r parser' hrun
    cases hrun
    rfl
  have hdrop : Takes (fun parser => Parse.ok { parser with section' := none }) Reading.ok := by
    intro parser r parser' hrun
    cases hrun
    rfl
  have hstatements := (Takes.assignment fuel).andThen (.sectionAssignments fuel)
  have hclose := (Takes.closing .bracketR (by simp)).andThen hdrop
  exact (hlines.andThen ((Takes.accept .bracketL (by simp)).andThen (hlines.andThen
    (hopen.andThen (hstatements.andThen hclose))))).congr blockReading_eq

theorem grammarSectionType_true {parser₁ : ConfigParser}
    (hrun : grammarSectionType parser = some (true, parser₁)) :
    ConfigGrammar.SectionType parser.curr ∧ parser₁.tokens = parser.advance.tokens := by
  unfold grammarSectionType at hrun
  split at hrun
  · next hcurr =>
    cases hrun
    exact ⟨hcurr ▸ .section, rfl⟩
  · next hcurr =>
    cases hrun
    exact ⟨hcurr ▸ .blacklist, rfl⟩
  · next hcurr =>
    cases hrun
    exact ⟨hcurr ▸ .whitelist, rfl⟩
  · cases hrun

theorem grammarSectionType_false (hrun : grammarSectionType parser = some (false, parser')) :
    Reading.ofOutcome readSection parser.tokens = (false, parser'.tokens) := by
  unfold grammarSectionType at hrun
  split at hrun
  · cases hrun
  · cases hrun
  · cases hrun
  · next hsection hblacklist hwhitelist =>
    cases hrun
    unfold ConfigParser.tokens
    split
    · rfl
    · revert hsection hblacklist hwhitelist
      cases parser.curr <;> intro hsection hblacklist hwhitelist
      case «section» => exact absurd rfl hsection
      case blacklist => exact absurd rfl hblacklist
      case whitelist => exact absurd rfl hwhitelist
      all_goals rfl

theorem Parse.Takes.section' (fuel : Nat) : (grammarSection fuel).Takes (Reading.ofOutcome readSection) := by
  intro parser r parser' hrun
  obtain ⟨parser₁, htype, hrest⟩ | ⟨hnone, rfl⟩ := andThen_cases hrun
  · obtain ⟨hsectype, hnext⟩ := grammarSectionType_true htype
    have hend : parser.curr ≠ .eof := by
      intro heq
      rw [heq] at hsectype
      cases hsectype
    rw [tokens_of_curr hend, ← hnext]
    split at hrest
    · next secname hcurr =>
      rw [tokens_curr hcurr (by simp), Reading.ofOutcome, hsectype.readSection]
      exact Takes.block fuel secname _ _ _ hrest
    · next hname =>
      cases hrest
      have hread : ∀ {t}, ConfigGrammar.SectionType t →
          readSection (t :: parser'.tokens) = (.broken, parser'.tokens) := by
        intro t ht
        unfold ConfigParser.tokens
        split
        · cases ht <;> rfl
        · revert hname
          cases parser'.curr <;> intro hname
          case name s => exact absurd rfl (hname s)
          all_goals cases ht <;> rfl
      rw [Reading.ofOutcome, hread hsectype]
      rfl
  · exact grammarSectionType_false hnone

/-! ## Statements -/

theorem accept_token (heol : tok ≠ .eol) (htok : tok ≠ .eof)
    (hrun : accept tok parser = some (true, parser')) : parser.tokens = tok :: parser'.tokens := by
  unfold accept at hrun
  split at hrun
  · next hcurr =>
    cases hrun
    exact tokens_curr hcurr htok
  · cases hrun

theorem accept_absent (hrun : accept tok parser = some (false, parser')) :
    parser' = parser ∧ parser.curr ≠ tok := by
  unfold accept at hrun
  split at hrun
  · cases hrun
  · next hcurr =>
    cases hrun
    exact ⟨rfl, hcurr⟩

theorem Parse.Takes.include' (glob : CStr → List CStr) :
    (grammarInclude glob).Takes (Reading.ofOutcome readInclude) := by
  intro parser r parser' hrun
  obtain ⟨parser₁, hinclude, hrest⟩ | ⟨hnone, rfl⟩ := andThen_cases hrun
  · rw [accept_token (by simp) (by simp) hinclude]
    split at hrest
    · next s hcurr =>
      rw [tokens_curr hcurr (by simp)]
      cases hrest
      rfl
    · next hstr =>
      cases hrest
      unfold ConfigParser.tokens
      split
      · rfl
      · revert hstr
        cases parser'.curr <;> intro hstr
        case str s => exact absurd rfl (hstr s)
        all_goals rfl
  · obtain ⟨rfl, hne⟩ := accept_absent hnone
    unfold ConfigParser.tokens
    split
    · rfl
    · revert hne
      cases parser'.curr <;> intro hne
      case «include» => exact absurd rfl hne
      all_goals rfl

theorem Parse.Takes.statement (glob : CStr → List CStr) (fuel : Nat) :
    (grammarStatement glob fuel).Takes (Reading.ofOutcome readStatement) := by
  refine ((Takes.assignment fuel).orElse ((Takes.section' fuel).orElse (.include' glob))).congr
    fun ts => ?_
  unfold Reading.orElse Reading.ofOutcome readStatement
  have hnever := (readAssignment_sound ts).not_patched
  generalize readAssignment ts = first at hnever ⊢
  obtain ⟨first, rest⟩ := first
  cases first with
  | clean => rfl
  | patched => exact absurd rfl hnever
  | absent | broken =>
    dsimp only [Outcome.accepted]
    generalize readSection rest = second
    obtain ⟨second, rest⟩ := second
    cases second with
    | clean => rfl
    | patched => rfl
    | absent | broken =>
      dsimp only
      generalize readInclude rest = third
      obtain ⟨third, rest⟩ := third
      cases third <;> rfl

/-- A statement and those behind it, where ends of line have led. -/
theorem statements_rest (ts : List Token) :
    (Reading.andThen (Reading.ofOutcome readStatement) (fun ts => (true, (readStatements ts).2))
      (dropEols ts)).2 = (readConfig ts).2 := by
  have hstatement : Reading.ofOutcome readStatement (dropEols ts) =
    ((readStatement (dropEols ts)).1.accepted, (readStatement (dropEols ts)).2) := rfl
  rw [readConfig, readStatements]
  cases hread : readStatement (dropEols ts) with
  | mk outcome rest =>
    rw [hread] at hstatement
    cases outcome with
    | clean | patched => rw [Reading.andThen_true hstatement]
    | absent | broken => rw [Reading.andThen_false hstatement]

theorem Parse.Takes.statements (glob : CStr → List CStr) (fuel : Nat) :
    (grammarStatements glob fuel).Takes fun ts => (true, (readStatements ts).2) := by
  induction fuel with
  | zero => exact .noResult
  | succ fuel ih =>
    have heol := Takes.accept .eol (by simp)
    refine ((heol.andThen ((Takes.statement glob fuel).andThen ih)).orElse .ok).congr fun ts => ?_
    by_cases h : ∃ more, ts = .eol :: more
    · obtain ⟨more, rfl⟩ := h
      have hrest := statements_rest more
      have hfirst := Reading.andThen_true (g := Reading.andThen (Reading.ofOutcome readStatement)
        fun ts => (true, (readStatements ts).2)) (Reading.accept_eol more)
      rw [readConfig] at hrest
      rw [← hrest]
      generalize Reading.andThen (Reading.ofOutcome readStatement)
        (fun ts => (true, (readStatements ts).2)) (dropEols more) = result at hfirst ⊢
      obtain ⟨r, rest⟩ := result
      cases r with
      | true => exact Reading.orElse_true hfirst
      | false => exact Reading.orElse_false hfirst
    · have hne : ∀ more, ts ≠ .eol :: more := fun more heq => h ⟨more, heq⟩
      have hnone : readStatements ts = (false, ts) := by
        rw [readStatements.eq_def]
        split
        · exact absurd rfl (hne _)
        · rfl
      rw [Reading.orElse_false (Reading.andThen_false (Reading.accept_other hne)), hnone]
      rfl

theorem tokens_eq_nil : parser.tokens = [] ↔ parser.curr = .eof := by
  unfold ConfigParser.tokens
  split
  · next hcurr => simp [hcurr]
  · next hcurr => simp [hcurr]

theorem accept_eof_iff (hrun : accept .eof parser = some (r, parser')) :
    r = true ↔ parser.tokens = [] := by
  cases r with
  | true => simp [(accept_eof hrun).1]
  | false => simp [tokens_eq_nil, (accept_absent hrun).2]

/-- A run succeeds when the reading of the configuration leaves nothing. -/
theorem configParserStart_rest {glob : CStr → List CStr} {config : Config}
    (hrun : configParserStart glob config parser = some (r, parser')) :
    r = true ↔ (readConfig parser.lexer.tokens).2 = [] := by
  generalize hfuel : (parserBegin config parser).lexer.source.length + 2 = fuel
  unfold configParserStart at hrun
  simp only [hfuel] at hrun
  have hbegin : (parserBegin config parser).tokens = parser.lexer.tokens := tokens_advance _
  have hlines := (Takes.accept .eol (by simp)).orElse .ok
  obtain ⟨parser₁, hskip, hrest⟩ | ⟨hskip, -⟩ := andThen_cases hrun
  · have hfirst := hlines _ _ _ hskip
    rw [hbegin, Reading.optional_eol] at hfirst
    have htokens : dropEols parser.lexer.tokens = parser₁.tokens := (Prod.mk.inj hfirst).2
    have hread := statements_rest parser.lexer.tokens
    rw [htokens] at hread
    have hafter : ∀ {parser₂ parser₃ r}, grammarStatement glob fuel parser₁ = some (true, parser₂) →
        grammarStatements glob fuel parser₂ = some (r, parser₃) →
          (readConfig parser.lexer.tokens).2 = parser₃.tokens := by
      intro parser₂ parser₃ r hstatement hmore
      rw [Reading.andThen_true (Takes.statement glob fuel _ _ _ hstatement)] at hread
      exact hread.symm.trans (Prod.mk.inj (Takes.statements glob fuel _ _ _ hmore)).2
    obtain ⟨parser₂, hfailed, hend⟩ | ⟨hdone, rfl⟩ := orElse_cases hrest
    · obtain ⟨parser₃, hstatement, hmore⟩ | ⟨hstatement, -⟩ := andThen_cases hfailed
      · obtain ⟨parser₄, hmore, hnone⟩ | ⟨hmore, -⟩ := andThen_cases hmore
        · rw [hafter hstatement hmore, ← accept_false hnone]
          exact accept_eof_iff hend
        · cases Takes.statements glob fuel _ _ _ hmore
      · rw [Reading.andThen_false (Takes.statement glob fuel _ _ _ hstatement)] at hread
        rw [← hread]
        exact accept_eof_iff hend
    · obtain ⟨parser₃, hstatement, hmore⟩ | ⟨-, hfalse⟩ := andThen_cases hdone
      · obtain ⟨parser₄, hmore, hend⟩ | ⟨-, hfalse⟩ := andThen_cases hmore
        · rw [hafter hstatement hmore]
          exact accept_eof_iff hend
        · cases hfalse
      · cases hfalse
  · have hfirst := hlines _ _ _ hskip
    rw [Reading.optional_eol] at hfirst
    cases hfirst

/-! ## Every run has a result -/

/-- What the references of the parser have to be. -/
abbrev References := Option SectionRef → Option (List ConfigValue) → Prop

/-- The open section is there. -/
def Live : References := fun section' _ => section' ≠ some .dangling

/-- So is the list that is being read. -/
def Listing : References := fun section' value => section' ≠ some .dangling ∧ value.isSome

/-- On fewer tokens than the fuel the rule has a result, and leaves no more of them. -/
def Parse.Returns (refs : References) (fuel : Nat) (p : Parse) : Prop :=
  ∀ parser, refs parser.section' parser.value → parser.tokens.length < fuel →
    ∃ r parser', p parser = some (r, parser') ∧ refs parser'.section' parser'.value ∧
      parser'.tokens.length ≤ parser.tokens.length

variable {refs : References} {fuel : Nat}

theorem Parse.Returns.ok : Parse.ok.Returns refs fuel :=
  fun parser hrefs _ => ⟨true, parser, rfl, hrefs, Nat.le_refl _⟩

theorem Parse.Returns.err : Parse.err.Returns refs fuel :=
  fun parser hrefs _ => ⟨false, parser, rfl, hrefs, Nat.le_refl _⟩

theorem Parse.Returns.andThen (hp : p.Returns refs fuel) (hq : q.Returns refs fuel) :
    (andThen p q).Returns refs fuel := by
  intro parser hrefs hfuel
  obtain ⟨r, parser₁, hfirst, hrefs₁, hle⟩ := hp parser hrefs hfuel
  unfold Parse.andThen
  rw [hfirst]
  cases r with
  | false => exact ⟨_, _, rfl, hrefs₁, hle⟩
  | true =>
    obtain ⟨r, parser₂, hsecond, hrefs₂, hle₂⟩ := hq parser₁ hrefs₁ (by omega)
    exact ⟨r, parser₂, hsecond, hrefs₂, hle₂.trans hle⟩

theorem Parse.Returns.orElse (hp : p.Returns refs fuel) (hq : q.Returns refs fuel) :
    (orElse p q).Returns refs fuel := by
  intro parser hrefs hfuel
  obtain ⟨r, parser₁, hfirst, hrefs₁, hle⟩ := hp parser hrefs hfuel
  unfold Parse.orElse
  rw [hfirst]
  cases r with
  | true => exact ⟨_, _, rfl, hrefs₁, hle⟩
  | false =>
    obtain ⟨r, parser₂, hsecond, hrefs₂, hle₂⟩ := hq parser₁ hrefs₁ (by omega)
    exact ⟨r, parser₂, hsecond, hrefs₂, hle₂.trans hle⟩

/-- The parser stands at the token and moves over it, or stays where it is. -/
theorem accept_returns (tok : Token) (htok : tok ≠ .eof) (parser : ConfigParser) :
    ∃ r parser', accept tok parser = some (r, parser') ∧ parser'.section' = parser.section' ∧
      parser'.value = parser.value ∧
      if r then parser'.tokens.length < parser.tokens.length else parser' = parser := by
  by_cases hcurr : parser.curr = tok
  · have hrun : accept tok parser = some (true, if tok = .eol then
        advanceEols (parser.lexer.source.length + 1) parser else parser.advance) := if_pos hcurr
    have hmoves := accept_true htok hrun
    refine ⟨_, _, hrun, hmoves.sectionRef, hmoves.value, ?_⟩
    rw [if_pos rfl, tokens_curr hcurr htok, List.length_cons]
    by_cases heol : tok = .eol
    · have hle := dropEols_length parser.advance.tokens
      rw [if_pos heol, advanceEols_tokens (Nat.lt_succ_self _)]
      omega
    · rw [if_neg heol]
      exact Nat.lt_succ_self _
  · exact ⟨false, parser, if_neg hcurr, rfl, rfl, rfl⟩

theorem Parse.Returns.accept (refs : References) (fuel : Nat) (tok : Token) (htok : tok ≠ .eof) :
    (accept tok).Returns refs fuel := by
  intro parser hrefs _
  obtain ⟨r, parser', hrun, hsection, hvalue, hle⟩ := accept_returns tok htok parser
  refine ⟨r, parser', hrun, hsection ▸ hvalue ▸ hrefs, ?_⟩
  cases r with
  | true => exact Nat.le_of_lt hle
  | false => exact Nat.le_of_eq (congrArg (·.tokens.length) hle)

/-- Behind a token one fuel less is enough. -/
theorem Parse.Returns.behind (htok : tok ≠ .eof) (hq : q.Returns refs fuel) :
    (Parse.andThen (Greyd.accept tok) q).Returns refs (fuel + 1) := by
  intro parser hrefs hfuel
  obtain ⟨r, parser₁, hrun, hsection, hvalue, hle⟩ := accept_returns tok htok parser
  unfold Parse.andThen
  rw [hrun]
  have hrefs₁ : refs parser₁.section' parser₁.value := hsection ▸ hvalue ▸ hrefs
  cases r with
  | false => exact ⟨_, _, rfl, hrefs₁, Nat.le_of_eq (congrArg (·.tokens.length) hle)⟩
  | true =>
    rw [if_pos rfl] at hle
    obtain ⟨r, parser₂, hsecond, hrefs₂, hle₂⟩ := hq parser₁ hrefs₁ (by omega)
    exact ⟨r, parser₂, hsecond, hrefs₂, by omega⟩

theorem advance_length (hcurr : parser.curr ≠ .eof) :
    parser.advance.tokens.length ≤ parser.tokens.length := by
  rw [tokens_of_curr hcurr]
  exact Nat.le_succ _

theorem Parse.Returns.listValue : grammarListValue.Returns Listing fuel := by
  intro parser hrefs hfuel
  obtain ⟨l, hl⟩ := Option.isSome_iff_exists.mp hrefs.2
  have hinsert : ∀ value, parser.curr ≠ .eof → ∃ r parser', insertValue value parser = some (r, parser') ∧
      Listing parser'.section' parser'.value ∧ parser'.tokens.length ≤ parser.tokens.length := by
    intro value hcurr
    refine ⟨true, parser.advance.setValue (some (l ++ [value])), ?_, ⟨hrefs.1, rfl⟩, advance_length hcurr⟩
    rw [insertValue, hl]
    rfl
  unfold grammarListValue
  split
  · next i hcurr => exact hinsert _ (by simp [hcurr])
  · next s hcurr => exact hinsert _ (by simp [hcurr])
  · exact Returns.err parser hrefs hfuel

theorem Parse.Returns.listValues (fuel : Nat) : (grammarListValues fuel).Returns Listing fuel := by
  induction fuel with
  | zero => exact fun parser _ hfuel => absurd hfuel (Nat.not_lt_zero _)
  | succ fuel ih =>
    have hvalues := Returns.listValue.andThen ih
    have heol := Returns.accept Listing fuel .eol (by simp)
    exact (Returns.behind (by simp) ((heol.andThen hvalues).orElse hvalues)).orElse .ok

/-- A list that is read is there for the assignment. -/
theorem grammarList_returns (hrefs : Live parser.section' parser.value) (hfuel : parser.tokens.length < fuel) :
    ∃ r parser', grammarList fuel parser = some (r, parser') ∧ Live parser'.section' parser'.value ∧
      (r = true → parser'.value.isSome) ∧ parser'.tokens.length ≤ parser.tokens.length := by
  have hvalues := Returns.listValue.andThen (.listValues fuel)
  have heol := Returns.accept Listing fuel .eol (by simp)
  have hclose := Returns.accept Listing fuel .sqbrackR (by simp)
  have hitems := ((heol.andThen hvalues).orElse hvalues).andThen ((heol.andThen hclose).orElse hclose)
  obtain ⟨r, parser₁, hopen, hsection, -, hle⟩ := accept_returns .sqbrackL (by simp) parser
  unfold grammarList Parse.andThen
  rw [hopen]
  cases r with
  | false =>
    obtain rfl : parser₁ = parser := hle
    exact ⟨_, _, rfl, hrefs, nofun, Nat.le_refl _⟩
  | true =>
    rw [if_pos rfl] at hle
    have hlisting : Listing (parser₁.setValue (some [])).section' (parser₁.setValue (some [])).value :=
      ⟨hsection ▸ hrefs, rfl⟩
    have hsame : (parser₁.setValue (some [])).tokens.length = parser₁.tokens.length := rfl
    obtain ⟨r, parser₂, hrun, hrefs₂, hle₂⟩ := hitems _ hlisting (by omega)
    exact ⟨r, parser₂, hrun, hrefs₂.1, fun _ => hrefs₂.2, by omega⟩

theorem assign_live (varname : CStr) (value : ConfigValue) (hrefs : Live parser.section' parser.value) :
    ∃ config, assign varname value parser = some { parser with config := config } := by
  unfold assign
  cases hsection : parser.section' with
  | none => exact ⟨_, rfl⟩
  | some section' =>
    cases section' with
    | slot sectype i => exact ⟨_, rfl⟩
    | dangling => exact absurd hsection hrefs

theorem Parse.Returns.assignmentValue (fuel : Nat) (varname : CStr) :
    (assignmentValue fuel varname).Returns Live fuel := by
  intro parser hrefs hfuel
  have hset : ∀ value, parser.curr ≠ .eof → ∃ r parser', ((assign varname value parser).map
      fun parser => (true, parser.advance)) = some (r, parser') ∧ Live parser'.section' parser'.value ∧
        parser'.tokens.length ≤ parser.tokens.length := by
    intro value hcurr
    obtain ⟨config, hassign⟩ := assign_live varname value hrefs
    rw [hassign]
    exact ⟨_, _, rfl, hrefs, advance_length hcurr⟩
  unfold Greyd.assignmentValue
  split
  · next i hcurr => exact hset _ (by simp [hcurr])
  · next s hcurr => exact hset _ (by simp [hcurr])
  · obtain ⟨r, parser₁, hlist, hlive, hvalue, hle⟩ := grammarList_returns hrefs hfuel
    unfold Parse.andThen
    rw [hlist]
    cases r with
    | false => exact ⟨_, _, rfl, hlive, hle⟩
    | true =>
      obtain ⟨l, hl⟩ := Option.isSome_iff_exists.mp (hvalue rfl)
      obtain ⟨config, hassign⟩ := assign_live varname (.list l) hlive
      dsimp only
      rw [hl, Option.bind_some, hassign]
      exact ⟨_, _, rfl, hlive, hle⟩

theorem Parse.Returns.assignment (fuel : Nat) : (grammarAssignment fuel).Returns Live fuel := by
  intro parser hrefs hfuel
  unfold grammarAssignment
  split
  · next varname hcurr =>
    have hle : parser.advance.tokens.length ≤ parser.tokens.length := advance_length (by simp [hcurr])
    have hvalue := (Returns.accept Live fuel .eq (by simp)).andThen (.assignmentValue fuel varname)
    obtain ⟨r, parser', hrun, hlive, hle'⟩ := hvalue parser.advance hrefs (by omega)
    exact ⟨r, parser', hrun, hlive, by omega⟩
  · exact Returns.err parser hrefs hfuel

theorem Parse.Returns.sectionAssignments (fuel : Nat) :
    (grammarSectionAssignments fuel).Returns Live fuel := by
  induction fuel with
  | zero => exact fun parser _ hfuel => absurd hfuel (Nat.not_lt_zero _)
  | succ fuel ih =>
    have hcomma := (Returns.accept Live (fuel + 1) .comma (by simp)).orElse .ok
    exact hcomma.andThen ((Returns.behind (by simp) ((Returns.assignment fuel).andThen ih)).orElse .ok)

theorem Parse.Returns.sectionType : grammarSectionType.Returns Live fuel := by
  intro parser hrefs hfuel
  unfold grammarSectionType
  split
  · next hcurr => exact ⟨_, _, rfl, hrefs, advance_length (by simp [hcurr])⟩
  · next hcurr => exact ⟨_, _, rfl, hrefs, advance_length (by simp [hcurr])⟩
  · next hcurr => exact ⟨_, _, rfl, hrefs, advance_length (by simp [hcurr])⟩
  · exact Returns.err parser hrefs hfuel

theorem Parse.Returns.section' (fuel : Nat) : (grammarSection fuel).Returns Live fuel := by
  have heol := Returns.accept Live fuel .eol (by simp)
  have hbraceL := Returns.accept Live fuel .bracketL (by simp)
  have hbraceR := Returns.accept Live fuel .bracketR (by simp)
  have hopen : ∀ secname, Returns Live fuel fun parser => Parse.ok (openSection secname parser) :=
    fun secname parser _ _ => ⟨_, _, rfl, nofun, Nat.le_refl _⟩
  have hdrop : Returns Live fuel fun parser => Parse.ok { parser with section' := none } :=
    fun parser _ _ => ⟨_, _, rfl, nofun, Nat.le_refl _⟩
  have hstatements := (Returns.assignment fuel).andThen (.sectionAssignments fuel)
  have hclose := ((heol.andThen hbraceR).orElse hbraceR).andThen hdrop
  refine Returns.sectionType.andThen fun parser hrefs hfuel => ?_
  split
  · next secname hcurr =>
    have hle : parser.advance.tokens.length ≤ parser.tokens.length := advance_length (by simp [hcurr])
    have hblock := (heol.orElse .ok).andThen (hbraceL.andThen ((heol.orElse .ok).andThen
      ((hopen secname).andThen (hstatements.andThen hclose))))
    obtain ⟨r, parser', hrun, hlive, hle'⟩ := hblock parser.advance hrefs (by omega)
    exact ⟨r, parser', hrun, hlive, by omega⟩
  · exact Returns.err parser hrefs hfuel

theorem Parse.Returns.include' (glob : CStr → List CStr) : (grammarInclude glob).Returns Live fuel := by
  refine (Returns.accept Live fuel .include (by simp)).andThen fun parser hrefs hfuel => ?_
  split
  · next s hcurr => exact ⟨_, _, rfl, hrefs, advance_length (by simp [hcurr])⟩
  · exact Returns.err parser hrefs hfuel

theorem Parse.Returns.statement (glob : CStr → List CStr) (fuel : Nat) :
    (grammarStatement glob fuel).Returns Live fuel :=
  (Returns.assignment fuel).orElse ((Returns.section' fuel).orElse (.include' glob))

theorem Parse.Returns.statements (glob : CStr → List CStr) (fuel : Nat) :
    (grammarStatements glob fuel).Returns Live fuel := by
  induction fuel with
  | zero => exact fun parser _ hfuel => absurd hfuel (Nat.not_lt_zero _)
  | succ fuel ih => exact (Returns.behind (by simp) ((Returns.statement glob fuel).andThen ih)).orElse .ok

/-! ## The language -/

theorem tokensFrom_length (fuel : Nat) (lexer : Lexer) :
    (tokensFrom fuel lexer).length ≤ lexer.source.length := by
  induction fuel generalizing lexer with
  | zero => exact Nat.zero_le _
  | succ fuel ih =>
    rw [tokensFrom]
    split
    · exact Nat.zero_le _
    · next hend =>
      have hlength := configLexerNextToken_length hend
      have hmore := ih (configLexerNextToken lexer).2
      rw [List.length_cons]
      omega

theorem ConfigParser.tokens_length (parser : ConfigParser) :
    parser.tokens.length ≤ parser.lexer.source.length + 1 := by
  unfold ConfigParser.tokens
  split
  · exact Nat.zero_le _
  · exact Nat.succ_le_succ (tokensFrom_length _ _)

theorem accept_result (tok : Token) (parser : ConfigParser) :
    ∃ r parser', accept tok parser = some (r, parser') := by
  unfold accept
  split
  · exact ⟨_, _, rfl⟩
  · exact ⟨_, _, rfl⟩

theorem andThen_result {parser₁ : ConfigParser} (hp : p parser = some (r, parser₁))
    (hq : ∃ r parser', q parser₁ = some (r, parser')) : ∃ r parser', andThen p q parser = some (r, parser') := by
  unfold andThen
  rw [hp]
  cases r with
  | false => exact ⟨_, _, rfl⟩
  | true => exact hq

theorem orElse_result {parser₁ : ConfigParser} (hp : p parser = some (r, parser₁))
    (hq : ∃ r parser', q parser₁ = some (r, parser')) : ∃ r parser', orElse p q parser = some (r, parser') := by
  unfold orElse
  rw [hp]
  cases r with
  | false => exact hq
  | true => exact ⟨_, _, rfl⟩

/-- A run without an open section has a result. -/
theorem configParserStart_result (glob : CStr → List CStr) (config : Config)
    (hsection : parser.section' = none) :
    ∃ r parser', configParserStart glob config parser = some (r, parser') := by
  have hlive : Live (parserBegin config parser).section' (parserBegin config parser).value := by
    simp [Live, parserBegin, ConfigParser.advance, hsection]
  have hlength := (parserBegin config parser).tokens_length
  generalize hfuel : (parserBegin config parser).lexer.source.length + 2 = fuel
  unfold configParserStart
  simp only [hfuel]
  have hskip := (Returns.accept Live fuel .eol (by simp)).orElse .ok
  obtain ⟨r₁, parser₁, hlines, hlive₁, hle₁⟩ := hskip _ hlive (by omega)
  refine andThen_result hlines ?_
  obtain ⟨r₂, parser₂, hstatement, hlive₂, hle₂⟩ := Returns.statement glob fuel _ hlive₁ (by omega)
  obtain ⟨r₃, parser₃, hmore, -, -⟩ := Returns.statements glob fuel _ hlive₂ (by omega)
  obtain ⟨r₄, parser₄, hfirst⟩ := andThen_result hstatement
    (andThen_result hmore (accept_result .eof parser₃))
  exact orElse_result hfirst (accept_result .eof parser₄)

end takes

/-- A run has a result, and the tokens in front of the end of the file are accepted just when they
are a configuration of the grammar, for all sequences but those with a statement that breaks off
and is let pass. -/
theorem accepts_grammar_iff (glob : CStr → List CStr) (config : Config) (parser : ConfigParser) :
    (parser.section' = none → ∃ r parser', configParserStart glob config parser = some (r, parser')) ∧
    ∀ r parser', configParserStart glob config parser = some (r, parser') →
      ((r = true ↔ ConfigGrammar.Config parser.lexer.tokens) ↔
        ¬ PatchedConfig parser.lexer.tokens) := by
  refine ⟨configParserStart_result glob config, fun r parser' hrun => ?_⟩
  have haccepted := configParserStart_rest hrun
  rw [haccepted, config_iff, patchedConfig_iff]
  generalize readConfig parser.lexer.tokens = result
  obtain ⟨flag, rest⟩ := result
  cases flag with
  | false => simp
  | true => simp

/-- A variable without a value is let pass at the end of the file. -/
theorem lone_name_accepted :
    (configParserStart (fun _ => []) configCreate
      (configParserCreate (configLexerCreate "a = 1\nb".toList))).map Prod.fst = some true ∧
    ¬ ConfigGrammar.Config (configLexerCreate "a = 1\nb".toList).tokens := by
  have htokens : (configLexerCreate "a = 1\nb".toList).tokens =
      [.name "a".toList, .eq, .int 1, .eol, .name "b".toList] := by decide +kernel
  have hpatched : PatchedConfig [.name "a".toList, .eq, .int 1, .eol, .name "b".toList] :=
    .next ⟨[], rfl, optEol_nil⟩ (.assignment (.int "a".toList 1))
      (.broken ⟨[], rfl, optEol_nil⟩ (.rubble (.assignment (.name "b".toList))))
  refine ⟨by decide +kernel, fun hconfig => ?_⟩
  rw [htokens, config_iff, (patchedConfig_iff _).mp hpatched] at hconfig
  cases hconfig

end Greyd
