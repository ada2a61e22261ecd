import Greyd.Spamd

/-!
# What a feed's parser reads

The parser as a function of the token sequence alone: the ranges it adds, and where it
stops. `read_feed` connects it with the parser on any lexer that delivers the sequence.
-/
namespace Greyd

open SpamdParser

/-- The lexer delivers these tokens and then an end of file. -/
inductive Feeds {σ : Type} (next : σ → SpamdTok × σ) : σ → List SpamdTok → Prop
  | done {s : σ} : (next s).1 = .eof → Feeds next s []
  | step {s s' : σ} {t : SpamdTok} {ts : List SpamdTok} : next s = (t, s') → t ≠ .eof →
      Feeds next s' ts → Feeds next s (t :: ts)

/-- A sequence of tokens, as a lexer. -/
def tokenList : List SpamdTok → SpamdTok × List SpamdTok
  | [] => (.eof, [])
  | t :: ts => (t, ts)

theorem feeds_tokenList {ts : List SpamdTok} (h : .eof ∉ ts) : Feeds tokenList (ts ++ [.eof]) ts := by
  induction ts with
  | nil => exact .done rfl
  | cons t ts ih =>
    simp only [List.mem_cons, not_or] at h
    exact .step rfl (fun he => h.1 he.symm) (ih h.2)

/-- A range of addresses, without its end. -/
abbrev FeedRange := BitVec 32 × BitVec 32

def number? : SpamdTok → Option Nat
  | .int6 v => some v
  | .int8 v => some v
  | _ => none

/-- The quads of an address, when it is complete, and the tokens that are left. -/
def readAddress : Nat → List SpamdTok → Option (List Nat) × List SpamdTok
  | 0, ts => (some [], ts)
  | _ + 1, [] => (none, [])
  | left + 1, t :: ts =>
    match number? t with
    | none => (none, t :: ts)
    | some v =>
      if left = 0 then (some [v], ts)
      else match ts with
        | .dot :: ts =>
          let r := readAddress left ts
          (r.1.map (v :: ·), r.2)
        | ts => (none, ts)

/-- The range of an entry, when it is complete, and the tokens that are left. -/
def readEntry (ts : List SpamdTok) : Option FeedRange × List SpamdTok :=
  match readAddress spamdParserIpv4Quads ts with
  | (none, rest) => (none, rest)
  | (some start, rest) =>
    match rest with
    | .slash :: .int6 bits :: rest =>
      let range := ipCidrToRange ⟨quadAddr start, bits⟩
      (some (range.1, range.2 + 1), rest)
    | .slash :: rest => (none, rest)
    | .dash :: rest =>
      let r := readAddress spamdParserIpv4Quads rest
      (r.1.map fun end_ => (quadAddr start, quadAddr end_ + 1), r.2)
    | rest => (some (quadAddr start, quadAddr start + 1), rest)

/-- How the sequence of entries ends: at a token that is no end of line, or at tokens
that are no entry. -/
inductive FeedEnd
  | stopped (rest : List SpamdTok)
  | failed (attempt : List SpamdTok)

/-- The entries, each behind ends of line, and how they end. -/
def readEntries : Nat → List SpamdTok → List FeedRange × FeedEnd
  | fuel + 1, .eol :: ts =>
    let ts := ts.dropWhile (· = .eol)
    match readEntry ts with
    | (none, _) => ([], .failed ts)
    | (some r, rest) =>
      let more := readEntries fuel rest
      (r :: more.1, more.2)
  | _, ts => ([], .stopped ts)

/-- The whole feed reads as if an end of line stood in front of it. -/
def readFeed (ts : List SpamdTok) : List FeedRange × FeedEnd := readEntries (ts.length + 2) (.eol :: ts)

/-- The parser is content when nothing is left. -/
def FeedEnd.ok : FeedEnd → Bool
  | .stopped rest => rest = []
  | .failed attempt => (readEntry attempt).2 = []

def addRanges (blacklist : Blacklist) (type : BlType) (ranges : List FeedRange) : Option Blacklist :=
  ranges.foldlM (fun b r => blacklistAddRange b r.1 r.2 type) blacklist

/-! ## The parser's state -/

section
variable {σ : Type} {next : σ → SpamdTok × σ}

/-- The parser has the first of these tokens in front of it, and then an end of file. -/
def Sees (next : σ → SpamdTok × σ) (parser : SpamdParser σ) : List SpamdTok → Prop
  | [] => parser.curr = .eof
  | t :: ts => parser.curr = t ∧ t ≠ .eof ∧ Feeds next parser.lexer ts

theorem sees_advance_of_feeds {parser : SpamdParser σ} {ts : List SpamdTok}
    (h : Feeds next parser.lexer ts) : Sees next (parser.advance next) ts := by
  cases h with
  | done he => exact he
  | step hn ht hrest => exact ⟨by rw [advance, hn], ht, by rw [advance, hn]; exact hrest⟩

theorem Sees.advance {parser : SpamdParser σ} {t : SpamdTok} {ts : List SpamdTok}
    (h : Sees next parser (t :: ts)) : Sees next (parser.advance next) ts :=
  sees_advance_of_feeds h.2.2

theorem Sees.eof_iff {parser : SpamdParser σ} {ts : List SpamdTok} (h : Sees next parser ts) :
    parser.curr = .eof ↔ ts = [] := by
  cases ts with
  | nil => exact ⟨fun _ => rfl, fun _ => h⟩
  | cons t ts =>
    have hne : parser.curr ≠ .eof := h.1 ▸ h.2.1
    simp [hne]

theorem Sees.setBlacklist {parser : SpamdParser σ} {ts : List SpamdTok} (h : Sees next parser ts)
    (b : Blacklist) : Sees next { parser with blacklist := b } ts := by
  cases ts <;> exact h

/-- What an address or an entry leaves alone. -/
structure SameList (parser parser' : SpamdParser σ) : Prop where
  blacklist : parser'.blacklist = parser.blacklist
  type : parser'.type = parser.type

/-- Both addresses have their four bytes. -/
structure Ready (parser : SpamdParser σ) : Prop where
  start : parser.start.length = spamdParserIpv4Quads
  end_ : parser.end_.length = spamdParserIpv4Quads

theorem SameList.advance {p q : SpamdParser σ} (h : SameList p q) : SameList p (q.advance next) :=
  ⟨h.blacklist, h.type⟩

theorem Ready.advance {p : SpamdParser σ} (h : Ready p) : Ready (p.advance next) := ⟨h.start, h.end_⟩

theorem advanceEols_sees {ts : List SpamdTok} {fuel : Nat} (hfuel : ts.length < fuel)
    {parser : SpamdParser σ} (h : Feeds next parser.lexer ts) :
    Sees next (SpamdParser.advanceEols next fuel parser) (ts.dropWhile (· = .eol)) ∧
      SameList parser (SpamdParser.advanceEols next fuel parser) ∧
      (Ready parser → Ready (SpamdParser.advanceEols next fuel parser)) := by
  induction ts generalizing fuel parser with
  | nil =>
    obtain ⟨fuel, rfl⟩ := Nat.exists_eq_succ_of_ne_zero (Nat.ne_of_gt hfuel)
    have hsees := sees_advance_of_feeds h
    have hcurr : (parser.advance next).curr = .eof := hsees
    rw [SpamdParser.advanceEols, hcurr, if_neg (by simp)]
    exact ⟨hsees, ⟨rfl, rfl⟩, Ready.advance⟩
  | cons t ts ih =>
    obtain ⟨fuel, rfl⟩ := Nat.exists_eq_succ_of_ne_zero (Nat.ne_of_gt (Nat.zero_lt_of_lt hfuel))
    have hsees := sees_advance_of_feeds h
    rw [SpamdParser.advanceEols]
    by_cases ht : t = .eol
    · subst ht
      rw [if_pos hsees.1]
      obtain ⟨hrest, hlist, hready⟩ := ih (Nat.lt_of_succ_lt_succ hfuel) hsees.2.2
      exact ⟨by simpa using hrest, ⟨hlist.blacklist, hlist.type⟩, fun hr => hready hr.advance⟩
    · rw [if_neg (by rw [hsees.1]; exact ht), List.dropWhile_cons_of_neg (by simpa using ht)]
      exact ⟨hsees, ⟨rfl, rfl⟩, Ready.advance⟩

/-- The four bytes that an address is read into. -/
def quads (start : Bool) (parser : SpamdParser σ) : List Nat := if start then parser.start else parser.end_

@[simp] theorem quads_setQuad (start : Bool) (i v : Nat) (parser : SpamdParser σ) :
    quads start (parser.setQuad start i v) = (quads start parser).set i v := by
  cases start <;> rfl

@[simp] theorem quads_setQuad_other (start : Bool) (i v : Nat) (parser : SpamdParser σ) :
    quads (!start) (parser.setQuad start i v) = quads (!start) parser := by
  cases start <;> rfl

@[simp] theorem quads_advance (start : Bool) (parser : SpamdParser σ) :
    quads start (parser.advance next) = quads start parser := rfl

theorem sameList_setQuad (start : Bool) (i v : Nat) (parser : SpamdParser σ) :
    SameList parser (parser.setQuad start i v) := by
  cases start <;> exact ⟨rfl, rfl⟩

theorem Sees.setQuad {parser : SpamdParser σ} {ts : List SpamdTok} (h : Sees next parser ts)
    (start : Bool) (i v : Nat) : Sees next (parser.setQuad start i v) ts := by
  cases start <;> cases ts <;> exact h

/-- What reading an address does to the parser. -/
structure AddressRead (next : σ → SpamdTok × σ) (start : Bool) (left : Nat) (ts : List SpamdTok)
    (parser parser' : SpamdParser σ) : Prop where
  sees : Sees next parser' (readAddress left ts).2
  same : SameList parser parser'
  length_eq : (quads start parser').length = spamdParserIpv4Quads
  other : quads (!start) parser' = quads (!start) parser
  value : ∀ vs, (readAddress left ts).1 = some vs →
    quads start parser' = (quads start parser).take (spamdParserIpv4Quads - left) ++ vs

private theorem readAddress_number {left v : Nat} {t : SpamdTok} {ts : List SpamdTok}
    (hv : number? t = some v) : readAddress (left + 1) (t :: ts) =
      if left = 0 then (some [v], ts)
      else match ts with
        | .dot :: ts => ((readAddress left ts).1.map (v :: ·), (readAddress left ts).2)
        | ts => (none, ts) := by
  rw [readAddress, hv]

/-- The parser after it has stored a quad. -/
def storeQuad (next : σ → SpamdTok × σ) (start : Bool) (left v : Nat) (parser : SpamdParser σ) :
    SpamdParser σ :=
  (parser.setQuad start (spamdParserIpv4Quads - 1 - left) v).advance next

private theorem addressLoop_number (start : Bool) {left v : Nat} {parser : SpamdParser σ}
    (hv : number? parser.curr = some v) : addressLoop next start (left + 1) parser =
      if left = 0 then addressLoop next start left (storeQuad next start left v parser)
      else if (storeQuad next start left v parser).curr = .dot then
        addressLoop next start left ((storeQuad next start left v parser).advance next)
      else (false, storeQuad next start left v parser) := by
  rw [addressLoop]
  cases hcurr : parser.curr with
  | int6 w =>
    rw [hcurr] at hv
    obtain rfl : w = v := Option.some.inj hv
    rfl
  | int8 w =>
    rw [hcurr] at hv
    obtain rfl : w = v := Option.some.inj hv
    rfl
  | _ =>
    rw [hcurr] at hv
    cases hv

private theorem take_set_succ {l : List Nat} {i : Nat} (hi : i < l.length) (v : Nat) :
    (l.set i v).take (i + 1) = l.take i ++ [v] := by
  rw [List.take_succ_eq_append_getElem (by simpa using hi), List.getElem_set_self, List.take_set_of_le (le_refl i)]

theorem addressLoop_reads (start : Bool) {left : Nat} (hleft : left ≤ spamdParserIpv4Quads)
    {parser : SpamdParser σ} {ts : List SpamdTok} (h : Sees next parser ts)
    (hlen : (quads start parser).length = spamdParserIpv4Quads) :
    ∃ parser', addressLoop next start left parser = ((readAddress left ts).1.isSome, parser') ∧
      AddressRead next start left ts parser parser' := by
  induction left generalizing parser ts with
  | zero => exact ⟨parser, rfl, h, ⟨rfl, rfl⟩, hlen, rfl, by simp [readAddress, ← hlen]⟩
  | succ left ih =>
    cases ts with
    | nil =>
      have hcurr : parser.curr = .eof := h
      exact ⟨parser, by simp [addressLoop, readAddress, hcurr], h, ⟨rfl, rfl⟩, hlen, rfl,
        by simp [readAddress]⟩
    | cons t ts =>
      cases hv : number? t with
      | none =>
        have hread : readAddress (left + 1) (t :: ts) = (none, t :: ts) := by rw [readAddress, hv]
        refine ⟨parser, ?_, hread ▸ h, ⟨rfl, rfl⟩, hlen, rfl, by simp [hread]⟩
        rw [addressLoop, hread, h.1]
        cases t <;> simp [number?] at hv ⊢
      | some v =>
        have hset : Sees next (storeQuad next start left v parser) ts := (h.setQuad start _ v).advance
        have hsame : SameList parser (storeQuad next start left v parser) :=
          ⟨(sameList_setQuad start _ v parser).blacklist, (sameList_setQuad start _ v parser).type⟩
        have hquads : quads start (storeQuad next start left v parser) =
            (quads start parser).set (spamdParserIpv4Quads - 1 - left) v := by simp [storeQuad]
        have hother : quads (!start) (storeQuad next start left v parser) = quads (!start) parser := by
          simp [storeQuad]
        have hlen' : (quads start (storeQuad next start left v parser)).length =
            spamdParserIpv4Quads := by rw [hquads, List.length_set, hlen]
        have htake : (quads start (storeQuad next start left v parser)).take
            (spamdParserIpv4Quads - left) =
              (quads start parser).take (spamdParserIpv4Quads - (left + 1)) ++ [v] := by
          have hi : spamdParserIpv4Quads - left = spamdParserIpv4Quads - 1 - left + 1 := by omega
          have hi' : spamdParserIpv4Quads - (left + 1) = spamdParserIpv4Quads - 1 - left := by omega
          rw [hquads, hi, hi', take_set_succ (by rw [hlen]; omega)]
        rw [addressLoop_number start (by rw [h.1]; exact hv)]
        by_cases hzero : left = 0
        · subst hzero
          have hread : readAddress (0 + 1) (t :: ts) = (some [v], ts) := by
            rw [readAddress_number hv, if_pos rfl]
          refine ⟨storeQuad next start 0 v parser, by rw [hread]; rfl, hread ▸ hset, hsame, hlen',
            hother, fun vs hvs => ?_⟩
          rw [hread] at hvs
          obtain rfl := Option.some.inj hvs
          rw [← htake, List.take_of_length_le (by rw [hlen']; exact le_refl _)]
        · rw [if_neg hzero]
          by_cases hdot : ∃ ts', ts = .dot :: ts'
          · obtain ⟨ts', rfl⟩ := hdot
            have hread : readAddress (left + 1) (t :: .dot :: ts') =
                ((readAddress left ts').1.map (v :: ·), (readAddress left ts').2) := by
              rw [readAddress_number hv, if_neg hzero]
            obtain ⟨parser', hloop, hresult⟩ := ih (Nat.le_of_succ_le hleft) hset.advance
              (by rw [quads_advance]; exact hlen')
            refine ⟨parser', ?_, hread ▸ hresult.sees,
              ⟨hresult.same.blacklist.trans hsame.blacklist, hresult.same.type.trans hsame.type⟩,
              hresult.length_eq, hresult.other.trans hother, fun vs hvs => ?_⟩
            · rw [if_pos hset.1, hloop, hread, Option.isSome_map]
            · rw [hread] at hvs
              obtain ⟨ws, hws, rfl⟩ := Option.map_eq_some_iff.mp hvs
              rw [hresult.value ws hws, quads_advance, htake, List.append_assoc]
              rfl
          · have hread : readAddress (left + 1) (t :: ts) = (none, ts) := by
              rw [readAddress_number hv, if_neg hzero]
              rcases ts with _ | ⟨t', ts'⟩
              · rfl
              · cases t' <;> simp at hdot ⊢
            have hcurr : (storeQuad next start left v parser).curr ≠ .dot := by
              rcases ts with _ | ⟨t', ts'⟩
              · rw [show (storeQuad next start left v parser).curr = .eof from hset]
                simp
              · rw [hset.1]
                rintro rfl
                exact hdot ⟨ts', rfl⟩
            refine ⟨storeQuad next start left v parser, by rw [if_neg hcurr, hread]; rfl, hread ▸ hset,
              hsame, hlen', hother, by simp [hread]⟩

theorem AddressRead.ready {start : Bool} {left : Nat} {ts : List SpamdTok}
    {parser parser' : SpamdParser σ} (h : AddressRead next start left ts parser parser')
    (hr : Ready parser) : Ready parser' := by
  have hlen := h.length_eq
  have hother := h.other
  cases start with
  | true => exact ⟨hlen, by simpa [quads, hr.end_] using congrArg List.length hother⟩
  | false => exact ⟨by simpa [quads, hr.start] using congrArg List.length hother, hlen⟩

theorem grammarAddress_reads (start : Bool) {parser : SpamdParser σ} {ts : List SpamdTok}
    (h : Sees next parser ts) (hr : Ready parser) :
    ∃ parser', grammarAddress next start parser =
        ((readAddress spamdParserIpv4Quads ts).1.isSome, parser') ∧
      Sees next parser' (readAddress spamdParserIpv4Quads ts).2 ∧ SameList parser parser' ∧
      Ready parser' ∧ quads (!start) parser' = quads (!start) parser ∧
      ∀ vs, (readAddress spamdParserIpv4Quads ts).1 = some vs → quads start parser' = vs := by
  have hlen : (quads start parser).length = spamdParserIpv4Quads := by
    cases start
    · exact hr.end_
    · exact hr.start
  obtain ⟨parser', hloop, hread⟩ := addressLoop_reads start (le_refl _) h hlen
  exact ⟨parser', hloop, hread.sees, hread.same, hread.ready hr, hread.other,
    fun vs hvs => by simpa using hread.value vs hvs⟩

theorem SameList.trans {p q r : SpamdParser σ} (h : SameList p q) (h' : SameList q r) :
    SameList p r :=
  ⟨h'.blacklist.trans h.blacklist, h'.type.trans h.type⟩

/-- What `grammar_entry` answers, from what there is to read. -/
def entryResult (range : Option FeedRange) (parser parser' : SpamdParser σ) :
    Option (Bool × SpamdParser σ) :=
  match range with
  | none => some (false, parser')
  | some r => (blacklistAddRange parser.blacklist r.1 r.2 parser.type).map fun b =>
      (true, { parser' with blacklist := b })

private theorem addRange_eq {parser parser' : SpamdParser σ} (h : SameList parser parser')
    (start end_ : BitVec 32) :
    parser'.addRange start end_ = entryResult (some (start, end_)) parser parser' := by
  rw [addRange, entryResult, h.blacklist, h.type]

theorem grammarEntry_reads {parser : SpamdParser σ} {ts : List SpamdTok} (h : Sees next parser ts)
    (hr : Ready parser) :
    ∃ parser', grammarEntry next parser = entryResult (readEntry ts).1 parser parser' ∧
      Sees next parser' (readEntry ts).2 ∧ SameList parser parser' ∧ Ready parser' := by
  obtain ⟨parser₁, haddr, hsees, hsame, hready, -, hvalue⟩ := grammarAddress_reads true h hr
  rw [grammarEntry, haddr, readEntry]
  rcases hread : readAddress spamdParserIpv4Quads ts with ⟨_ | start, rest⟩
  · rw [hread] at hsees
    exact ⟨parser₁, rfl, hsees, hsame, hready⟩
  · rw [hread] at hsees hvalue
    have hstart : parser₁.start = start := hvalue start rfl
    simp only [Option.isSome_some]
    rcases rest with _ | ⟨t, rest⟩
    · have hcurr : parser₁.curr = .eof := hsees
      refine ⟨parser₁, ?_, hsees, hsame, hready⟩
      simp only [hcurr, reduceCtorEq, if_false, hstart]
      exact addRange_eq hsame _ _
    · have hcurr : parser₁.curr = t := hsees.1
      have hnext := hsees.advance
      cases t with
      | slash =>
        simp only [hcurr, if_true]
        rcases rest with _ | ⟨t', rest⟩
        · have hcurr' : (parser₁.advance next).curr = .eof := hnext
          refine ⟨parser₁.advance next, ?_, hnext, hsame.advance, hready.advance⟩
          rw [hcurr']
          rfl
        · have hcurr' : (parser₁.advance next).curr = t' := hnext.1
          rw [hcurr']
          cases t' with
          | int6 bits =>
            refine ⟨(parser₁.advance next).advance next, ?_, hnext.advance, hsame.advance.advance,
              hready.advance.advance⟩
            have hquads : (parser₁.advance next).start = start := hstart
            simp only [hquads]
            exact addRange_eq hsame.advance.advance _ _
          | _ => exact ⟨parser₁.advance next, rfl, hnext, hsame.advance, hready.advance⟩
      | dash =>
        simp only [hcurr, reduceCtorEq, if_false, if_true]
        obtain ⟨parser₂, haddr', hsees', hsame', hready', hother, hvalue'⟩ :=
          grammarAddress_reads false hnext hready.advance
        have hstart' : parser₂.start = start := hother.trans hstart
        rw [haddr']
        rcases hread' : readAddress spamdParserIpv4Quads rest with ⟨_ | stop, rest'⟩
        · rw [hread'] at hsees'
          exact ⟨parser₂, rfl, hsees', hsame.advance.trans hsame', hready'⟩
        · rw [hread'] at hsees' hvalue'
          have hstop : parser₂.end_ = stop := hvalue' stop rfl
          refine ⟨parser₂, ?_, hsees', hsame.advance.trans hsame', hready'⟩
          simp only [Option.isSome_some, hstart', hstop]
          exact addRange_eq (hsame.advance.trans hsame') _ _
      | _ =>
        refine ⟨parser₁, ?_, hsees, hsame, hready⟩
        simp only [hcurr, reduceCtorEq, if_false, hstart]
        exact addRange_eq hsame _ _

private theorem readAddress_length (left : Nat) (ts : List SpamdTok) :
    (readAddress left ts).2.length ≤ ts.length := by
  induction left generalizing ts with
  | zero => exact le_refl _
  | succ left ih =>
    rcases ts with _ | ⟨t, ts⟩
    · exact le_refl _
    · cases hv : number? t with
      | none => simp [readAddress, hv]
      | some v =>
        rw [readAddress_number hv]
        split_ifs
        · simp
        · rcases ts with _ | ⟨t', ts⟩
          · simp
          · have := ih ts
            cases t' with
            | dot =>
              simp
              omega
            | _ => simp

theorem readEntry_length (ts : List SpamdTok) : (readEntry ts).2.length ≤ ts.length := by
  have haddr := readAddress_length spamdParserIpv4Quads ts
  rw [readEntry]
  rcases hread : readAddress spamdParserIpv4Quads ts with ⟨_ | start, rest⟩
  · rwa [hread] at haddr
  · rw [hread] at haddr
    simp only at haddr ⊢
    rcases rest with _ | ⟨t, rest⟩
    · exact haddr
    · have hrest := readAddress_length spamdParserIpv4Quads rest
      rw [List.length_cons] at haddr
      cases t with
      | slash =>
        rcases rest with _ | ⟨t', rest⟩
        · simp
        · rw [List.length_cons] at haddr
          cases t' <;> simp <;> omega
      | dash => exact hrest.trans (by omega)
      | _ => simpa using haddr

/-- The tokens behind the last entry that was tried. -/
def FeedEnd.rest : FeedEnd → List SpamdTok
  | .stopped rest => rest
  | .failed attempt => (readEntry attempt).2

theorem tokAccept_sees {fuel : Nat} {parser : SpamdParser σ} {t : SpamdTok} {ts : List SpamdTok}
    (h : Sees next parser (t :: ts)) (hfuel : ts.length < fuel) :
    ∃ parser', tokAccept next fuel .eol parser = (decide (t = .eol), parser') ∧
      SameList parser parser' ∧ (Ready parser → Ready parser') ∧
      Sees next parser' (if t = .eol then ts.dropWhile (· = .eol) else t :: ts) := by
  by_cases ht : t = .eol
  · obtain ⟨hsees, hsame, hready⟩ := advanceEols_sees hfuel h.2.2
    rw [tokAccept, if_pos (h.1.trans ht), if_pos rfl]
    simp only [ht, decide_true, if_true]
    exact ⟨_, rfl, hsame, hready, hsees⟩
  · rw [tokAccept, if_neg (by rw [h.1]; exact ht)]
    simp only [ht, decide_false, if_false]
    exact ⟨parser, rfl, ⟨rfl, rfl⟩, id, h⟩

/-- What the loop over the entries answers, from what there is to read. -/
def entriesResult (ranges : List FeedRange) (parser parser' : SpamdParser σ) :
    Option (Bool × SpamdParser σ) :=
  (addRanges parser.blacklist parser.type ranges).map fun b => (true, { parser' with blacklist := b })

theorem addRanges_cons (blacklist : Blacklist) (type : BlType) (r : FeedRange) (rs : List FeedRange) :
    addRanges blacklist type (r :: rs) =
      (blacklistAddRange blacklist r.1 r.2 type).bind fun b => addRanges b type rs := rfl

private theorem grammarEntries_reads {fuel fuel' : Nat} {parser : SpamdParser σ} {ts : List SpamdTok}
    (hfuel : ts.length < fuel) (hfuel' : ts.length < fuel') (h : Sees next parser ts)
    (hr : Ready parser) :
    ∃ parser', grammarEntries next fuel parser =
        entriesResult (readEntries fuel' ts).1 parser parser' ∧
      Sees next parser' (readEntries fuel' ts).2.rest := by
  induction fuel generalizing fuel' parser ts with
  | zero => exact absurd hfuel (Nat.not_lt_zero _)
  | succ fuel ih =>
    obtain ⟨fuel', rfl⟩ := Nat.exists_eq_succ_of_ne_zero (Nat.ne_of_gt (Nat.zero_lt_of_lt hfuel'))
    rcases ts with _ | ⟨t, ts⟩
    · have hcurr : parser.curr = .eof := h
      refine ⟨parser, ?_, h⟩
      rw [grammarEntries, tokAccept, if_neg (by simp [hcurr])]
      rfl
    · have hlt := Nat.lt_of_succ_lt_succ hfuel
      obtain ⟨parser₁, haccept, hsame, hready, hsees⟩ := tokAccept_sees h hlt
      rw [grammarEntries, haccept]
      by_cases ht : t = .eol
      · subst ht
        simp only [decide_true, if_true] at hsees ⊢
        have hdrop : (ts.dropWhile (· = .eol)).length ≤ ts.length := List.length_dropWhile_le _ _
        obtain ⟨parser₂, hentry, hsees', hsame', hready'⟩ := grammarEntry_reads hsees (hready hr)
        have hrest := readEntry_length (ts.dropWhile (· = .eol))
        rw [hentry, readEntries]
        rcases hread : readEntry (ts.dropWhile (· = .eol)) with ⟨_ | r, rest⟩
        · refine ⟨parser₂, ?_, by simpa [FeedEnd.rest] using hsees'⟩
          simp [entryResult, entriesResult, addRanges, ← hsame.blacklist, ← hsame'.blacklist]
        · rw [hread] at hsees' hrest
          simp only at hsees' hrest
          have hlt' : rest.length < fuel := by omega
          have hlt'' : rest.length < fuel' := by
            rw [List.length_cons] at hfuel'
            omega
          simp only [entryResult, hsame.blacklist, hsame.type]
          cases hadd : blacklistAddRange parser.blacklist r.1 r.2 parser.type with
          | none =>
            obtain ⟨parser₃, -, hend⟩ := ih hlt' hlt'' hsees' hready'
            refine ⟨parser₃, ?_, hend⟩
            simp [entriesResult, addRanges_cons, hadd]
          | some b =>
            have hsees₃ := hsees'.setBlacklist b
            obtain ⟨parser₃, hmore, hend⟩ := ih hlt' hlt'' hsees₃ ⟨hready'.start, hready'.end_⟩
            refine ⟨parser₃, ?_, hend⟩
            simp only [Option.map_some, hmore, entriesResult, Option.map_map]
            rw [addRanges_cons, hadd, Option.bind_some, hsame'.type, hsame.type]
            rfl
      · simp only [ht, decide_false, if_false] at hsees ⊢
        have hstop : readEntries (fuel' + 1) (t :: ts) = ([], .stopped (t :: ts)) := by
          rw [readEntries]
          simp [ht]
        refine ⟨parser₁, ?_, hstop ▸ hsees⟩
        simp [hstop, entriesResult, addRanges, ← hsame.blacklist]

private theorem tokAccept_eols {fuel : Nat} {parser : SpamdParser σ} {ts : List SpamdTok}
    (h : Sees next parser ts) (hfuel : ts.length < fuel) :
    ∃ parser', (tokAccept next fuel .eol parser).2 = parser' ∧ SameList parser parser' ∧
      (Ready parser → Ready parser') ∧ Sees next parser' (ts.dropWhile (· = .eol)) := by
  refine ⟨_, rfl, ?_⟩
  rcases ts with _ | ⟨t, ts⟩
  · have hcurr : parser.curr = .eof := h
    rw [tokAccept, if_neg (by simp [hcurr])]
    exact ⟨⟨rfl, rfl⟩, id, h⟩
  · obtain ⟨parser', haccept, hsame, hready, hsees⟩ := tokAccept_sees h (Nat.lt_of_succ_lt hfuel)
    rw [haccept]
    refine ⟨hsame, hready, ?_⟩
    by_cases ht : t = .eol
    · simpa [ht] using hsees
    · simpa [ht] using hsees

private theorem tokAccept_eof {fuel : Nat} {parser : SpamdParser σ} {ts : List SpamdTok}
    (h : Sees next parser ts) : tokAccept next fuel .eof parser =
      (decide (ts = []), if ts = [] then parser.advance next else parser) := by
  by_cases hts : ts = []
  · rw [tokAccept, if_pos (h.eof_iff.mpr hts), if_neg (by simp)]
    simp [hts]
  · rw [tokAccept, if_neg (fun hc => hts (h.eof_iff.mp hc))]
    simp [hts]

private theorem tokAccept_result {fuel : Nat} {parser : SpamdParser σ} {ts : List SpamdTok} {b : Blacklist}
    (h : Sees next parser ts) (hb : parser.blacklist = b) : tokAccept next fuel .eof parser =
      (decide (ts = []), { (tokAccept next fuel .eof parser).2 with blacklist := b }) := by
  rw [tokAccept_eof h]
  subst hb
  by_cases hts : ts = []
  · rw [if_pos hts]
    rfl
  · rw [if_neg hts]

theorem FeedEnd.ok_eq (e : FeedEnd) : e.ok = decide (e.rest = []) := by
  cases e <;> rfl

/-- The parser adds the ranges that the tokens read as, and reports success exactly when
nothing is left behind the last entry that it tried. -/
theorem spamdParserStart_reads {fuel : Nat} {lexer : σ} {ts : List SpamdTok}
    (h : Feeds next lexer ts) (hfuel : ts.length < fuel) (blacklist : Blacklist) (type : BlType) :
    ∃ parser : SpamdParser σ, spamdParserStart next fuel lexer blacklist type =
      (addRanges blacklist type (readFeed ts).1).map fun b =>
        ((readFeed ts).2.ok, { parser with blacklist := b }) := by
  have hfirst : Sees next ((spamdParserCreate lexer blacklist type).advance next) ts :=
    sees_advance_of_feeds h
  have hready : Ready ((spamdParserCreate lexer blacklist type).advance next) :=
    ⟨List.length_replicate, List.length_replicate⟩
  obtain ⟨parser₁, hskip, hsame, hready₁, hsees⟩ := tokAccept_eols hfirst hfuel
  have hdrop : (ts.dropWhile (· = .eol)).length ≤ ts.length := List.length_dropWhile_le _ _
  have hrest := readEntry_length (ts.dropWhile (· = .eol))
  obtain ⟨parser₂, hentry, hsees', hsame', hready'⟩ := grammarEntry_reads hsees (hready₁ hready)
  rw [spamdParserStart, SpamdParser.run, hskip, hentry, readFeed, readEntries]
  rcases hread : readEntry (ts.dropWhile (· = .eol)) with ⟨_ | r, rest⟩
  · rw [hread] at hsees'
    have hlist : parser₂.blacklist = blacklist := hsame'.blacklist.trans hsame.blacklist
    refine ⟨(tokAccept next fuel .eof parser₂).2, ?_⟩
    simp only [entryResult, FeedEnd.ok, hread, addRanges]
    exact congrArg some (tokAccept_result hsees' hlist)
  · rw [hread] at hsees' hrest
    simp only at hsees' hrest
    simp only [entryResult, addRanges_cons]
    rw [hsame.blacklist, hsame.type]
    cases hadd : blacklistAddRange blacklist r.1 r.2 type with
    | none =>
      refine ⟨parser₂, ?_⟩
      simp only [advance, spamdParserCreate, hadd]
      rfl
    | some b =>
      have hsees₃ := hsees'.setBlacklist b
      obtain ⟨parser₃, hmore, hend⟩ := grammarEntries_reads (by omega : rest.length < fuel)
        (by omega : rest.length < ts.length + 1) hsees₃ ⟨hready'.start, hready'.end_⟩
      refine ⟨(tokAccept next fuel .eof parser₃).2, ?_⟩
      simp only [advance, spamdParserCreate, hadd, Option.map_some, hmore, entriesResult, Option.bind_some]
      have htype : parser₂.type = type := hsame'.type.trans hsame.type
      rw [htype]
      cases addRanges b type (readEntries (ts.length + 1) rest).1 with
      | none => rfl
      | some b' =>
        have hsees₄ : Sees next { parser₃ with blacklist := b' }
            (readEntries (ts.length + 1) rest).2.rest := hend.setBlacklist b'
        simp only [Option.map_some, FeedEnd.ok_eq]
        rw [tokAccept_eof hsees₄]
        by_cases hend' : (readEntries (ts.length + 1) rest).2.rest = []
        · simp only [hend', decide_true, if_true]
          rw [tokAccept_eof hend, if_pos hend']
          rfl
        · simp only [hend', decide_false, if_false]
          rw [tokAccept_eof hsees₄, tokAccept_eof hend, if_neg hend', if_neg hend']
          simp [hend']

end

end Greyd
