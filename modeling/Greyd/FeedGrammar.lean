import Greyd.FeedReading

/-!
# The grammar of feeds

The BNF of the parser's header, over tokens, with runs of ends of line counted as one and
allowed in front and behind. The parser accepts the feeds of the grammar and, beyond them,
those that break off inside an entry.
-/
namespace Greyd

open List (replicate)

/-- `number : INT6 | INT8` -/
def IsNumber (t : SpamdTok) : Prop := ∃ v, number? t = some v

/-- `number . number . …`, with as many numbers. -/
inductive Quads : Nat → List SpamdTok → Prop
  | one {t : SpamdTok} : IsNumber t → Quads 1 [t]
  | more {n : Nat} {t : SpamdTok} {a : List SpamdTok} : IsNumber t → Quads (n + 1) a →
      Quads (n + 2) (t :: .dot :: a)

/-- `address : number . number . number . number` -/
def Address (a : List SpamdTok) : Prop := Quads spamdParserIpv4Quads a

/-- `entry : address | address / INT6 | address - address` -/
inductive Entry : List SpamdTok → Prop
  | single {a : List SpamdTok} : Address a → Entry a
  | cidr {a : List SpamdTok} (bits : Nat) : Address a → Entry (a ++ [.slash, .int6 bits])
  | range {a b : List SpamdTok} : Address a → Address b → Entry (a ++ .dash :: b)

/-- `entries : EOL entry entries |` -/
inductive Entries : List SpamdTok → Prop
  | nil : Entries []
  | cons {e es : List SpamdTok} (n : Nat) : Entry e → Entries es →
      Entries (replicate (n + 1) .eol ++ (e ++ es))

/-- `blacklist : entry entries EOF | EOF`, without the end of the file. -/
inductive Feed : List SpamdTok → Prop
  | empty (n : Nat) : Feed (replicate n .eol)
  | entries {e es : List SpamdTok} (lead trail : Nat) : Entry e → Entries es →
      Feed (replicate lead .eol ++ (e ++ es ++ replicate trail .eol))

/-- Part of an entry: it is none, but something is missing behind it. -/
structure BeginsEntry (p : List SpamdTok) : Prop where
  ne_nil : p ≠ []
  not_entry : ¬ Entry p
  extends' : ∃ q, Entry (p ++ q)

/-- The last line of the feed is part of an entry. -/
def EndsInEntry (ts : List SpamdTok) : Prop :=
  ∃ before p, ts = before ++ p ∧ Feed before ∧ (before = [] ∨ ∃ b, before = b ++ [.eol]) ∧
    BeginsEntry p

/-! ## Addresses and entries -/

theorem readAddress_of_quads {n : Nat} {a : List SpamdTok} (h : Quads n a) (rest : List SpamdTok) :
    ∃ vs, readAddress n (a ++ rest) = (some vs, rest) := by
  induction h with
  | @one t ht =>
    obtain ⟨v, hv⟩ := ht
    exact ⟨[v], by simp [readAddress, hv]⟩
  | @more n t a ht _ ih =>
    obtain ⟨v, hv⟩ := ht
    obtain ⟨vs, hvs⟩ := ih
    exact ⟨v :: vs, by simp [readAddress, hv, hvs]⟩

theorem Quads.cons_iff {n : Nat} {t : SpamdTok} {ts : List SpamdTok} :
    Quads (n + 1) (t :: ts) ↔
      IsNumber t ∧ (n = 0 ∧ ts = [] ∨ n ≠ 0 ∧ ∃ a, ts = .dot :: a ∧ Quads n a) := by
  constructor
  · intro h
    cases h with
    | one ht => exact ⟨ht, Or.inl ⟨rfl, rfl⟩⟩
    | more ht ha => exact ⟨ht, Or.inr ⟨Nat.succ_ne_zero _, _, rfl, ha⟩⟩
  · rintro ⟨ht, ⟨rfl, rfl⟩ | ⟨hn, a, rfl, ha⟩⟩
    · exact .one ht
    · obtain ⟨m, rfl⟩ := Nat.exists_eq_succ_of_ne_zero hn
      exact .more ht ha

private theorem readAddress_zero_left {v : Nat} {t : SpamdTok} (hv : number? t = some v)
    (ts : List SpamdTok) : readAddress 1 (t :: ts) = (some [v], ts) := by
  simp [readAddress, hv]

private theorem readAddress_dot {n v : Nat} {t : SpamdTok} (hv : number? t = some v) (hn : n ≠ 0)
    (ts : List SpamdTok) : readAddress (n + 1) (t :: .dot :: ts) =
      ((readAddress n ts).1.map (v :: ·), (readAddress n ts).2) := by
  simp [readAddress, hv, hn]

private theorem readAddress_no_dot {n v : Nat} {t : SpamdTok} {ts : List SpamdTok}
    (hv : number? t = some v) (hn : n ≠ 0) (hts : ∀ a, ts ≠ .dot :: a) :
    readAddress (n + 1) (t :: ts) = (none, ts) := by
  rcases ts with _ | ⟨t', ts⟩
  · simp [readAddress, hv, hn]
  · cases t' with
    | dot => exact absurd rfl (hts ts)
    | _ => simp [readAddress, hv, hn]

theorem readAddress_of_part {n : Nat} {p q : List SpamdTok} (h : Quads n (p ++ q)) (hq : q ≠ []) :
    readAddress n p = (none, []) := by
  induction n generalizing p with
  | zero => cases h
  | succ n ih =>
    rcases p with _ | ⟨t, p⟩
    · rfl
    · obtain ⟨⟨v, hv⟩, ⟨-, hnil⟩ | ⟨hn, a, hdot, ha⟩⟩ := Quads.cons_iff.mp h
      · exact absurd (List.append_eq_nil_iff.mp hnil).2 hq
      · rcases p with _ | ⟨t', p⟩
        · exact readAddress_no_dot hv hn (by simp)
        · obtain ⟨rfl, rfl⟩ : t' = .dot ∧ p ++ q = a := by simpa using hdot
          rw [readAddress_dot hv hn, ih ha]
          rfl

/-- The three ways a number can go on. -/
private theorem readAddress_succ_cases {n : Nat} {ts rest : List SpamdTok} {r : Option (List Nat)}
    (h : readAddress (n + 1) ts = (r, rest)) :
    (r = none ∧ rest = ts ∧ ∀ t ts', ts = t :: ts' → ¬ IsNumber t) ∨
      ∃ t ts', ts = t :: ts' ∧ IsNumber t ∧
        (n = 0 ∧ r.isSome ∧ rest = ts' ∨ n ≠ 0 ∧ r = none ∧ rest = ts' ∧ (∀ a, ts' ≠ .dot :: a) ∨
          n ≠ 0 ∧ ∃ a r', ts' = .dot :: a ∧ readAddress n a = (r', rest) ∧ r.isSome = r'.isSome) := by
  rcases ts with _ | ⟨t, ts⟩
  · obtain ⟨rfl, rfl⟩ := Prod.mk.inj h
    exact Or.inl ⟨rfl, rfl, by simp⟩
  · cases hv : number? t with
    | none =>
      rw [readAddress, hv] at h
      obtain ⟨rfl, rfl⟩ := Prod.mk.inj h
      refine Or.inl ⟨rfl, rfl, fun t' ts' heq => ?_⟩
      obtain ⟨rfl, rfl⟩ := List.cons.inj heq
      simp [IsNumber, hv]
    | some v =>
      refine Or.inr ⟨t, ts, rfl, ⟨v, hv⟩, ?_⟩
      by_cases hn : n = 0
      · subst hn
        rw [readAddress_zero_left hv] at h
        obtain ⟨rfl, rfl⟩ := Prod.mk.inj h
        exact Or.inl ⟨rfl, rfl, rfl⟩
      · by_cases hdot : ∃ a, ts = .dot :: a
        · obtain ⟨a, rfl⟩ := hdot
          rw [readAddress_dot hv hn] at h
          obtain ⟨rfl, rfl⟩ := Prod.mk.inj h
          exact Or.inr (Or.inr ⟨hn, a, _, rfl, rfl, by simp⟩)
        · have hts : ∀ a, ts ≠ .dot :: a := fun a ha => hdot ⟨a, ha⟩
          rw [readAddress_no_dot hv hn hts] at h
          obtain ⟨rfl, rfl⟩ := Prod.mk.inj h
          exact Or.inr (Or.inl ⟨hn, rfl, rfl, hts⟩)

theorem quads_of_readAddress {n : Nat} {ts rest : List SpamdTok} {vs : List Nat}
    (h : readAddress (n + 1) ts = (some vs, rest)) : ∃ a, Quads (n + 1) a ∧ ts = a ++ rest := by
  induction n generalizing ts vs with
  | zero =>
    obtain ⟨h, -⟩ | ⟨t, ts', rfl, ht, ⟨-, -, rfl⟩ | ⟨hn, -⟩ | ⟨hn, -⟩⟩ := readAddress_succ_cases h
    · cases h
    · exact ⟨[t], .one ht, rfl⟩
    · exact absurd rfl hn
    · exact absurd rfl hn
  | succ n ih =>
    obtain ⟨h, -⟩ | ⟨t, ts', rfl, ht, ⟨hn, -⟩ | ⟨-, h, -⟩ | ⟨-, a, r', rfl, hread, hsome⟩⟩ :=
      readAddress_succ_cases h
    · cases h
    · cases hn
    · cases h
    · obtain ⟨ws, rfl⟩ := Option.isSome_iff_exists.mp hsome.symm
      obtain ⟨a', ha', rfl⟩ := ih hread
      exact ⟨t :: .dot :: a', .more ht ha', rfl⟩

/-- Some address, for the numbers that are missing. -/
private theorem exists_quads (n : Nat) : ∃ a, Quads (n + 1) a := by
  induction n with
  | zero => exact ⟨[.int6 0], .one ⟨0, rfl⟩⟩
  | succ n ih =>
    obtain ⟨a, ha⟩ := ih
    exact ⟨.int6 0 :: .dot :: a, .more ⟨0, rfl⟩ ha⟩

theorem part_of_readAddress {n : Nat} {p : List SpamdTok} (h : readAddress (n + 1) p = (none, [])) :
    ∃ q, q ≠ [] ∧ Quads (n + 1) (p ++ q) := by
  have hne : ∀ {m : Nat} {a : List SpamdTok}, Quads m a → a ≠ [] := by
    intro m a ha
    cases ha <;> simp
  have hfresh : ∀ m, ∃ q, q ≠ [] ∧ Quads (m + 1) ([] ++ q) := by
    intro m
    obtain ⟨a, ha⟩ := exists_quads m
    exact ⟨a, hne ha, ha⟩
  induction n generalizing p with
  | zero =>
    obtain ⟨-, rfl, -⟩ | ⟨t, ts', rfl, ht, ⟨-, h, -⟩ | ⟨hn, -⟩ | ⟨hn, -⟩⟩ := readAddress_succ_cases h
    · exact hfresh 0
    · cases h
    · exact absurd rfl hn
    · exact absurd rfl hn
  | succ n ih =>
    obtain ⟨-, rfl, -⟩ | ⟨t, ts', rfl, ht, ⟨hn, -⟩ | ⟨-, -, rfl, -⟩ | ⟨-, a, r', rfl, hread, hsome⟩⟩ :=
      readAddress_succ_cases h
    · exact hfresh (n + 1)
    · cases hn
    · obtain ⟨a, ha⟩ := exists_quads n
      exact ⟨.dot :: a, by simp, .more ht ha⟩
    · obtain rfl : r' = none := by simpa using hsome.symm
      obtain ⟨q, hq, hquads⟩ := ih hread
      exact ⟨q, hq, .more ht hquads⟩

/-- What can stand behind an entry. -/
def EndsLine (rest : List SpamdTok) : Prop := rest = [] ∨ ∃ more, rest = .eol :: more

theorem Entry.ne_nil {e : List SpamdTok} (h : Entry e) : ∃ t ts, e = t :: ts ∧ IsNumber t := by
  have haddr : ∀ {a : List SpamdTok}, Address a → ∃ t ts, a = t :: ts ∧ IsNumber t := by
    intro a ha
    rcases a with _ | ⟨t, ts⟩
    · cases ha
    · exact ⟨t, ts, rfl, (Quads.cons_iff.mp ha).1⟩
  cases h with
  | single ha => exact haddr ha
  | cidr bits ha =>
    obtain ⟨t, ts, rfl, ht⟩ := haddr ha
    exact ⟨t, _, rfl, ht⟩
  | range ha hb =>
    obtain ⟨t, ts, rfl, ht⟩ := haddr ha
    exact ⟨t, _, rfl, ht⟩

theorem readEntry_of_entry {e rest : List SpamdTok} (h : Entry e) (hrest : EndsLine rest) :
    ∃ r, readEntry (e ++ rest) = (some r, rest) := by
  cases h with
  | single ha =>
    obtain ⟨vs, hvs⟩ := readAddress_of_quads ha rest
    rw [readEntry, hvs]
    rcases hrest with rfl | ⟨more, rfl⟩
    · exact ⟨_, rfl⟩
    · exact ⟨_, rfl⟩
  | @cidr a bits ha =>
    obtain ⟨vs, hvs⟩ := readAddress_of_quads ha (.slash :: .int6 bits :: rest)
    rw [List.append_assoc]
    show ∃ r, readEntry (a ++ (.slash :: .int6 bits :: rest)) = _
    rw [readEntry, hvs]
    exact ⟨_, rfl⟩
  | @range a b ha hb =>
    obtain ⟨vs, hvs⟩ := readAddress_of_quads ha (.dash :: (b ++ rest))
    obtain ⟨ws, hws⟩ := readAddress_of_quads hb rest
    rw [List.append_assoc, List.cons_append, readEntry, hvs]
    simp only [hws]
    exact ⟨_, rfl⟩

/-- An incomplete entry uses up all of its tokens. -/
theorem readEntry_of_begins {p : List SpamdTok} (h : BeginsEntry p) : readEntry p = (none, []) := by
  have haddr : ∀ {q : List SpamdTok}, Address (p ++ q) → q ≠ [] → readEntry p = (none, []) := by
    intro q ha hq
    rw [readEntry, readAddress_of_part ha hq]
  obtain ⟨q, hq⟩ := h.extends'
  have hqne : q ≠ [] := by
    rintro rfl
    exact h.not_entry (by simpa using hq)
  generalize hpq : p ++ q = ts at hq
  cases hq with
  | single ha => exact haddr (hpq ▸ ha) hqne
  | @cidr a bits ha =>
    rcases List.append_eq_append_iff.mp hpq with ⟨c, rfl, hc⟩ | ⟨c, rfl, hc⟩
    · rcases c with _ | ⟨t, c⟩
      · exact absurd (.single (by simpa using ha)) h.not_entry
      · exact haddr ha (List.cons_ne_nil t c)
    · rcases c with _ | ⟨t, _ | ⟨t', c⟩⟩
      · exact absurd (.single (by simpa using ha)) h.not_entry
      · obtain ⟨rfl, -⟩ : SpamdTok.slash = t ∧ _ := by simpa using hc
        obtain ⟨vs, hvs⟩ := readAddress_of_quads ha [.slash]
        rw [readEntry, hvs]
      · obtain ⟨rfl, rfl, hnil⟩ : SpamdTok.slash = t ∧ SpamdTok.int6 bits = t' ∧ [] = c ++ q := by
          simpa using hc
        exact absurd (List.append_eq_nil_iff.mp hnil.symm).2 hqne
  | @range a b ha hb =>
    rcases List.append_eq_append_iff.mp hpq with ⟨c, rfl, hc⟩ | ⟨c, rfl, hc⟩
    · rcases c with _ | ⟨t, c⟩
      · exact absurd (.single (by simpa using ha)) h.not_entry
      · exact haddr ha (List.cons_ne_nil t c)
    · rcases c with _ | ⟨t, c⟩
      · exact absurd (.single (by simpa using ha)) h.not_entry
      · obtain ⟨rfl, rfl⟩ : SpamdTok.dash = t ∧ b = c ++ q := by simpa using hc
        obtain ⟨vs, hvs⟩ := readAddress_of_quads ha (.dash :: c)
        rw [readEntry, hvs]
        simp only [readAddress_of_part hb hqne]
        rfl

theorem entry_of_readEntry {ts rest : List SpamdTok} {r : FeedRange}
    (h : readEntry ts = (some r, rest)) : ∃ e, Entry e ∧ ts = e ++ rest := by
  rw [readEntry] at h
  rcases hread : readAddress spamdParserIpv4Quads ts with ⟨_ | vs, rest'⟩
  · rw [hread] at h
    cases h
  · obtain ⟨a, ha, rfl⟩ := quads_of_readAddress hread
    rw [hread] at h
    simp only at h
    split at h
    · rename_i bits rest''
      obtain ⟨-, rfl⟩ := Prod.mk.inj h
      exact ⟨_, .cidr bits ha, by simp⟩
    · cases h
    · rename_i rest''
      obtain ⟨hsome, hrest⟩ := Prod.mk.inj h
      obtain ⟨ws, hws, -⟩ := Option.map_eq_some_iff.mp hsome
      obtain ⟨b, hb, rfl⟩ := quads_of_readAddress (Prod.ext hws hrest)
      exact ⟨_, .range ha hb, by simp⟩
    · obtain ⟨-, rfl⟩ := Prod.mk.inj h
      exact ⟨a, .single ha, rfl⟩

theorem begins_of_readEntry {p : List SpamdTok} (h : readEntry p = (none, [])) (hp : p ≠ []) :
    BeginsEntry p := by
  refine ⟨hp, fun he => ?_, ?_⟩
  · obtain ⟨r, hr⟩ := readEntry_of_entry he (Or.inl rfl)
    rw [List.append_nil, h] at hr
    cases hr
  · rw [readEntry] at h
    rcases hread : readAddress spamdParserIpv4Quads p with ⟨_ | vs, rest⟩
    · rw [hread] at h
      obtain ⟨-, rfl⟩ := Prod.mk.inj h
      obtain ⟨q, -, hq⟩ := part_of_readAddress hread
      exact ⟨q, .single hq⟩
    · obtain ⟨a, ha, rfl⟩ := quads_of_readAddress hread
      rw [hread] at h
      simp only at h
      split at h
      · cases h
      · obtain ⟨-, rfl⟩ := Prod.mk.inj h
        exact ⟨[.int6 0], by simpa using Entry.cidr 0 ha⟩
      · rename_i rest'
        obtain ⟨hnone, hrest⟩ := Prod.mk.inj h
        obtain ⟨q, -, hq⟩ := part_of_readAddress (Prod.ext (Option.map_eq_none_iff.mp hnone) hrest)
        exact ⟨q, by simpa using Entry.range ha hq⟩
      · cases h

/-! ## Feeds -/

theorem dropWhile_eols (n : Nat) {p : List SpamdTok} (hp : ∀ more, p ≠ .eol :: more) :
    (replicate n SpamdTok.eol ++ p).dropWhile (· = .eol) = p := by
  induction n with
  | zero =>
    rcases p with _ | ⟨t, p⟩
    · rfl
    · have ht : t ≠ .eol := by
        rintro rfl
        exact hp p rfl
      simp [ht]
  | succ n ih => simpa [List.replicate_succ] using ih

/-- How the sequence of entries ends, in the grammar's terms. -/
def EndsWith (es : List SpamdTok) (ts : List SpamdTok) : FeedEnd → Prop
  | .stopped rest => ts = es ++ rest ∧ ∀ more, rest ≠ .eol :: more
  | .failed attempt => ∃ n, ts = es ++ (replicate (n + 1) .eol ++ attempt) ∧
      (∀ more, attempt ≠ .eol :: more) ∧ (readEntry attempt).1 = none

private theorem eol_run (ts : List SpamdTok) :
    ∃ n p, ts = replicate n .eol ++ p ∧ p = ts.dropWhile (· = .eol) ∧ ∀ more, p ≠ .eol :: more := by
  induction ts with
  | nil => exact ⟨0, [], rfl, rfl, by simp⟩
  | cons t ts ih =>
    by_cases ht : t = .eol
    · obtain ⟨n, p, hts, hp, hmore⟩ := ih
      refine ⟨n + 1, p, by rw [ht, hts, List.replicate_succ, List.cons_append, ← hts], ?_, hmore⟩
      simpa [ht] using hp
    · exact ⟨0, t :: ts, rfl, by simp [ht], by simp [ht]⟩

/-- A run of the loop splits the feed into entries and how they end. -/
theorem readEntries_split {fuel : Nat} {ts : List SpamdTok} (hfuel : ts.length < fuel) :
    ∃ es, Entries es ∧ EndsWith es ts (readEntries fuel ts).2 := by
  induction fuel generalizing ts with
  | zero => exact absurd hfuel (Nat.not_lt_zero _)
  | succ fuel ih =>
    by_cases hts : ∃ more, ts = .eol :: more
    · obtain ⟨ts, rfl⟩ := hts
      obtain ⟨n, p, hsplit, hp, hmore⟩ := eol_run ts
      rw [readEntries, ← hp]
      rcases hread : readEntry p with ⟨_ | r, rest⟩
      · refine ⟨[], .nil, n, ?_, hmore, by rw [hread]⟩
        rw [hsplit, List.replicate_succ]
        rfl
      · obtain ⟨e, he, rfl⟩ := entry_of_readEntry hread
        have hlen : rest.length < fuel := by
          have := congrArg List.length hsplit
          simp only [List.length_append, List.length_replicate, List.length_cons] at this hfuel
          omega
        obtain ⟨es, hes, hend⟩ := ih hlen
        refine ⟨replicate (n + 1) .eol ++ (e ++ es), .cons n he hes, ?_⟩
        simp only
        cases hend' : (readEntries fuel rest).2 with
        | stopped rest' =>
          rw [hend'] at hend
          refine ⟨?_, hend.2⟩
          rw [hsplit, hend.1, List.replicate_succ]
          simp
        | failed attempt =>
          rw [hend'] at hend
          obtain ⟨m, hrest, hattempt⟩ := hend
          refine ⟨m, ?_, hattempt⟩
          rw [hsplit, hrest, List.replicate_succ]
          simp [List.replicate_succ]
    · have hstop : readEntries (fuel + 1) ts = ([], .stopped ts) := by
        rcases ts with _ | ⟨t, ts⟩
        · rfl
        · cases t with
          | eol => exact absurd ⟨ts, rfl⟩ hts
          | _ => rfl
      exact ⟨[], .nil, hstop ▸ ⟨rfl, fun more h => hts ⟨more, h⟩⟩⟩

private theorem entries_endsLine {es : List SpamdTok} (h : Entries es) {tail : List SpamdTok}
    (htail : EndsLine tail) : EndsLine (es ++ tail) := by
  cases h with
  | nil => exact htail
  | cons n he hes => exact Or.inr ⟨_, by rw [List.replicate_succ]; rfl⟩

/-- The loop takes entries one by one. -/
theorem readEntries_append {es tail : List SpamdTok} (hes : Entries es) (htail : EndsLine tail)
    {fuel : Nat} (hfuel : (es ++ tail).length < fuel) :
    ∃ fuel', tail.length < fuel' ∧
      (readEntries fuel (es ++ tail)).2 = (readEntries fuel' tail).2 := by
  induction hes generalizing fuel with
  | nil => exact ⟨fuel, hfuel, rfl⟩
  | @cons e es n he hes ih =>
    obtain ⟨fuel, rfl⟩ := Nat.exists_eq_succ_of_ne_zero (Nat.ne_of_gt (Nat.zero_lt_of_lt hfuel))
    obtain ⟨r, hr⟩ := readEntry_of_entry he (entries_endsLine hes htail)
    have hstart : ∀ more, e ++ (es ++ tail) ≠ .eol :: more := by
      obtain ⟨t, ts, rfl, v, hv⟩ := he.ne_nil
      intro more h
      obtain ⟨rfl, -⟩ := List.cons.inj h
      cases hv
    have hsplit : replicate (n + 1) .eol ++ (e ++ es) ++ tail =
        .eol :: (replicate n .eol ++ (e ++ (es ++ tail))) := by simp [List.replicate_succ]
    rw [hsplit] at hfuel ⊢
    have hlen : (es ++ tail).length < fuel := by
      simp only [List.length_append, List.length_replicate, List.length_cons] at hfuel ⊢
      omega
    obtain ⟨fuel', htail', hread⟩ := ih hlen
    refine ⟨fuel', htail', ?_⟩
    rw [readEntries, dropWhile_eols n hstart, hr]
    exact hread

theorem readEntries_failed {es p : List SpamdTok} (hes : Entries es) (n : Nat)
    (hp : ∀ more, p ≠ .eol :: more) (hnone : (readEntry p).1 = none) {fuel : Nat}
    (hfuel : (es ++ (replicate (n + 1) SpamdTok.eol ++ p)).length < fuel) :
    (readEntries fuel (es ++ (replicate (n + 1) .eol ++ p))).2 = .failed p := by
  obtain ⟨fuel', htail, hread⟩ := readEntries_append hes
    (Or.inr ⟨replicate n SpamdTok.eol ++ p, by rw [List.replicate_succ]; rfl⟩) hfuel
  obtain ⟨fuel', rfl⟩ := Nat.exists_eq_succ_of_ne_zero (Nat.ne_of_gt (Nat.zero_lt_of_lt htail))
  rw [hread, List.replicate_succ, List.cons_append, readEntries, dropWhile_eols n hp]
  rcases hp' : readEntry p with ⟨_ | r, rest⟩
  · rfl
  · rw [hp'] at hnone
    cases hnone

theorem readEntries_stopped {es : List SpamdTok} (hes : Entries es) {fuel : Nat}
    (hfuel : es.length < fuel) : (readEntries fuel es).2 = .stopped [] := by
  have happend := List.append_nil es
  obtain ⟨fuel', -, hread⟩ := readEntries_append hes (Or.inl rfl) (happend.symm ▸ hfuel)
  rw [happend] at hread
  rw [hread]
  cases fuel' <;> rfl

/-- A feed is a sequence of entries and ends of line behind one more end of line. -/
theorem feed_iff (ts : List SpamdTok) :
    Feed ts ↔ ∃ es n, Entries es ∧ .eol :: ts = es ++ replicate n .eol := by
  constructor
  · intro h
    cases h with
    | empty n => exact ⟨[], n + 1, .nil, rfl⟩
    | @entries e es lead trail he hes =>
      refine ⟨replicate (lead + 1) .eol ++ (e ++ es), trail, .cons lead he hes, ?_⟩
      simp [List.replicate_succ]
  · rintro ⟨es, n, hes, hts⟩
    cases hes with
    | nil =>
      have hn : n ≠ 0 := by
        rintro rfl
        cases hts
      obtain ⟨n, rfl⟩ := Nat.exists_eq_succ_of_ne_zero hn
      rw [List.nil_append, List.replicate_succ] at hts
      rw [(List.cons.inj hts).2]
      exact .empty n
    | @cons e es m he hes =>
      rw [List.replicate_succ] at hts
      have htail := (List.cons.inj hts).2
      rw [show ts = replicate m .eol ++ (e ++ es ++ replicate n .eol) by simpa using htail]
      exact .entries m n he hes

private theorem quads_last {n : Nat} {a : List SpamdTok} (h : Quads n a) :
    ∃ b t, a = b ++ [t] ∧ t ≠ .eol := by
  have hne : ∀ {t : SpamdTok}, IsNumber t → t ≠ .eol := by
    rintro t ⟨v, hv⟩ rfl
    cases hv
  induction h with
  | one ht => exact ⟨[], _, rfl, hne ht⟩
  | @more n t a ht _ ih =>
    obtain ⟨b, t', rfl, ht'⟩ := ih
    exact ⟨t :: .dot :: b, t', rfl, ht'⟩

private theorem entry_last {e : List SpamdTok} (h : Entry e) : ∃ b t, e = b ++ [t] ∧ t ≠ .eol := by
  cases h with
  | single ha => exact quads_last ha
  | @cidr a bits ha => exact ⟨a ++ [.slash], .int6 bits, by simp, by simp⟩
  | @range a b ha hb =>
    obtain ⟨c, t, rfl, ht⟩ := quads_last hb
    exact ⟨a ++ .dash :: c, t, by simp, ht⟩

private theorem entries_last {es : List SpamdTok} (h : Entries es) :
    es = [] ∨ ∃ b t, es = b ++ [t] ∧ t ≠ .eol := by
  induction h with
  | nil => exact Or.inl rfl
  | @cons e es n he _ ih =>
    right
    rcases ih with rfl | ⟨b, t, rfl, ht⟩
    · obtain ⟨b, t, rfl, ht⟩ := entry_last he
      exact ⟨replicate (n + 1) .eol ++ b, t, by simp, ht⟩
    · exact ⟨replicate (n + 1) .eol ++ (e ++ b), t, by simp, ht⟩

theorem endsInEntry_iff (ts : List SpamdTok) :
    EndsInEntry ts ↔ ∃ es n p, Entries es ∧ .eol :: ts = es ++ (replicate (n + 1) .eol ++ p) ∧
      BeginsEntry p := by
  constructor
  · rintro ⟨before, p, rfl, hfeed, hbefore, hp⟩
    obtain ⟨es, n, hes, heq⟩ := (feed_iff before).mp hfeed
    have hn : n ≠ 0 := by
      rintro rfl
      have hlast : ∃ b, SpamdTok.eol :: before = b ++ [.eol] := by
        rcases hbefore with rfl | ⟨b, rfl⟩
        · exact ⟨[], rfl⟩
        · exact ⟨.eol :: b, rfl⟩
      obtain ⟨b, hb⟩ := hlast
      rw [List.replicate_zero, List.append_nil] at heq
      rcases entries_last hes with rfl | ⟨b', t, rfl, ht⟩
      · cases heq
      · have hends := hb.symm.trans heq
        rw [List.append_singleton_inj] at hends
        exact ht hends.2.symm
    obtain ⟨n, rfl⟩ := Nat.exists_eq_succ_of_ne_zero hn
    refine ⟨es, n, p, hes, ?_, hp⟩
    rw [← List.cons_append, heq, List.append_assoc]
  · rintro ⟨es, n, p, hes, heq, hp⟩
    cases hes with
    | nil =>
      rw [List.nil_append, List.replicate_succ] at heq
      refine ⟨replicate n .eol, p, (List.cons.inj heq).2, .empty n, ?_, hp⟩
      cases n with
      | zero => exact Or.inl rfl
      | succ n => exact Or.inr ⟨replicate n .eol, List.replicate_succ'⟩
    | @cons e es m he hes =>
      rw [List.replicate_succ] at heq
      have htail := (List.cons.inj heq).2
      refine ⟨replicate m .eol ++ (e ++ es ++ replicate (n + 1) .eol), p, by simpa using htail,
        .entries m (n + 1) he hes, Or.inr ⟨replicate m .eol ++ (e ++ es ++ replicate n .eol), ?_⟩, hp⟩
      simp [List.replicate_succ']

/-- The blacklist's array takes the ranges of the entries in front of the first place where
the tokens leave the grammar. -/
def FeedFits (blacklist : Blacklist) (type : BlType) (ts : List SpamdTok) : Prop :=
  (addRanges blacklist type (readFeed ts).1).isSome

/-- How the reading of the tokens ends decides whether they are a feed, and whether they
break off. -/
private theorem readFeed_end (ts : List SpamdTok) :
    (∃ rest, (readFeed ts).2 = .stopped rest ∧ (Feed ts ↔ rest = []) ∧ ¬ EndsInEntry ts) ∨
      ∃ p, (readFeed ts).2 = .failed p ∧ (readEntry p).1 = none ∧ (Feed ts ↔ p = []) ∧
        (EndsInEntry ts ↔ BeginsEntry p) := by
  have hfuel : (SpamdTok.eol :: ts).length < ts.length + 2 := by simp
  have hfeed : Feed ts → (readFeed ts).2 = .stopped [] ∨ (readFeed ts).2 = .failed [] := by
    intro h
    obtain ⟨es, n, hes, heq⟩ := (feed_iff ts).mp h
    rw [readFeed]
    cases n with
    | zero =>
      rw [List.replicate_zero, List.append_nil] at heq
      rw [heq] at hfuel ⊢
      exact Or.inl (readEntries_stopped hes hfuel)
    | succ n =>
      rw [← List.append_nil (replicate (n + 1) SpamdTok.eol)] at heq
      rw [heq] at hfuel ⊢
      exact Or.inr (readEntries_failed hes n (by simp) rfl hfuel)
  have hbreak : EndsInEntry ts → ∃ p, (readFeed ts).2 = .failed p ∧ BeginsEntry p := by
    intro h
    obtain ⟨es, n, p, hes, heq, hp⟩ := (endsInEntry_iff ts).mp h
    have hnone := readEntry_of_begins hp
    have hstart : ∀ more, p ≠ .eol :: more := by
      rintro more rfl
      cases hnone
    refine ⟨p, ?_, hp⟩
    rw [readFeed]
    rw [heq] at hfuel ⊢
    exact readEntries_failed hes n hstart (by rw [hnone]) hfuel
  obtain ⟨es, hes, hend⟩ := readEntries_split hfuel
  rw [← readFeed] at hend
  cases hout : (readFeed ts).2 with
  | stopped rest =>
    rw [hout] at hend hfeed hbreak
    refine Or.inl ⟨rest, rfl, ⟨fun h => ?_, ?_⟩, fun h => ?_⟩
    · rcases hfeed h with h | h
      · exact FeedEnd.stopped.inj h
      · cases h
    · rintro rfl
      exact (feed_iff ts).mpr ⟨es, 0, hes, hend.1⟩
    · obtain ⟨p, hp, -⟩ := hbreak h
      cases hp
  | failed p =>
    rw [hout] at hend hfeed hbreak
    obtain ⟨n, heq, hstart, hnone⟩ := hend
    refine Or.inr ⟨p, rfl, hnone, ⟨fun h => ?_, ?_⟩, fun h => ?_, fun h => ?_⟩
    · rcases hfeed h with h | h
      · cases h
      · exact FeedEnd.failed.inj h
    · rintro rfl
      exact (feed_iff ts).mpr ⟨es, n + 1, hes, by simpa using heq⟩
    · obtain ⟨p', hp', hb⟩ := hbreak h
      rwa [FeedEnd.failed.inj hp']
    · exact (endsInEntry_iff ts).mpr ⟨es, n, p, hes, heq, h⟩

/-- The tokens alone: the parser is content with the feeds of the grammar and with those
that break off. -/
theorem ok_iff (ts : List SpamdTok) : (readFeed ts).2.ok = true ↔ Feed ts ∨ EndsInEntry ts := by
  rcases readFeed_end ts with ⟨rest, hout, hfeed, hno⟩ | ⟨p, hout, hnone, hfeed, hbreaks⟩
  · simp [hout, FeedEnd.ok, hfeed, hno]
  · rw [hout, hfeed, hbreaks, FeedEnd.ok, decide_eq_true_eq]
    constructor
    · intro h
      by_cases hp : p = []
      · exact Or.inl hp
      · exact Or.inr (begins_of_readEntry (Prod.ext hnone h) hp)
    · rintro (rfl | h)
      · rfl
      · rw [readEntry_of_begins h]

/-- A feed of the grammar does not break off. -/
theorem Feed.not_endsInEntry {ts : List SpamdTok} (h : Feed ts) : ¬ EndsInEntry ts := by
  rcases readFeed_end ts with ⟨rest, -, -, hno⟩ | ⟨p, -, -, hfeed, hbreaks⟩
  · exact hno
  · rw [hbreaks]
    exact fun hb => hb.ne_nil (hfeed.mp h)

theorem ok_iff_feed_iff (ts : List SpamdTok) :
    ((readFeed ts).2.ok = true ↔ Feed ts) ↔ ¬ EndsInEntry ts := by
  rw [ok_iff]
  constructor
  · intro h hends
    exact (h.mp (Or.inr hends)).not_endsInEntry hends
  · intro h
    exact or_iff_left h

/-- The parser accepts exactly the feeds of the grammar, on a sequence of tokens that does
not break off inside an entry. -/
theorem spamd_grammar_iff (ts : List SpamdTok) (hts : .eof ∉ ts) (blacklist : Blacklist)
    (type : BlType) :
    (∃ ok parser, spamdParserStart tokenList (ts.length + 1) (ts ++ [.eof]) blacklist type =
        some (ok, parser) ∧ (ok = true ↔ Feed ts)) ↔
      FeedFits blacklist type ts ∧ ¬ EndsInEntry ts := by
  obtain ⟨parser, hrun⟩ := spamdParserStart_reads (feeds_tokenList hts) (Nat.lt_succ_self _) blacklist type
  rw [hrun, FeedFits]
  cases addRanges blacklist type (readFeed ts).1 with
  | none => simp
  | some b => simp [ok_iff_feed_iff]

/-- A single address. -/
theorem spamd_grammar_address :
    let ts : List SpamdTok := [.int6 10, .dot, .int6 0, .dot, .int6 0, .dot, .int6 1]
    ∃ ok parser, spamdParserStart tokenList (ts.length + 1) (ts ++ [.eof])
        (blacklistCreate [] [] .list) .black = some (ok, parser) ∧ (ok = true ↔ Feed ts) := by
  intro ts
  refine (spamd_grammar_iff ts (by decide) _ .black).mpr ⟨by unfold FeedFits; decide +kernel, fun h => ?_⟩
  have hentry : Entry ts := .single (.more ⟨10, rfl⟩ (.more ⟨0, rfl⟩ (.more ⟨0, rfl⟩ (.one ⟨1, rfl⟩))))
  have hfeed : Feed ts := by simpa using Feed.entries 0 0 hentry .nil
  exact absurd h ((ok_iff_feed_iff ts).mp ⟨fun _ => hfeed, fun _ => by decide⟩)

/-- The tokens of `10.` break off in the middle of an address; the parser reports success. -/
theorem spamd_accepts_broken_address :
    ¬ ∀ (ts : List SpamdTok), .eof ∉ ts → ∀ ok parser,
      spamdParserStart tokenList (ts.length + 1) (ts ++ [.eof]) (blacklistCreate [] [] .list) .black =
        some (ok, parser) → (ok = true ↔ Feed ts) := by
  intro h
  have hrun : (spamdParserStart tokenList 3 [.int6 10, .dot, .eof] (blacklistCreate [] [] .list)
      .black).map Prod.fst = some true := by decide +kernel
  obtain ⟨⟨ok, parser⟩, hrun, rfl⟩ := Option.map_eq_some_iff.mp hrun
  have hfeed := (h [.int6 10, .dot] (by decide) true parser hrun).mp rfl
  have hbreak : EndsInEntry [.int6 10, .dot] :=
    (endsInEntry_iff _).mpr ⟨[], 0, [.int6 10, .dot], .nil, rfl,
      begins_of_readEntry (by decide) (by simp)⟩
  exact (ok_iff_feed_iff _).mp ⟨fun _ => hfeed, fun _ => by decide⟩ hbreak

end Greyd
