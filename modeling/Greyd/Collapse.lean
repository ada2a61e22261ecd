import Greyd.Blacklist

/-!
# Collapsing a blacklist

The entries of a list of ranges are its events: counters go up at the start of a range
and down at its end. `level` is the value of a counter at an address. The sweep over the
sorted events emits one range of blocks for every maximal interval in which the black
counter is positive and the white one is not.
-/
namespace Greyd

open AlignedBlocks (Block Canonical MaxInterval canonical_nil)

/-- A call of `Blacklist_add_range`. -/
structure RangeCall where
  start : BitVec 32
  end_ : BitVec 32
  type : BlType
  lt : start < end_

namespace RangeCall

def Covers (c : RangeCall) (x : Nat) : Prop := c.start.toNat ≤ x ∧ x < c.end_.toNat

instance (c : RangeCall) (x : Nat) : Decidable (c.Covers x) := inferInstanceAs (Decidable (_ ∧ _))

def entries (c : RangeCall) : List BlacklistEntry :=
  match c.type with
  | .white => [⟨.ofSAddr c.start, .zero, 0, 1⟩, ⟨.ofSAddr c.end_, .zero, 0, -1⟩]
  | .black => [⟨.ofSAddr c.start, .zero, 1, 0⟩, ⟨.ofSAddr c.end_, .zero, -1, 0⟩]

end RangeCall

def blacklistAddRanges (list : Blacklist) : List RangeCall → Option Blacklist
  | [] => some list
  | c :: rest => (blacklistAddRange list c.start c.end_ c.type).bind fun l => blacklistAddRanges l rest

/-- The addresses of some black call and of no white one. -/
def blackMinusWhite (calls : List RangeCall) : Set Nat :=
  {x | (∃ c ∈ calls, c.type = .black ∧ c.Covers x) ∧ ¬ ∃ c ∈ calls, c.type = .white ∧ c.Covers x}

def BlacklistEntry.pos (e : BlacklistEntry) : Nat := e.address.sAddr.toNat

/-- A counter once every event up to `x` has been added. -/
def level (w : BlacklistEntry → Int) (es : List BlacklistEntry) (x : Nat) : Int :=
  (es.map (fun e => if e.pos ≤ x then w e else 0)).sum

theorem level_append (w : BlacklistEntry → Int) (es es' : List BlacklistEntry) (x : Nat) :
    level w (es ++ es') x = level w es x + level w es' x := by
  simp [level]

theorem level_perm (w : BlacklistEntry → Int) {es es' : List BlacklistEntry} (h : es.Perm es')
    (x : Nat) : level w es x = level w es' x :=
  (h.map _).sum_eq

theorem level_of_le (w : BlacklistEntry → Int) {es : List BlacklistEntry} {x : Nat}
    (h : ∀ e ∈ es, e.pos ≤ x) : level w es x = (es.map w).sum := by
  rw [level, List.map_congr_left fun e he => if_pos (h e he)]

theorem level_of_lt (w : BlacklistEntry → Int) {es : List BlacklistEntry} {x : Nat}
    (h : ∀ e ∈ es, x < e.pos) : level w es x = 0 := by
  rw [level, List.map_congr_left fun e he => if_neg (Nat.not_le.mpr (h e he))]
  simp

/-! ## Levels of a sequence of calls -/

theorem level_black_entries (c : RangeCall) (x : Nat) :
    level (·.black) c.entries x = if c.type = .black ∧ c.Covers x then 1 else 0 := by
  have hlt := BitVec.lt_def.mp c.lt
  cases ht : c.type with
  | white => simp [level, RangeCall.entries, ht]
  | black =>
    simp only [level, RangeCall.entries, ht, BlacklistEntry.pos, IpAddr.ofSAddr, IpAddr.sAddr,
      RangeCall.Covers, List.map_cons, List.map_nil, List.sum_cons, List.sum_nil, true_and]
    split_ifs <;> omega

theorem level_white_entries (c : RangeCall) (x : Nat) :
    level (·.white) c.entries x = if c.type = .white ∧ c.Covers x then 1 else 0 := by
  have hlt := BitVec.lt_def.mp c.lt
  cases ht : c.type with
  | black => simp [level, RangeCall.entries, ht]
  | white =>
    simp only [level, RangeCall.entries, ht, BlacklistEntry.pos, IpAddr.ofSAddr, IpAddr.sAddr,
      RangeCall.Covers, List.map_cons, List.map_nil, List.sum_cons, List.sum_nil, true_and]
    split_ifs <;> omega

/-- A counter that each call moves by its indicator counts the calls. -/
theorem level_flatMap {α : Type} (w : BlacklistEntry → Int) {f : α → List BlacklistEntry}
    {p : α → Prop} [DecidablePred p] {x : Nat} {calls : List α}
    (hw : ∀ c ∈ calls, level w (f c) x = if p c then 1 else 0) :
    0 ≤ level w (calls.flatMap f) x ∧ (0 < level w (calls.flatMap f) x ↔ ∃ c ∈ calls, p c) := by
  induction calls with
  | nil => simp [level]
  | cons c rest ih =>
    rw [List.forall_mem_cons] at hw
    rw [List.flatMap_cons, level_append, hw.1]
    simp only [List.mem_cons, exists_eq_or_imp]
    obtain ⟨hnonneg, hpos⟩ := ih hw.2
    by_cases hp : p c
    · simp only [hp, ↓reduceIte, true_or, iff_true]
      constructor <;> omega
    · simp only [hp, ↓reduceIte, zero_add, false_or]
      exact ⟨hnonneg, hpos⟩

/-- The condition the sweep computes. -/
def Listed (es : List BlacklistEntry) (x : Nat) : Prop :=
  0 < level (·.black) es x ∧ level (·.white) es x ≤ 0

theorem listed_iff {calls : List RangeCall} {es : List BlacklistEntry}
    (h : es.Perm (calls.flatMap RangeCall.entries)) (x : Nat) :
    Listed es x ↔ x ∈ blackMinusWhite calls := by
  rw [Listed, level_perm _ h, level_perm _ h]
  have hblack := level_flatMap (·.black) fun c (_ : c ∈ calls) => level_black_entries c x
  have hwhite := level_flatMap (·.white) fun c (_ : c ∈ calls) => level_white_entries c x
  rw [hblack.2, ← not_lt, hwhite.2]
  rfl

/-! ## The sweep -/

theorem collapseState_eq {state : Bool} {bs ws : Int} (hbs : 0 ≤ bs) :
    collapseState state bs ws = decide (0 < bs ∧ ws ≤ 0) := by
  rcases hbs.lt_or_eq with hpos | rfl
  · have hne : bs ≠ 0 := by omega
    by_cases hws : ws > 0
    · simp [collapseState, hws, hpos]
    · cases state <;> simp [collapseState, hpos, hne, hws] <;> omega
  · cases state <;> simp [collapseState]

/-- The do-while consumes the entries of one address and stops at the first other one. -/
theorem sumGroup_eq {addr : BitVec 32} {g rest : List BlacklistEntry} (hg : g ≠ [])
    (haddr : ∀ e ∈ g, e.address.sAddr = addr) (hrest : rest ≠ [])
    (hstop : ∀ e ∈ rest.head?, e.address.sAddr ≠ addr) (i : Nat) (bs ws : Int) :
    sumGroup addr (g ++ rest) i bs ws = some (rest, i + g.length, bs + (g.map (·.black)).sum,
      ws + (g.map (·.white)).sum) := by
  induction g generalizing i bs ws with
  | nil => exact absurd rfl hg
  | cons e g ih =>
    cases g with
    | nil =>
      obtain ⟨next, rest, rfl⟩ := List.exists_cons_of_ne_nil hrest
      have hne : next.address.sAddr ≠ addr := hstop next (by simp)
      simp [sumGroup, hne]
    | cons e' g =>
      have he' : e'.address.sAddr = addr := haddr e' (by simp)
      have htail := ih (by simp) (fun x hx => haddr x (List.mem_cons_of_mem _ hx)) (i + 1)
        (bs + e.black) (ws + e.white)
      simp only [List.cons_append, sumGroup, he', ↓reduceIte] at htail ⊢
      rw [htail]
      simp only [List.length_cons, List.map_cons, List.sum_cons, Option.some.injEq, Prod.mk.injEq,
        true_and]
      refine ⟨by omega, by ring, by ring⟩

/-- What is still to be emitted: the open region up to the next event, and everything
listed from the next event on. -/
def pending (state : Bool) (bstart : Nat) (done rest : List BlacklistEntry) : Set Nat :=
  {x | (state = true ∧ bstart ≤ x ∧ ∀ e ∈ rest, x < e.pos) ∨
    ((∃ e ∈ rest, e.pos ≤ x) ∧ Listed (done ++ rest) x)}

/-- The sorted events with the sweep between two groups of them. -/
structure Swept (done rest : List BlacklistEntry) (bs ws : Int) (state : Bool) (bstart : BitVec 32) :
    Prop where
  sorted : rest.Pairwise (fun a b => a.pos ≤ b.pos)
  before : ∀ d ∈ done, ∀ e ∈ rest, d.pos < e.pos
  black_eq : bs = (done.map (·.black)).sum
  white_eq : ws = (done.map (·.white)).sum
  nonneg : ∀ x, 0 ≤ level (·.black) (done ++ rest) x
  closed : ((done ++ rest).map (·.black)).sum = 0
  state_eq : state = decide (0 < bs ∧ ws ≤ 0)
  opened : state = true → ∀ e ∈ rest, bstart.toNat < e.pos
  past_zero : rest ≠ [] → ∃ e ∈ rest, 0 < e.pos

/-- One round splits the remaining events into the group at the next address and the rest. -/
theorem exists_group {rest : List BlacklistEntry} {a : BlacklistEntry} {tail : List BlacklistEntry}
    (hrest : rest = a :: tail) (hsorted : rest.Pairwise (fun a b => a.pos ≤ b.pos)) :
    ∃ g r, rest = g ++ r ∧ g ≠ [] ∧ (∀ e ∈ g, e.address.sAddr = a.address.sAddr) ∧
      (∀ e ∈ r, a.pos < e.pos) := by
  refine ⟨rest.takeWhile (·.address.sAddr = a.address.sAddr),
    rest.dropWhile (·.address.sAddr = a.address.sAddr), List.takeWhile_append_dropWhile.symm, ?_,
    fun e he => by simpa using List.mem_takeWhile_imp he, ?_⟩
  · simp [hrest]
  · have hge : ∀ e ∈ rest, a.pos ≤ e.pos := by
      subst hrest
      intro e he
      rcases List.mem_cons.mp he with rfl | he
      · exact le_refl _
      · exact (List.pairwise_cons.mp hsorted).1 e he
    have hsub : (rest.dropWhile (·.address.sAddr = a.address.sAddr)).Sublist rest :=
      List.dropWhile_sublist _
    intro e he
    cases hr : rest.dropWhile (·.address.sAddr = a.address.sAddr) with
    | nil => simp [hr] at he
    | cons b r =>
      have hb : b.address.sAddr ≠ a.address.sAddr := by
        have := List.head?_dropWhile_not (·.address.sAddr = a.address.sAddr) rest
        simpa [hr] using this
      have hab : a.pos < b.pos := by
        refine lt_of_le_of_ne (hge b (hsub.mem (by simp [hr]))) fun heq => hb ?_
        exact (BitVec.toNat_inj.mp heq).symm
      have hsorted' := hsorted.sublist hsub
      rw [hr] at he hsorted'
      rcases List.mem_cons.mp he with rfl | he
      · exact hab
      · exact hab.trans_le ((List.pairwise_cons.mp hsorted').1 e he)

/-- Between a group and the next event the counters stand still. -/
theorem listed_between {done g r : List BlacklistEntry} {a x : Nat} {state' : Bool}
    (hdone : ∀ d ∈ done, d.pos < a) (hg : ∀ e ∈ g, e.pos = a)
    (hstate : state' = decide (0 < ((done ++ g).map (·.black)).sum ∧ ((done ++ g).map (·.white)).sum ≤ 0))
    (hlo : a ≤ x) (hhi : ∀ e ∈ r, x < e.pos) : Listed (done ++ (g ++ r)) x ↔ state' = true := by
  have hle : ∀ e ∈ done ++ g, e.pos ≤ x := by
    intro e he
    rcases List.mem_append.mp he with he | he
    · have := hdone e he
      omega
    · have := hg e he
      omega
  have hlevel : ∀ w, level w (done ++ (g ++ r)) x = ((done ++ g).map w).sum := by
    intro w
    rw [← List.append_assoc, level_append, level_of_lt _ hhi, level_of_le _ hle, add_zero]
  rw [Listed, hlevel, hlevel, hstate, decide_eq_true_iff]

/-- After a round, `done` has grown by the group. -/
theorem Swept.next {done g r : List BlacklistEntry} {a : BlacklistEntry} {bs ws : Int}
    {state : Bool} {bstart : BitVec 32} (h : Swept done (g ++ r) bs ws state bstart)
    (hne : g ≠ []) (hg : ∀ e ∈ g, e.pos = a.pos) (hr : ∀ e ∈ r, a.pos < e.pos) :
    0 ≤ bs + (g.map (·.black)).sum ∧
    Swept (done ++ g) r (bs + (g.map (·.black)).sum) (ws + (g.map (·.white)).sum)
      (collapseState state (bs + (g.map (·.black)).sum) (ws + (g.map (·.white)).sum))
      (if state = false ∧ collapseState state (bs + (g.map (·.black)).sum)
        (ws + (g.map (·.white)).sum) = true then a.address.sAddr else bstart) := by
  have hlevel : level (·.black) (done ++ (g ++ r)) a.pos = bs + (g.map (·.black)).sum := by
    have hle : ∀ e ∈ done ++ g, e.pos ≤ a.pos := by
      intro e he
      rcases List.mem_append.mp he with he | he
      · obtain ⟨e', he'⟩ := List.exists_mem_of_ne_nil g hne
        have := h.before e he e' (List.mem_append_left _ he')
        have := hg e' he'
        omega
      · exact (hg e he).le
    rw [← List.append_assoc, level_append, level_of_lt _ hr, level_of_le _ hle, h.black_eq]
    simp
  have hbs : 0 ≤ bs + (g.map (·.black)).sum := hlevel ▸ h.nonneg a.pos
  refine ⟨hbs, (List.pairwise_append.mp h.sorted).2.1, ?_, by rw [h.black_eq]; simp,
    by rw [h.white_eq]; simp, by simpa using h.nonneg, by simpa using h.closed,
    collapseState_eq hbs, ?_, ?_⟩
  · intro d hd e he
    rcases List.mem_append.mp hd with hd | hd
    · exact h.before d hd e (List.mem_append_right _ he)
    · rw [hg d hd]
      exact hr e he
  · intro _ e he
    split_ifs with hopen
    · exact hr e he
    · have hstate : state = true := by
        cases state with
        | true => rfl
        | false => exact absurd ⟨rfl, by assumption⟩ hopen
      exact h.opened hstate e (List.mem_append_right _ he)
  · intro hr'
    obtain ⟨e, he⟩ := List.exists_mem_of_ne_nil r hr'
    exact ⟨e, he, by have := hr e he; omega⟩

/-- Emitting at the end of a region, or doing nothing, leaves what is pending. -/
theorem pending_next {done g r : List BlacklistEntry} {a : Nat} {state state' : Bool}
    {bstart : Nat} (bstart' : Nat) (hne : g ≠ []) (hg : ∀ e ∈ g, e.pos = a) (hr : ∀ e ∈ r, a < e.pos)
    (hbetween : ∀ x, a ≤ x → (∀ e ∈ r, x < e.pos) → (Listed (done ++ (g ++ r)) x ↔ state' = true))
    (hopen : state = true → bstart < a)
    (hb : bstart' = if state = false ∧ state' = true then a else bstart) :
    pending state bstart done (g ++ r) =
      (if state = true ∧ state' = false then Set.Ico bstart a else ∅) ∪
        pending state' bstart' (done ++ g) r := by
  obtain ⟨e₀, he₀⟩ := List.exists_mem_of_ne_nil g hne
  have hreached : ∀ x, (∃ e ∈ g ++ r, e.pos ≤ x) ↔ a ≤ x := by
    intro x
    constructor
    · rintro ⟨e, he, hle⟩
      rcases List.mem_append.mp he with he | he
      · have := hg e he
        omega
      · have := hr e he
        omega
    · exact fun hle => ⟨e₀, List.mem_append_left _ he₀, by rw [hg e₀ he₀]; exact hle⟩
  have hahead : ∀ x, (∀ e ∈ g ++ r, x < e.pos) ↔ x < a := by
    intro x
    have := hreached x
    by_cases hx : x < a
    · simp only [hx, iff_true]
      intro e he
      by_contra hle
      exact absurd (this.mp ⟨e, he, by omega⟩) (by omega)
    · obtain ⟨e, he, hle⟩ := this.mpr (by omega)
      exact iff_of_false (fun h => absurd (h e he) (by omega)) hx
  have hnext : ∀ x, (∃ e ∈ r, e.pos ≤ x) → a ≤ x := by
    rintro x ⟨e, he, hle⟩
    have := hr e he
    omega
  have hsplit : ∀ x, (∀ e ∈ r, x < e.pos) ∨ ∃ e ∈ r, e.pos ≤ x := by
    intro x
    by_contra h
    push Not at h
    obtain ⟨⟨e, he, hle⟩, hall⟩ := h
    exact absurd (hall e he) (by omega)
  ext x
  simp only [pending, Set.mem_union, Set.mem_ofPred_eq, hreached, hahead, List.append_assoc]
  -- an address is before the group, between it and the next event, or past that event
  by_cases hx : a ≤ x
  · have hlt : ¬ x < a := by omega
    rcases hsplit x with hnear | hfar
    · have hnot : ¬ ∃ e ∈ r, e.pos ≤ x := by
        rintro ⟨e, he, hle⟩
        exact absurd (hnear e he) (by omega)
      have hlisted := hbetween x hx hnear
      cases state with
      | false => cases state' <;> simp [hb, hx, hlt, hnot, eq_true hnear, hlisted]
      | true =>
        have hle : bstart ≤ x := (hopen rfl).le.trans hx
        cases state' <;> simp [hb, hx, hlt, hle, hnot, eq_true hnear, hlisted]
    · have hnot : ¬ ∀ e ∈ r, x < e.pos := by
        obtain ⟨e, he, hle⟩ := hfar
        exact fun h => absurd (h e he) (by omega)
      cases state <;> cases state' <;> simp [hx, hlt, hfar, hnot]
  · have hnot : ¬ ∃ e ∈ r, e.pos ≤ x := fun h => hx (hnext x h)
    have hnear : ∀ e ∈ r, x < e.pos := (hsplit x).resolve_right hnot
    cases state <;> cases state' <;> simp [hb, hx, hnot, eq_true hnear, Nat.not_le.mp hx]

/-- What one round emits: the blocks of a region that ends here, if any. -/
theorem region_canonical {state state' : Bool} {bstart bstart' addr : BitVec 32}
    (hopen : state = true → bstart.toNat < addr.toNat)
    (hb : bstart' = if state = false ∧ state' = true then addr else bstart) :
    ∃ blocks, (if state = true ∧ state' = false then ipRangeToCidrList (2 ^ 32) bstart' (addr - 1)
        else some []) = some (blocks.map IpCidr.ofBlock) ∧
      Canonical (if state = true ∧ state' = false then Set.Ico bstart.toNat addr.toNat else ∅)
        blocks := by
  by_cases hends : state = true ∧ state' = false
  · have hlt := hopen hends.1
    have hbstart : bstart' = bstart := by rw [hb, hends.1]; simp
    have hlast : (addr - 1).toNat + 1 = addr.toNat := by
      have h1 : (1 : BitVec 32) ≤ addr := BitVec.le_def.mpr (by simp; omega)
      rw [BitVec.toNat_sub_of_le h1]
      simp
      omega
    have haddr := addr.isLt
    obtain ⟨blocks, hrange, hgreedy⟩ :=
      ipRangeToCidrList_greedy (2 ^ 32) bstart (addr - 1) (by omega) (by omega) (by omega)
    rw [hlast] at hgreedy
    rw [if_pos hends, if_pos hends, hbstart]
    exact ⟨blocks, hrange, hgreedy.canonical⟩
  · rw [if_neg hends, if_neg hends]
    exact ⟨[], rfl, canonical_nil⟩

/-- A run of the outer loop emits the maximal blocks of what is pending. -/
theorem collapseLoop_canonical {zeros : Nat} (hzeros : 0 < zeros) (count fuel : Nat)
    {done rest : List BlacklistEntry} {bs ws : Int} {state : Bool} {bstart : BitVec 32}
    (h : Swept done rest bs ws state bstart) (hcount : count = done.length + rest.length)
    (hfuel : rest.length < fuel) :
    ∃ blocks, collapseLoop count fuel (rest ++ List.replicate zeros BlacklistEntry.zero) done.length
        bs ws state bstart = some (blocks.map IpCidr.ofBlock) ∧
      Canonical (pending state bstart.toNat done rest) blocks := by
  induction fuel generalizing done rest bs ws state bstart with
  | zero => omega
  | succ fuel ih =>
    cases hrest : rest with
    | nil =>
      subst hrest
      have hclosed := h.closed
      rw [List.append_nil, ← h.black_eq] at hclosed
      have hstate : state = false := by rw [h.state_eq, hclosed]; simp
      refine ⟨[], by simp [collapseLoop, hcount], ?_⟩
      simpa [pending, hstate] using canonical_nil
    | cons a tail =>
      obtain ⟨g, r, hgr, hne, hgaddr, hrpos⟩ := exists_group hrest h.sorted
      have hg : ∀ e ∈ g, e.pos = a.pos := fun e he => by
        rw [BlacklistEntry.pos, hgaddr e he]
        rfl
      rw [← hrest]
      rw [hgr] at h hcount hfuel ⊢
      obtain ⟨hbs, hnext⟩ := h.next hne hg hrpos
      have hstop : ∀ e ∈ (r ++ List.replicate zeros BlacklistEntry.zero).head?,
          e.address.sAddr ≠ a.address.sAddr := by
        intro e he heq
        have hpos : e.pos = a.pos := congrArg BitVec.toNat heq
        cases r with
        | cons b r' =>
          obtain rfl : b = e := by simpa using he
          have := hrpos b List.mem_cons_self
          omega
        | nil =>
          obtain ⟨n, rfl⟩ := Nat.exists_eq_succ_of_ne_zero hzeros.ne'
          obtain rfl : BlacklistEntry.zero = e := by simpa [List.replicate_succ] using he
          obtain ⟨e', he', hpos'⟩ := h.past_zero (by simp [hne])
          rw [List.append_nil] at he'
          have := hg e' he'
          have hzero : BlacklistEntry.zero.pos = 0 := rfl
          omega
      have hmem : r ++ List.replicate zeros BlacklistEntry.zero ≠ [] := by
        simp [Nat.ne_of_gt hzeros]
      have hsum := sumGroup_eq hne hgaddr hmem hstop done.length bs ws
      have hlen : 0 < g.length := List.length_pos_of_ne_nil hne
      simp only [List.length_append] at hcount hfuel
      obtain ⟨blocks, hloop, hcanon⟩ := ih hnext (by simp; omega) (by omega)
      have hopen : state = true → bstart.toNat < a.pos := by
        intro hs
        obtain ⟨e, he⟩ := List.exists_mem_of_ne_nil g hne
        rw [← hg e he]
        exact h.opened hs e (List.mem_append_left _ he)
      have hdone : ∀ d ∈ done, d.pos < a.pos := by
        intro d hd
        obtain ⟨e, he⟩ := List.exists_mem_of_ne_nil g hne
        rw [← hg e he]
        exact h.before d hd e (List.mem_append_left _ he)
      generalize hstate' : collapseState state (bs + (g.map (·.black)).sum)
        (ws + (g.map (·.white)).sum) = state' at hnext hloop hcanon
      generalize hbstart' : (if state = false ∧ state' = true then a.address.sAddr else bstart) =
        bstart' at hnext hloop hcanon
      have hstateq : state' = decide (0 < ((done ++ g).map (·.black)).sum ∧
          ((done ++ g).map (·.white)).sum ≤ 0) := by
        rw [← hnext.black_eq, ← hnext.white_eq]
        exact hnext.state_eq
      have hpending := pending_next bstart'.toNat hne hg hrpos
        (fun x => listed_between hdone hg hstateq) hopen
        (by rw [← hbstart', apply_ite BitVec.toNat]; rfl)
      obtain ⟨region, hregion, hcanon₀⟩ := region_canonical hopen hbstart'.symm
      refine ⟨region ++ blocks, ?_, ?_⟩
      · have hcons : (g ++ r) ++ List.replicate zeros BlacklistEntry.zero =
            a :: (tail ++ List.replicate zeros BlacklistEntry.zero) := by
          rw [← hgr, hrest]
          rfl
        have hlt : done.length < count := by omega
        rw [List.length_append] at hloop
        rw [List.append_assoc] at hcons ⊢
        rw [hcons, collapseLoop, if_pos hlt, ← hcons]
        simp only [hsum, Option.bind_some, hstate', hbstart', hregion, hloop, Option.map_some,
          List.map_append]
      · rw [hpending]
        by_cases hends : state = true ∧ state' = false
        · refine hcanon₀.append a.pos hcanon (fun x hx => ?_) (fun x hx => ?_)
          · rw [if_pos hends] at hx
            exact hx.2
          · rcases hx with ⟨hs, -⟩ | ⟨⟨e, he, hle⟩, -⟩
            · exact absurd (hs.symm.trans hends.2) (by decide)
            · exact (hrpos e he).trans_le hle
        · rw [if_neg hends] at hcanon₀ ⊢
          rw [hcanon₀.unique canonical_nil, Set.empty_union]
          exact hcanon

/-! ## The collapsed list of a sequence of calls -/

theorem addRanges_entries {b : Blacklist} {es : List BlacklistEntry} (h : FirstAlloc b es)
    (calls : List RangeCall) (hroom : es.length + 2 * calls.length ≤ listRoom) :
    ∃ l, blacklistAddRanges b calls = some l ∧
      FirstAlloc l (es ++ calls.flatMap RangeCall.entries) := by
  induction calls generalizing b es with
  | nil => exact ⟨b, rfl, by simpa using h⟩
  | cons c rest ih =>
    rw [List.length_cons] at hroom
    have hlen : c.entries.length = 2 := by cases ht : c.type <;> simp [RangeCall.entries, ht]
    obtain ⟨l, hstore, hl⟩ := h.store c.entries (by omega)
    have hadd : blacklistAddRange b c.start c.end_ c.type = some l := by
      have hgt : ¬ c.start > c.end_ := by
        have := BitVec.lt_def.mp c.lt
        rw [gt_iff_lt, BitVec.lt_def]
        omega
      have halloc : b.alloc ≠ 0 := by rw [h.alloc]; decide
      rw [blacklistAddRange, if_neg hgt, h.growEntries (by omega), if_neg halloc]
      cases ht : c.type <;> simpa only [RangeCall.entries, ht] using hstore
    obtain ⟨l', hrest, hl'⟩ := ih hl (by rw [List.length_append]; omega)
    refine ⟨l', by rw [blacklistAddRanges, hadd, Option.bind_some, hrest], ?_⟩
    simpa [List.flatMap_cons] using hl'

theorem exists_pos_le_of_listed {es : List BlacklistEntry} {x : Nat} (h : Listed es x) :
    ∃ e ∈ es, e.pos ≤ x := by
  by_contra hnone
  push Not at hnone
  have hzero := level_of_lt (·.black) hnone
  have := h.1
  omega

/-- Events whose counter never goes below zero and ends at zero collapse to the maximal blocks
of what they list; some event is past the address zero. -/
theorem collapse_events (qsort : Qsort BlacklistEntry cmpIpv4Entry) {b : Blacklist}
    {es : List BlacklistEntry} (hb : FirstAlloc b es)
    (hnonneg : ∀ x, 0 ≤ level (·.black) es x) (hclosed : (es.map (·.black)).sum = 0)
    (hzero : ∃ e ∈ es, 0 < e.pos) :
    ∃ blocks, blacklistCollapse qsort b = some ({ b with entries := qsort.run b.entries },
        some ((blocks.map IpCidr.ofBlock).map ipCidrToStr)) ∧ Canonical {x | Listed es x} blocks := by
  have hperm : (qsort.run b.entries).Perm es := by
    rw [← hb.entries]
    exact qsort.perm _
  have hsorted : (qsort.run b.entries).Pairwise (fun a b => a.pos ≤ b.pos) := by
    refine (qsort.sorted b.entries).imp fun {x y} hxy => ?_
    by_contra hgt
    have hgt' : x.address.sAddr > y.address.sAddr := BitVec.lt_def.mpr (Nat.not_le.mp hgt)
    rw [cmpIpv4Entry, if_pos hgt'] at hxy
    exact absurd hxy (by decide)
  have hzeros : 0 < b.alloc / BlacklistEntry.sizeof - b.count := by
    have hcap : b.alloc / BlacklistEntry.sizeof = listRoom + 2 := by rw [hb.alloc]; decide
    have := hb.room
    have := hb.count
    omega
  have hswept : Swept [] (qsort.run b.entries) 0 0 false 0 := by
    refine ⟨hsorted, by simp, rfl, rfl, fun x => ?_, ?_, by simp, by simp, fun _ => ?_⟩
    · rw [List.nil_append, level_perm _ hperm]
      exact hnonneg x
    · rw [List.nil_append, (hperm.map _).sum_eq]
      exact hclosed
    · obtain ⟨e, he, hpos⟩ := hzero
      exact ⟨e, hperm.mem_iff.mpr he, hpos⟩
  obtain ⟨blocks, hloop, hcanon⟩ := collapseLoop_canonical hzeros b.count (b.count + 1) hswept
    (by rw [hperm.length_eq, hb.count]; simp) (by rw [hperm.length_eq, hb.count]; omega)
  have hpending : pending false (0 : BitVec 32).toNat [] (qsort.run b.entries) = {x | Listed es x} := by
    have hlisted : ∀ x, Listed (qsort.run b.entries) x ↔ Listed es x := fun x => by
      rw [Listed, Listed, level_perm _ hperm, level_perm _ hperm]
    ext x
    simp only [pending, Bool.false_eq_true, false_and, false_or, List.nil_append, Set.mem_ofPred_eq,
      hlisted]
    refine ⟨fun h => h.2, fun h => ⟨?_, h⟩⟩
    obtain ⟨e, he, hpos⟩ := exists_pos_le_of_listed h
    exact ⟨e, hperm.mem_iff.mpr he, hpos⟩
  rw [hpending] at hcanon
  have hne : b.count ≠ 0 := by
    obtain ⟨e, he, -⟩ := hzero
    rw [hb.count]
    exact List.length_pos_iff.mpr (List.ne_nil_of_mem he) |>.ne'
  refine ⟨blocks, ?_, hcanon⟩
  simp only [List.length_nil] at hloop
  rw [blacklistCollapse, if_neg hne]
  simp only [hloop, Option.map_some]

theorem calls_closed (calls : List RangeCall) :
    ((calls.flatMap RangeCall.entries).map (·.black)).sum = 0 := by
  induction calls with
  | nil => rfl
  | cons c rest ih =>
    rw [List.flatMap_cons, List.map_append, List.sum_append, ih]
    cases ht : c.type <;> simp [RangeCall.entries, ht]

/-- The list that `Blacklist_collapse` returns names the maximal blocks of the addresses
that are black and not white. -/
theorem collapse_canonical (qsort : Qsort BlacklistEntry cmpIpv4Entry) (name message : CStr)
    (calls : List RangeCall) (hroom : 2 * calls.length ≤ listRoom) :
    ∃ b b' r blocks, blacklistAddRanges (blacklistCreate name message .list) calls = some b ∧
      blacklistCollapse qsort b = some (b', r) ∧ (r = none ↔ calls = []) ∧
      r.getD [] = blocks.map (fun c => ipCidrToStr (IpCidr.ofBlock c)) ∧
      Canonical (blackMinusWhite calls) blocks := by
  obtain ⟨b, hadd, hb⟩ := addRanges_entries (firstAlloc_create name message) calls (by simpa)
  rw [List.nil_append] at hb
  cases calls with
  | nil =>
    have hcount : b.count = 0 := hb.count
    refine ⟨b, b, none, [], hadd, by simp [blacklistCollapse, hcount], by simp, rfl, ?_⟩
    simpa [blackMinusWhite] using canonical_nil
  | cons c rest =>
    have hzero : ∃ e ∈ (c :: rest).flatMap RangeCall.entries, 0 < e.pos := by
      have hlt := BitVec.lt_def.mp c.lt
      have hend : ∃ e ∈ c.entries, e.pos = c.end_.toNat := by
        cases ht : c.type <;> simp [RangeCall.entries, ht, BlacklistEntry.pos, IpAddr.ofSAddr, IpAddr.sAddr]
      obtain ⟨e, he, hpos⟩ := hend
      exact ⟨e, by simp [he], by omega⟩
    obtain ⟨blocks, hcollapse, hcanon⟩ := collapse_events qsort hb
      (fun x => (level_flatMap (·.black) fun c _ => level_black_entries c x).1)
      (calls_closed _) hzero
    have hlisted : {x | Listed ((c :: rest).flatMap RangeCall.entries) x} = blackMinusWhite (c :: rest) :=
      Set.ext fun x => listed_iff (List.Perm.refl _) x
    rw [hlisted] at hcanon
    exact ⟨b, _, _, blocks, hadd, hcollapse, by simp, by simp, hcanon⟩

theorem lt_of_mem_blackMinusWhite {calls : List RangeCall} {x : Nat} (h : x ∈ blackMinusWhite calls) :
    x + 1 < 2 ^ 32 := by
  obtain ⟨⟨c, -, -, hcov⟩, -⟩ := h
  have := hcov.2
  have := c.end_.isLt
  omega

/-- Blocks below the last address are IPv4 blocks. -/
theorem ofBlock_of_lt {b : Block} (h : ∀ x ∈ b.points, x + 1 < 2 ^ 32) :
    (IpCidr.ofBlock b).Aligned ∧ (IpCidr.ofBlock b).addr.toNat = b.start ∧
      (IpCidr.ofBlock b).stop = b.stop := by
  have hlt := b.start_lt_stop
  have hlast : b.stop - 1 ∈ b.points := by constructor <;> omega
  have hstop := h _ hlast
  have hsize : b.size ≤ 32 := by
    by_contra hlarge
    have hpow : 2 ^ 33 ≤ 2 ^ b.size := Nat.pow_le_pow_right (by decide) (by omega)
    simp only [Block.stop] at hstop
    omega
  have hstart : (IpCidr.ofBlock b).addr.toNat = b.start := by
    rw [IpCidr.ofBlock, BitVec.toNat_ofNat, Nat.mod_eq_of_lt (by omega)]
  have hbits : 32 - (IpCidr.ofBlock b).bits = b.size := by
    simp only [IpCidr.ofBlock]
    omega
  refine ⟨⟨by simp [IpCidr.ofBlock], ?_⟩, hstart, ?_⟩
  · rw [hstart, hbits]
    exact b.aligned
  · rw [IpCidr.stop, hstart, hbits]
    rfl

theorem exists_points_ofBlock {bs : List Block} (h : ∀ b ∈ bs, ∀ x ∈ b.points, x + 1 < 2 ^ 32)
    (x : Nat) : (∃ c ∈ bs.map IpCidr.ofBlock, x ∈ c.points) ↔ ∃ b ∈ bs, x ∈ b.points := by
  simp only [List.mem_map, exists_exists_and_eq_and]
  refine exists_congr fun b => and_congr_right fun hb => ?_
  obtain ⟨-, hstart, hstop⟩ := ofBlock_of_lt (h b hb)
  rw [IpCidr.points, hstart, hstop]
  rfl

/-- A maximal interval of black addresses is covered by the blocks of the list that lie in
it, and no list of aligned blocks covers it with fewer. -/
structure MinimalOn (cidrs : List IpCidr) (lo hi : Nat) : Prop where
  covers : ∀ x, (∃ c ∈ cidrs, x ∈ c.points) ↔ lo ≤ x ∧ x < hi
  minimal : ∀ ds : List IpCidr, (∀ d ∈ ds, d.Aligned) →
    (∀ x, (∃ d ∈ ds, x ∈ d.points) ↔ lo ≤ x ∧ x < hi) → cidrs.length ≤ ds.length

theorem minimalOn_of_canonical {blocks : List Block} {cidrs : List IpCidr} {lo hi : Nat}
    (h : Canonical (Set.Ico lo hi) blocks) (hlen : cidrs.length = blocks.length)
    (hpoints : ∀ x, (∃ c ∈ cidrs, x ∈ c.points) ↔ ∃ b ∈ blocks, x ∈ b.points) :
    MinimalOn cidrs lo hi := by
  refine ⟨fun x => (hpoints x).trans (h.mem_iff x).symm, fun ds hds hcover => ?_⟩
  have hblocks : ∀ x, x ∈ Set.Ico lo hi ↔ ∃ d ∈ ds.pmap IpCidr.toBlock hds, x ∈ d.points := by
    intro x
    rw [Set.mem_Ico, ← hcover]
    simp only [List.mem_pmap]
    constructor
    · rintro ⟨d, hd, hx⟩
      exact ⟨d.toBlock (hds d hd), ⟨d, hd, rfl⟩, hx⟩
    · rintro ⟨_, ⟨d, hd, rfl⟩, hx⟩
      exact ⟨d, hd, hx⟩
  have hle := h.length_le hblocks
  rw [List.length_pmap] at hle
  omega

/-- `Blacklist_collapse` after any sequence of calls of `Blacklist_add_range`: an ordered
list of disjoint blocks, whose union is what is black and not white, minimal on every
maximal interval, and the same whatever the order of the calls and of equal addresses. -/
theorem collapse_exact (qsort : Qsort BlacklistEntry cmpIpv4Entry) (name message : CStr)
    (calls : List RangeCall) (hroom : 2 * calls.length ≤ listRoom) :
    ∃ (b b' : Blacklist) (r : Option (List CStr)) (cidrs : List IpCidr),
      blacklistAddRanges (blacklistCreate name message .list) calls = some b ∧
      blacklistCollapse qsort b = some (b', r) ∧ (r = none ↔ calls = []) ∧
      r.getD [] = cidrs.map ipCidrToStr ∧ (∀ c ∈ cidrs, c.Aligned) ∧
      cidrs.Pairwise (fun c d => c.stop ≤ d.addr.toNat) ∧
      (∀ x, (∃ c ∈ cidrs, x ∈ c.points) ↔ x ∈ blackMinusWhite calls) ∧
      (∀ lo hi, MaxInterval (blackMinusWhite calls) lo hi →
        MinimalOn (cidrs.filter (fun c => lo ≤ c.addr.toNat ∧ c.stop ≤ hi)) lo hi) ∧
      ∀ (qsort' : Qsort BlacklistEntry cmpIpv4Entry) (calls' : List RangeCall), calls'.Perm calls →
        ∃ d d', blacklistAddRanges (blacklistCreate name message .list) calls' = some d ∧
          blacklistCollapse qsort' d = some (d', r) := by
  obtain ⟨b, b', r, blocks, hadd, hcol, hnull, hr, hcanon⟩ :=
    collapse_canonical qsort name message calls hroom
  have hlast : ∀ b ∈ blocks, ∀ x ∈ b.points, x + 1 < 2 ^ 32 := fun b hb x hx =>
    lt_of_mem_blackMinusWhite (hcanon.inside b hb hx)
  have hblock := fun b hb => ofBlock_of_lt (hlast b hb)
  have hpoints := exists_points_ofBlock hlast
  refine ⟨b, b', r, blocks.map IpCidr.ofBlock, hadd, hcol, hnull, by rw [hr, List.map_map]; rfl,
    ?_, ?_, ?_, ?_, ?_⟩
  · intro c hc
    obtain ⟨b, hb, rfl⟩ := List.mem_map.mp hc
    exact (hblock b hb).1
  · rw [List.pairwise_map]
    refine hcanon.ordered.imp_of_mem fun {c d} hc hd hcd => ?_
    rw [(hblock c hc).2.2, (hblock d hd).2.1]
    exact hcd
  · exact fun x => (hpoints x).trans (hcanon.mem_iff x).symm
  · intro lo hi hI
    have hfilter : (blocks.map IpCidr.ofBlock).filter (fun c => lo ≤ c.addr.toNat ∧ c.stop ≤ hi) =
        (blocks.filter (fun b => lo ≤ b.start ∧ b.stop ≤ hi)).map IpCidr.ofBlock := by
      rw [List.filter_map]
      congr 1
      refine List.filter_congr fun b hb => ?_
      rw [Function.comp_apply, (hblock b hb).2.1, (hblock b hb).2.2]
    rw [hfilter]
    exact minimalOn_of_canonical (hcanon.interval hI) (List.length_map _)
      (exists_points_ofBlock fun b hb => hlast b (List.mem_of_mem_filter hb))
  · intro qsort' calls' hperm
    obtain ⟨d, d', r', blocks', hadd', hcol', hnull', hr', hcanon'⟩ :=
      collapse_canonical qsort' name message calls' (by rw [hperm.length_eq]; exact hroom)
    have hsame : blackMinusWhite calls' = blackMinusWhite calls := by
      simp only [blackMinusWhite, hperm.mem_iff]
    rw [hsame] at hcanon'
    obtain rfl := hcanon'.unique hcanon
    have hnone : r' = none ↔ r = none := by
      rw [hnull, hnull']
      exact ⟨fun h => List.nil_perm.mp (h ▸ hperm), fun h => List.perm_nil.mp (h ▸ hperm)⟩
    refine ⟨d, d', hadd', ?_⟩
    rw [hcol']
    cases r with
    | none => rw [hnone.mpr rfl]
    | some l =>
      cases r' with
      | none => exact absurd (hnone.mp rfl) (by simp)
      | some l' => simpa using hr'.trans hr.symm

private def overlapping : List RangeCall :=
  [⟨0x0a000000, 0x0a000015, .black, by decide⟩, ⟨0x0a00000a, 0x0a000033, .black, by decide⟩,
    ⟨0x0a000028, 0x0a00003d, .white, by decide⟩]

/-- Two black ranges that overlap, the second of them under a white one. -/
theorem collapse_overlapping :
    ∃ (b b' : Blacklist) (r : Option (List CStr)) (cidrs : List IpCidr),
      blacklistAddRanges (blacklistCreate [] [] .list) overlapping = some b ∧
      blacklistCollapse Qsort.merge b = some (b', r) ∧ r.getD [] = cidrs.map ipCidrToStr ∧
      ∀ x, (∃ c ∈ cidrs, x ∈ c.points) ↔ x ∈ blackMinusWhite overlapping := by
  obtain ⟨b, b', r, cidrs, hadd, hcol, -, hr, -, -, hcover, -⟩ :=
    collapse_exact Qsort.merge [] [] overlapping (by decide)
  exact ⟨b, b', r, cidrs, hadd, hcol, hr, hcover⟩

end Greyd
