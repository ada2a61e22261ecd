import Greyd.Ip
import Greyd.Support.BitCells

/-!
# The radix trie (trie.c)

A node carries an optional key and a branch bit; a NULL pointer is `null`. The
comparison function of the C structure is the same in every node of a trie and is
passed along. `none` stands for reading through the NULL key of an internal node.
-/
namespace Greyd

open BitCells (Cell firstDiff cut)

/-- Values that are stored in a trie as the bytes they occupy in memory. -/
class KeyBytes (κ : Type) where
  bytes : κ → List Byte

instance : KeyBytes (List Byte) := ⟨id⟩

/-- `BIT(x, n)`. -/
def bytesBit (x : List Byte) (n : Nat) : Bool :=
  (x.getD (n / 8) 0 &&& (0x1#8 <<< (7 - n % 8))) ≠ 0

theorem bytesBit_eq (x : List Byte) (n : Nat) :
    bytesBit x n = (x.getD (n / 8) 0).getLsbD (7 - n % 8) := by
  have h := BitVec.and_twoPow (x.getD (n / 8) 0) (7 - n % 8)
  rw [bytesBit, ← BitVec.twoPow_eq, h]
  have hlt : 7 - n % 8 < 8 := by omega
  have hne : BitVec.twoPow 8 (7 - n % 8) ≠ 0 := by
    intro h0
    simpa [hlt] using congrArg (fun v => BitVec.getLsbD v (7 - n % 8)) h0
  split <;> simp_all

private theorem byte_eq_of_bits {x y : List Byte} {k : Nat}
    (h : ∀ i < 8, bytesBit x (8 * k + i) = bytesBit y (8 * k + i)) : x.getD k 0 = y.getD k 0 := by
  refine BitVec.eq_of_getLsbD_eq fun i hi => ?_
  have hbit := h (7 - i) (by omega)
  have hdiv : (8 * k + (7 - i)) / 8 = k := by omega
  have hmod : 7 - (8 * k + (7 - i)) % 8 = i := by omega
  rwa [bytesBit_eq, bytesBit_eq, hdiv, hmod] at hbit

/-- Keys of one length are the same when their bits are. -/
theorem bytes_eq_of_bits {x y : List Byte} (hlen : x.length = y.length)
    (h : ∀ j < x.length * 8, bytesBit x j = bytesBit y j) : x = y := by
  refine List.ext_getElem hlen fun k hx hy => ?_
  have hbyte : x.getD k 0 = y.getD k 0 := byte_eq_of_bits fun i hi => h (8 * k + i) (by omega)
  simpa [List.getD_eq_getElem?_getD, hx, hy] using hbyte

inductive Trie (κ : Type) where
  | null
  | node (key : Option κ) (branch : Nat) (kid0 kid1 : Trie κ)
  deriving DecidableEq

namespace Trie

variable {κ : Type}

/-- `IS_LEAF`, of a node with these kids. -/
def isLeaf : Trie κ → Trie κ → Bool
  | null, null => true
  | _, _ => false

/-- `Trie_create`. -/
def create (key : Option κ) : Trie κ := node key 0 null null

theorem isLeaf_of_ne_left {t u : Trie κ} (h : t ≠ null) : isLeaf t u = false := by
  cases t <;> simp_all [isLeaf]

theorem isLeaf_of_ne_right {t u : Trie κ} (h : u ≠ null) : isLeaf t u = false := by
  cases t <;> cases u <;> simp_all [isLeaf]

/-- The leaf keys of a trie, each with the bits tested on the way to it. -/
def cells : Trie κ → List (Cell κ)
  | null => []
  | node nkey branch kid0 kid1 =>
    if isLeaf kid0 kid1 then (nkey.map (fun k => ⟨k, []⟩)).toList
    else (cells kid0 ++ cells kid1).map (fun c => ⟨c.key, branch :: c.tested⟩)

theorem mem_cells_branch {branch : Nat} {nkey : Option κ} {kid0 kid1 : Trie κ}
    (h : isLeaf kid0 kid1 = false) {c : Cell κ} :
    c ∈ cells (node nkey branch kid0 kid1) ↔
      ∃ c', (c' ∈ cells kid0 ∨ c' ∈ cells kid1) ∧ c = ⟨c'.key, branch :: c'.tested⟩ := by
  simp only [cells, h, Bool.false_eq_true, ↓reduceIte, List.mem_map, List.mem_append]
  exact exists_congr fun c' => and_congr_right fun _ => eq_comm

variable [KeyBytes κ]

def keyBit (k : κ) (n : Nat) : Bool := bytesBit (KeyBytes.bytes k) n

def kbits (k : κ) : Nat := (KeyBytes.bytes k).length * 8

/-- The loop that looks for the first differing bit, with the last value it read. -/
def splitLoop (old key : κ) : Nat → Nat → Bool → Nat × Bool
  | 0, bit, val => (bit, val)
  | left + 1, bit, _ =>
    if keyBit old bit = keyBit key bit then splitLoop old key left (bit + 1) (keyBit key bit)
    else (bit, keyBit key bit)

/-- Split a leaf: `kids[val]` gets the new key and `kids[!val]` the old one. -/
def split (old key : κ) : Trie κ :=
  match splitLoop old key (kbits key) 0 false with
  | (bit, true) => node none bit (create (some old)) (create (some key))
  | (bit, false) => node none bit (create (some key)) (create (some old))

/-- `Trie_insert` from a node downwards. -/
def insertFrom (cmp : κ → κ → Int) (key : κ) : Trie κ → Option (Trie κ)
  | null => none
  | node nkey branch kid0 kid1 =>
    if isLeaf kid0 kid1 ∨ branch ≥ kbits key then
      match nkey with
      | none => none
      | some old =>
        if cmp old key = 0 then some (node nkey branch kid0 kid1) else some (split old key)
    else if keyBit key branch then
      match kid1 with
      | null => some (node nkey branch kid0 (create (some key)))
      | node .. => (insertFrom cmp key kid1).map (node nkey branch kid0 ·)
    else
      match kid0 with
      | null => some (node nkey branch (create (some key)) kid1)
      | node .. => (insertFrom cmp key kid0).map (node nkey branch · kid1)

/-- `Trie_insert`. -/
def insert (cmp : κ → κ → Int) (trie : Trie κ) (key : κ) : Option (Trie κ) :=
  match trie with
  | null => some null
  | node none branch null null =>
    if keyBit key 0 then some (node none branch null (create (some key)))
    else some (node none branch (create (some key)) null)
  | _ => insertFrom cmp key trie

/-- `Trie_contains`. -/
def contains (cmp : κ → κ → Int) (key : κ) : Trie κ → Bool
  | null => false
  | node nkey branch kid0 kid1 =>
    if isLeaf kid0 kid1 then
      match nkey with
      | none => false
      | some k => cmp k key = 0
    else if branch ≥ kbits key then false
    else if keyBit key branch then contains cmp key kid1
    else contains cmp key kid0

/-! ## Tries whose tests have both outcomes -/

/-- A subtree in which every test has both outcomes, each with the keys it sorts. -/
inductive Full (width : Nat) : Trie κ → Prop
  | leaf (k : κ) (branch : Nat) : Full width (node (some k) branch null null)
  | branch {branch : Nat} {kid0 kid1 : Trie κ} (hb : branch < width)
      (h0 : Full width kid0) (h1 : Full width kid1)
      (hk0 : ∀ c ∈ cells kid0, keyBit c.key branch = false)
      (hk1 : ∀ c ∈ cells kid1, keyBit c.key branch = true) :
      Full width (node none branch kid0 kid1)

theorem Full.ne_null {width : Nat} {t : Trie κ} (h : Full width t) : t ≠ null := by
  cases h <;> simp

/-- The loop stops at the first differing bit, on the new key's value there. -/
theorem splitLoop_eq (old key : κ) (left bit i : Nat) (val : Bool) (hlo : bit ≤ i)
    (hhi : i < bit + left) (hi : keyBit old i ≠ keyBit key i)
    (heq : ∀ j, bit ≤ j → j < i → keyBit old j = keyBit key j) :
    splitLoop old key left bit val = (i, keyBit key i) := by
  induction left generalizing bit val with
  | zero => omega
  | succ left ih =>
    by_cases hbi : bit = i
    · subst hbi
      simp [splitLoop, hi]
    · rw [splitLoop, if_pos (heq bit (by omega) (by omega))]
      exact ih (bit + 1) _ (by omega) (by omega) (fun j hj => heq j (by omega))

theorem split_eq {old key : κ} {i : Nat} (h : firstDiff keyBit (kbits key) old key = some i) :
    split old key = if keyBit key i then node none i (create (some old)) (create (some key))
      else node none i (create (some key)) (create (some old)) := by
  obtain ⟨hlt, hne, heq⟩ := BitCells.firstDiff_some h
  rw [split, splitLoop_eq old key (kbits key) 0 i false (by omega) (by omega) hne
    (fun j _ hj => heq j hj)]
  cases keyBit key i <;> rfl

theorem split_full {old key : κ} {i : Nat} (h : firstDiff keyBit (kbits key) old key = some i) :
    Full (kbits key) (split old key) := by
  obtain ⟨hlt, hne, -⟩ := BitCells.firstDiff_some h
  rw [split_eq h]
  by_cases hv : keyBit key i = true
  · rw [if_pos hv]
    have ho : keyBit old i = false := by simpa [hv] using hne
    refine .branch hlt (.leaf old 0) (.leaf key 0) ?_ ?_
    · simp [create, cells, isLeaf, ho]
    · simp [create, cells, isLeaf, hv]
  · have hv' : keyBit key i = false := by simpa using hv
    have ho : keyBit old i = true := by simpa [hv'] using hne
    rw [if_neg hv]
    refine .branch hlt (.leaf key 0) (.leaf old 0) ?_ ?_
    · simp [create, cells, isLeaf, hv']
    · simp [create, cells, isLeaf, ho]

theorem mem_cells_split {old key : κ} {i : Nat}
    (h : firstDiff keyBit (kbits key) old key = some i) {c : Cell κ} :
    c ∈ cells (split old key) ↔ c ∈ cut ⟨old, []⟩ key i := by
  rw [split_eq h]
  split <;> simp [create, cells, isLeaf, cut, or_comm]

/-- A full subtree answers a query by the one leaf that agrees with it. -/
theorem contains_full (cmp : κ → κ → Int) {width : Nat} {t : Trie κ} (h : Full width t) (q : κ)
    (hw : width ≤ kbits q) :
    contains cmp q t = true ↔ ∃ c ∈ cells t, c.Agrees keyBit q ∧ cmp c.key q = 0 := by
  induction h with
  | leaf k branch => simp [contains, cells, isLeaf, Cell.Agrees]
  | @branch branch kid0 kid1 hb h0 h1 hk0 hk1 ih0 ih1 =>
    have hl := isLeaf_of_ne_left (u := kid1) h0.ne_null
    have hnb : ¬ branch ≥ kbits q := by omega
    have hcons : ∀ c : Cell κ, (⟨c.key, branch :: c.tested⟩ : Cell κ).Agrees keyBit q ↔
        keyBit q branch = keyBit c.key branch ∧ c.Agrees keyBit q := by
      intro c; simp [Cell.Agrees]
    rw [contains, if_neg (by simp [hl]), if_neg hnb]
    by_cases hq : keyBit q branch = true
    · rw [if_pos hq, ih1]
      constructor
      · rintro ⟨c, hc, hag, hcmp⟩
        exact ⟨_, (mem_cells_branch hl).mpr ⟨c, Or.inr hc, rfl⟩,
          (hcons c).mpr ⟨hq.trans (hk1 c hc).symm, hag⟩, hcmp⟩
      · rintro ⟨c, hc, hag, hcmp⟩
        obtain ⟨c', hside | hside, rfl⟩ := (mem_cells_branch hl).mp hc
        · exact absurd (hk0 c' hside) (by simp [← ((hcons c').mp hag).1, hq])
        · exact ⟨c', hside, ((hcons c').mp hag).2, hcmp⟩
    · rw [if_neg hq, ih0]
      have hq' : keyBit q branch = false := by simpa using hq
      constructor
      · rintro ⟨c, hc, hag, hcmp⟩
        exact ⟨_, (mem_cells_branch hl).mpr ⟨c, Or.inl hc, rfl⟩,
          (hcons c).mpr ⟨hq'.trans (hk0 c hc).symm, hag⟩, hcmp⟩
      · rintro ⟨c, hc, hag, hcmp⟩
        obtain ⟨c', hside | hside, rfl⟩ := (mem_cells_branch hl).mp hc
        · exact ⟨c', hside, ((hcons c').mp hag).2, hcmp⟩
        · exact absurd (hk1 c' hside) (by simp [← ((hcons c').mp hag).1, hq'])

/-! ## Insertion -/

/-- A cell seen from the parent of its subtree. -/
def push (branch : Nat) (c : Cell κ) : Cell κ := ⟨c.key, branch :: c.tested⟩

omit [KeyBytes κ] in
theorem push_injective (branch : Nat) : Function.Injective (push (κ := κ) branch) := by
  rintro ⟨k, ts⟩ ⟨k', ts'⟩ h
  simpa [push] using h

omit [KeyBytes κ] in
theorem mem_cut_push {branch i : Nat} {c c' : Cell κ} {key : κ} :
    c' ∈ cut (push branch c) key i ↔ ∃ c'' ∈ cut c key i, c' = push branch c'' := by
  simp [cut, push]

omit [KeyBytes κ] in
/-- Cutting a cell of one side, seen from the parent. -/
private theorem mem_replaced {A B B' : Cell κ → Prop} {c c' : Cell κ} {key : κ} {branch i : Nat}
    (hA : ∀ d, A d → d ≠ c) (hB : ∀ d, B' d ↔ (B d ∧ d ≠ c) ∨ d ∈ cut c key i) :
    (∃ d, (A d ∨ B' d) ∧ c' = push branch d) ↔
      ((∃ d, (A d ∨ B d) ∧ c' = push branch d) ∧ c' ≠ push branch c) ∨
        c' ∈ cut (push branch c) key i := by
  rw [mem_cut_push]
  constructor
  · rintro ⟨d, hd | hd, rfl⟩
    · exact Or.inl ⟨⟨d, Or.inl hd, rfl⟩, (push_injective branch).ne (hA d hd)⟩
    · rcases (hB d).mp hd with ⟨hd, hne⟩ | hd
      · exact Or.inl ⟨⟨d, Or.inr hd, rfl⟩, (push_injective branch).ne hne⟩
      · exact Or.inr ⟨d, hd, rfl⟩
  · rintro (⟨⟨d, hd | hd, rfl⟩, hne⟩ | ⟨d, hd, rfl⟩)
    · exact ⟨d, Or.inl hd, rfl⟩
    · exact ⟨d, Or.inr ((hB d).mpr (Or.inl ⟨hd, fun he => hne (he ▸ rfl)⟩)), rfl⟩
    · exact ⟨d, Or.inr ((hB d).mpr (Or.inr hd)), rfl⟩

theorem insertFrom_right {cmp : κ → κ → Int} {key : κ} {nkey : Option κ} {branch : Nat}
    {kid0 kid1 : Trie κ} (hne : kid1 ≠ null) (hb : branch < kbits key)
    (hbit : keyBit key branch = true) :
    insertFrom cmp key (node nkey branch kid0 kid1) =
      (insertFrom cmp key kid1).map (node nkey branch kid0 ·) := by
  have hl : isLeaf kid0 kid1 = false := isLeaf_of_ne_right hne
  have hnb : ¬ branch ≥ kbits key := by omega
  cases kid1 with
  | null => exact absurd rfl hne
  | node => rw [insertFrom.eq_def]; simp [hl, hnb, hbit]

theorem insertFrom_left {cmp : κ → κ → Int} {key : κ} {nkey : Option κ} {branch : Nat}
    {kid0 kid1 : Trie κ} (hne : kid0 ≠ null) (hb : branch < kbits key)
    (hbit : keyBit key branch = false) :
    insertFrom cmp key (node nkey branch kid0 kid1) =
      (insertFrom cmp key kid0).map (node nkey branch · kid1) := by
  have hl : isLeaf kid0 kid1 = false := isLeaf_of_ne_left hne
  have hnb : ¬ branch ≥ kbits key := by omega
  cases kid0 with
  | null => exact absurd rfl hne
  | node => rw [insertFrom.eq_def]; simp [hl, hnb, hbit]

/-- What inserting into a full subtree does: the key falls into one cell, and either
nothing changes or that cell is cut where the keys first differ. -/
structure Inserted (cmp : κ → κ → Int) (key : κ) (t : Trie κ) (c : Cell κ) : Prop where
  mem : c ∈ cells t
  agrees : c.Agrees keyBit key
  present : cmp c.key key = 0 → insertFrom cmp key t = some t
  cutAt : cmp c.key key ≠ 0 → ∀ i, firstDiff keyBit (kbits key) c.key key = some i →
    ∃ t', insertFrom cmp key t = some t' ∧ Full (kbits key) t' ∧
      ∀ c', c' ∈ cells t' ↔ (c' ∈ cells t ∧ c' ≠ c) ∨ c' ∈ cut c key i

private theorem bit_of_inserted {c c' : Cell κ} {key : κ} {t : Trie κ} {branch i : Nat} {b : Bool}
    (hk : ∀ d ∈ cells t, keyBit d.key branch = b) (hkey : keyBit key branch = b)
    (hc : c ∈ cells t) (h : (c' ∈ cells t ∧ c' ≠ c) ∨ c' ∈ cut c key i) :
    keyBit c'.key branch = b := by
  rcases h with h | h
  · exact hk c' h.1
  · rcases (BitCells.mem_cut.mp h).2 with he | he
    · rw [he]; exact hk c hc
    · rw [he]; exact hkey

theorem insertFrom_full (cmp : κ → κ → Int) {key : κ} {t : Trie κ} (h : Full (kbits key) t) :
    ∃ c, Inserted cmp key t c := by
  induction h with
  | leaf k branch =>
    refine ⟨⟨k, []⟩, by simp [cells, isLeaf], by simp [Cell.Agrees], ?_, ?_⟩
    · intro hcmp; simp [insertFrom, isLeaf, hcmp]
    · intro hcmp i hi
      refine ⟨split k key, by simp [insertFrom, isLeaf, hcmp], split_full hi, ?_⟩
      intro c'
      rw [mem_cells_split hi]
      simp [cells, isLeaf]
  | @branch branch kid0 kid1 hb h0 h1 hk0 hk1 ih0 ih1 =>
    have hl := isLeaf_of_ne_left (u := kid1) h0.ne_null
    by_cases hbit : keyBit key branch = true
    · obtain ⟨c, hc⟩ := ih1
      have hins : insertFrom cmp key (node none branch kid0 kid1) =
          (insertFrom cmp key kid1).map (node none branch kid0 ·) :=
        insertFrom_right h1.ne_null hb hbit
      refine ⟨push branch c, (mem_cells_branch hl).mpr ⟨c, Or.inr hc.mem, rfl⟩, ?_, ?_, ?_⟩
      · rintro i (_ | ⟨_, hi⟩)
        · exact hbit.trans (hk1 c hc.mem).symm
        · exact hc.agrees i hi
      · intro hcmp
        rw [hins, hc.present hcmp]
        rfl
      · intro hcmp i hi
        obtain ⟨t', ht', hfull, hcells⟩ := hc.cutAt hcmp i hi
        refine ⟨node none branch kid0 t', by rw [hins, ht']; rfl,
          .branch hb h0 hfull hk0 fun d hd => bit_of_inserted hk1 hbit hc.mem ((hcells d).mp hd), ?_⟩
        intro c'
        rw [mem_cells_branch (isLeaf_of_ne_left h0.ne_null), mem_cells_branch hl]
        refine mem_replaced (fun d hd he => ?_) hcells
        exact absurd (hk0 d hd) (by rw [he, hk1 c hc.mem]; simp)
    · have hbit' : keyBit key branch = false := by simpa using hbit
      obtain ⟨c, hc⟩ := ih0
      have hins : insertFrom cmp key (node none branch kid0 kid1) =
          (insertFrom cmp key kid0).map (node none branch · kid1) :=
        insertFrom_left h0.ne_null hb hbit'
      refine ⟨push branch c, (mem_cells_branch hl).mpr ⟨c, Or.inl hc.mem, rfl⟩, ?_, ?_, ?_⟩
      · rintro i (_ | ⟨_, hi⟩)
        · exact hbit'.trans (hk0 c hc.mem).symm
        · exact hc.agrees i hi
      · intro hcmp
        rw [hins, hc.present hcmp]
        rfl
      · intro hcmp i hi
        obtain ⟨t', ht', hfull, hcells⟩ := hc.cutAt hcmp i hi
        refine ⟨node none branch t' kid1, by rw [hins, ht']; rfl,
          .branch hb hfull h1 (fun d hd => bit_of_inserted hk0 hbit' hc.mem ((hcells d).mp hd)) hk1, ?_⟩
        intro c'
        rw [mem_cells_branch (isLeaf_of_ne_left hfull.ne_null), mem_cells_branch hl]
        simp only [or_comm (a := _ ∈ cells t'), or_comm (a := _ ∈ cells kid0)]
        refine mem_replaced (fun d hd he => ?_) hcells
        exact absurd (hk1 d hd) (by rw [he, hk0 c hc.mem]; simp)

/-! ## Whole tries and their cells -/

/-- One side of a root: absent, or full of keys with this first bit. -/
def Side (width : Nat) (b : Bool) (kid : Trie κ) : Prop :=
  kid = null ∨ Full width kid ∧ ∀ c ∈ cells kid, keyBit c.key 0 = b

/-- A trie made by `Trie_create` without a key, and the cells it realises. -/
structure Realises (width : Nat) (t : Trie κ) (cs : List (Cell κ)) : Prop where
  root : ∃ kid0 kid1, t = node none 0 kid0 kid1 ∧ Side width false kid0 ∧ Side width true kid1
  cells_iff : ∀ c, c ∈ cells t ↔ c ∈ cs
  tiling : BitCells.Tiling keyBit cs

theorem realises_create (width : Nat) : Realises width (create (none : Option κ)) [] :=
  ⟨⟨null, null, rfl, Or.inl rfl, Or.inl rfl⟩, by simp [create, cells, isLeaf],
    BitCells.tiling_nil⟩

omit [KeyBytes κ] in
theorem cells_root {kid0 kid1 : Trie κ} {c : Cell κ} :
    c ∈ cells (node none 0 kid0 kid1) ↔
      ∃ c', (c' ∈ cells kid0 ∨ c' ∈ cells kid1) ∧ c = push 0 c' := by
  cases hl : isLeaf kid0 kid1 with
  | false => exact mem_cells_branch hl
  | true =>
    have h0 : kid0 = null := by_contra fun h => by simp [isLeaf_of_ne_left h] at hl
    have h1 : kid1 = null := by_contra fun h => by simp [isLeaf_of_ne_right h] at hl
    simp [h0, h1, cells, isLeaf]

theorem push_agrees {branch : Nat} {c : Cell κ} {q : κ} :
    (push branch c).Agrees keyBit q ↔ keyBit q branch = keyBit c.key branch ∧ c.Agrees keyBit q := by
  simp [push, Cell.Agrees]

theorem Realises.contains_iff (cmp : κ → κ → Int) {width : Nat} {t : Trie κ} {cs : List (Cell κ)}
    (h : Realises width t cs) (q : κ) (hw : width ≤ kbits q) (hpos : 0 < kbits q) :
    contains cmp q t = true ↔ ∃ c ∈ cs, c.Agrees keyBit q ∧ cmp c.key q = 0 := by
  obtain ⟨kid0, kid1, rfl, h0, h1⟩ := h.root
  simp only [← h.cells_iff, cells_root]
  have hside : ∀ {kid : Trie κ} {b : Bool}, Side width b kid → keyBit q 0 = b →
      (contains cmp q kid = true ↔
        ∃ c ∈ cells kid, (push 0 c).Agrees keyBit q ∧ cmp c.key q = 0) := by
    rintro kid b (rfl | ⟨hf, hk⟩) hq
    · simp [contains, cells]
    · rw [contains_full cmp hf q hw]
      refine exists_congr fun c => and_congr_right fun hc => ?_
      rw [push_agrees, hq, hk c hc]
      simp
  have hother : ∀ {kid : Trie κ} {b : Bool}, Side width b kid → keyBit q 0 ≠ b →
      ∀ c ∈ cells kid, ¬ (push 0 c).Agrees keyBit q := by
    rintro kid b (rfl | ⟨hf, hk⟩) hq c hc hag
    · simp [cells] at hc
    · exact hq ((push_agrees.mp hag).1.trans (hk c hc))
  have hroot : contains cmp q (node none 0 kid0 kid1) =
      if keyBit q 0 then contains cmp q kid1 else contains cmp q kid0 := by
    have hnb : ¬ 0 ≥ kbits q := by omega
    rw [contains]
    cases hl : isLeaf kid0 kid1 with
    | false => simp only [Bool.false_eq_true, ↓reduceIte, if_neg hnb]
    | true =>
      have e0 : kid0 = null := by_contra fun h => by simp [isLeaf_of_ne_left h] at hl
      have e1 : kid1 = null := by_contra fun h => by simp [isLeaf_of_ne_right h] at hl
      simp [e0, e1, contains]
  rw [hroot]
  cases hq : keyBit q 0 with
  | true =>
    simp only [↓reduceIte]
    rw [hside h1 hq]
    constructor
    · rintro ⟨c, hc, hag, hcmp⟩
      exact ⟨_, ⟨c, Or.inr hc, rfl⟩, hag, hcmp⟩
    · rintro ⟨_, ⟨c, hc | hc, rfl⟩, hag, hcmp⟩
      · exact absurd hag (hother h0 (by simp [hq]) c hc)
      · exact ⟨c, hc, hag, hcmp⟩
  | false =>
    simp only [Bool.false_eq_true, ↓reduceIte]
    rw [hside h0 hq]
    constructor
    · rintro ⟨c, hc, hag, hcmp⟩
      exact ⟨_, ⟨c, Or.inl hc, rfl⟩, hag, hcmp⟩
    · rintro ⟨_, ⟨c, hc | hc, rfl⟩, hag, hcmp⟩
      · exact ⟨c, hc, hag, hcmp⟩
      · exact absurd hag (hother h1 (by simp [hq]) c hc)

/-- The two ways a key can enter the side of the root that its first bit selects. -/
inductive Entered (cmp : κ → κ → Int) (key : κ) (kid : Trie κ) : Trie κ → Prop
  | fresh (h : kid = null) : Entered cmp key kid (create (some key))
  | present {c : Cell κ} (hc : c ∈ cells kid) (hag : c.Agrees keyBit key)
      (hcmp : cmp c.key key = 0) : Entered cmp key kid kid
  | cutAt {c : Cell κ} {i : Nat} {kid' : Trie κ} (hc : c ∈ cells kid) (hag : c.Agrees keyBit key)
      (hcmp : cmp c.key key ≠ 0) (hi : firstDiff keyBit (kbits key) c.key key = some i)
      (hcells : ∀ c', c' ∈ cells kid' ↔ (c' ∈ cells kid ∧ c' ≠ c) ∨ c' ∈ cut c key i) :
      Entered cmp key kid kid'

private theorem side_enter (cmp : κ → κ → Int) {key : κ} {kid : Trie κ} {b : Bool}
    (hs : Side (kbits key) b kid) (hb : keyBit key 0 = b)
    (hdiff : ∀ c ∈ cells kid, cmp c.key key ≠ 0 →
      ∃ i, firstDiff keyBit (kbits key) c.key key = some i) :
    ∃ kid', Side (kbits key) b kid' ∧ Entered cmp key kid kid' ∧
      (kid = null → kid' = create (some key)) ∧
      (kid ≠ null → insertFrom cmp key kid = some kid') := by
  rcases hs with rfl | ⟨hf, hk⟩
  · exact ⟨create (some key), Or.inr ⟨.leaf key 0, by simp [create, cells, isLeaf, hb]⟩,
      .fresh rfl, fun _ => rfl, fun h => absurd rfl h⟩
  · obtain ⟨c, hc⟩ := insertFrom_full cmp hf
    by_cases hcmp : cmp c.key key = 0
    · exact ⟨kid, Or.inr ⟨hf, hk⟩, .present hc.mem hc.agrees hcmp,
        fun h => absurd h hf.ne_null, fun _ => hc.present hcmp⟩
    · obtain ⟨i, hi⟩ := hdiff c hc.mem hcmp
      obtain ⟨kid', hins, hfull, hcells⟩ := hc.cutAt hcmp i hi
      exact ⟨kid', Or.inr ⟨hfull, fun d hd => bit_of_inserted hk hb hc.mem ((hcells d).mp hd)⟩,
        .cutAt hc.mem hc.agrees hcmp hi hcells, fun h => absurd h hf.ne_null, fun _ => hins⟩

/-- Seen from the root, entering one side is one arrival among the cells. -/
private theorem cells_entered [DecidableEq κ] {cmp : κ → κ → Int} {key : κ} {kid kid' other : Trie κ}
    {cs : List (Cell κ)} {b : Bool} (hent : Entered cmp key kid kid')
    (hk : ∀ c ∈ cells kid, keyBit c.key 0 = b) (hb : keyBit key 0 = b)
    (ho : ∀ c ∈ cells other, keyBit c.key 0 ≠ b) (ht : BitCells.Tiling keyBit cs)
    (hcs : ∀ c, (∃ c', (c' ∈ cells other ∨ c' ∈ cells kid) ∧ c = push 0 c') ↔ c ∈ cs) (c : Cell κ) :
    (∃ c', (c' ∈ cells other ∨ c' ∈ cells kid') ∧ c = push 0 c') ↔
      c ∈ BitCells.place keyBit (fun a b => cmp a b = 0) (kbits key) cs key := by
  cases hent with
  | fresh hnull =>
    subst hnull
    have hnone : ∀ d ∈ cs, ¬ d.Agrees keyBit key := by
      intro d hd hag
      obtain ⟨d', hd' | hd', rfl⟩ := (hcs d).mpr hd
      · exact ho d' hd' ((push_agrees.mp hag).1.symm.trans hb)
      · simp [cells] at hd'
    rw [BitCells.place_fresh hnone, List.mem_append, ← hcs c]
    simp [create, cells, isLeaf, push, or_and_right, exists_or]
  | @present d hd hag hcmp =>
    have hin := (hcs (push 0 d)).mp ⟨d, Or.inr hd, rfl⟩
    have hpag : (push 0 d).Agrees keyBit key := push_agrees.mpr ⟨hb.trans (hk d hd).symm, hag⟩
    rw [BitCells.place_covered ht hin hpag (decide_eq_true hcmp), hcs c]
  | @cutAt d i kid' hd hag hcmp hi hcells =>
    have hin := (hcs (push 0 d)).mp ⟨d, Or.inr hd, rfl⟩
    have hpag : (push 0 d).Agrees keyBit key := push_agrees.mpr ⟨hb.trans (hk d hd).symm, hag⟩
    rw [BitCells.place_cut ht hin hpag (decide_eq_false hcmp) (by simpa [push] using hi),
      mem_replaced (fun e he hed => ho e he (by rw [hed]; exact hk d hd)) hcells, hcs c]
    simp [List.mem_append, List.mem_filter]

theorem Side.bits {width : Nat} {b : Bool} {kid : Trie κ} (h : Side width b kid) :
    ∀ c ∈ cells kid, keyBit c.key 0 = b := by
  rcases h with rfl | ⟨-, h⟩
  · simp [cells]
  · exact h

/-- `Trie_insert` is one arrival among the cells, as long as keys that the comparison
tells apart differ in some bit. -/
theorem Realises.insert [DecidableEq κ] (cmp : κ → κ → Int) {width : Nat} {t : Trie κ}
    {cs : List (Cell κ)} (h : Realises width t cs) {key : κ} (hw : kbits key = width)
    (hpos : 0 < width) (hdiff : ∀ c ∈ cs, cmp c.key key ≠ 0 →
      ∃ i, firstDiff keyBit width c.key key = some i) :
    ∃ t', insert cmp t key = some t' ∧
      Realises width t' (BitCells.place keyBit (fun a b => cmp a b = 0) width cs key) := by
  subst hw
  have ht' : BitCells.Tiling keyBit
      (BitCells.place keyBit (fun a b => cmp a b = 0) (kbits key) cs key) := h.tiling.place key
  obtain ⟨kid0, kid1, rfl, h0, h1⟩ := h.root
  have hcs : ∀ c, (∃ c', (c' ∈ cells kid0 ∨ c' ∈ cells kid1) ∧ c = push 0 c') ↔ c ∈ cs :=
    fun c => cells_root.symm.trans (h.cells_iff c)
  cases hb : keyBit key 0 with
  | true =>
    obtain ⟨kid', hside, hent, hnull, hins⟩ := side_enter cmp h1 hb fun c hc hcmp => by
      simpa [push] using hdiff (push 0 c) ((hcs _).mp ⟨c, Or.inr hc, rfl⟩) (by simpa [push])
    refine ⟨node none 0 kid0 kid', ?_, ⟨kid0, kid', rfl, h0, hside⟩, fun c => cells_root.trans
      (cells_entered hent h1.bits hb (fun c hc => by simp [h0.bits c hc]) h.tiling hcs c), ht'⟩
    by_cases hk : kid1 = null
    · rw [hnull hk, hk]
      cases kid0 with
      | null => simp [Trie.insert, hb]
      | node => simp [Trie.insert, insertFrom, isLeaf, hb, Nat.ne_of_gt hpos]
    · have hright : insertFrom cmp key (node none 0 kid0 kid1) =
          (insertFrom cmp key kid1).map (node none 0 kid0 ·) := insertFrom_right hk hpos hb
      cases kid1 with
      | null => exact absurd rfl hk
      | node => simp [Trie.insert, hright, hins hk]
  | false =>
    obtain ⟨kid', hside, hent, hnull, hins⟩ := side_enter cmp h0 hb fun c hc hcmp => by
      simpa [push] using hdiff (push 0 c) ((hcs _).mp ⟨c, Or.inl hc, rfl⟩) (by simpa [push])
    simp only [or_comm (a := _ ∈ cells kid0)] at hcs
    refine ⟨node none 0 kid' kid1, ?_, ⟨kid', kid1, rfl, hside, h1⟩, fun c => cells_root.trans
      (Iff.trans (by simp only [or_comm]) (cells_entered hent h0.bits hb
        (fun c hc => by simp [h1.bits c hc]) h.tiling hcs c)), ht'⟩
    by_cases hk : kid0 = null
    · rw [hnull hk, hk]
      cases kid1 with
      | null => simp [Trie.insert, hb]
      | node => simp [Trie.insert, insertFrom, isLeaf, hb, Nat.ne_of_gt hpos]
    · have hleft : insertFrom cmp key (node none 0 kid0 kid1) =
          (insertFrom cmp key kid0).map (node none 0 · kid1) := insertFrom_left hk hpos hb
      cases kid0 with
      | null => exact absurd rfl hk
      | node => simp [Trie.insert, hleft, hins hk]

end Trie
end Greyd
