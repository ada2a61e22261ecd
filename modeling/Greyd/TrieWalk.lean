import Greyd.Trie

/-!
# The walk of a key through a trie

Insertion and lookup follow the same bits. `walk` is that common loop: the bits it tests
and the node it stops at. An insertion replaces the node where the walk stops, so it is
seen by the queries that take the same walk and by no others.
-/
namespace Greyd.Trie

open BitCells (firstDiff)

variable {κ : Type} [KeyBytes κ]

/-- The bits tested for a key, and the node the loop stops at. -/
def walk (key : κ) : Trie κ → List Nat × Trie κ
  | null => ([], null)
  | node nkey branch kid0 kid1 =>
    if isLeaf kid0 kid1 ∨ branch ≥ kbits key then ([], node nkey branch kid0 kid1)
    else
      let r := if keyBit key branch then walk key kid1 else walk key kid0
      (branch :: r.1, r.2)

/-- The query takes every turn the key takes. -/
def Follows (key q : κ) (t : Trie κ) : Prop := ∀ i ∈ (walk key t).1, keyBit q i = keyBit key i

instance (key q : κ) (t : Trie κ) : Decidable (Follows key q t) :=
  inferInstanceAs (Decidable (∀ i ∈ _, _))

/-- What `Trie_insert` puts in the place of the node it stops at. -/
def land (cmp : κ → κ → Int) (key : κ) : Trie κ → Option (Trie κ)
  | null => some (create (some key))
  | node none _ _ _ => none
  | node (some old) branch kid0 kid1 =>
    if cmp old key = 0 then some (node (some old) branch kid0 kid1) else some (split old key)

/-- Replace the node at the end of a key's walk. -/
def graft (key : κ) (new : Trie κ) : Trie κ → Trie κ
  | null => new
  | node nkey branch kid0 kid1 =>
    if isLeaf kid0 kid1 ∨ branch ≥ kbits key then new
    else if keyBit key branch then node nkey branch kid0 (graft key new kid1)
    else node nkey branch (graft key new kid0) kid1

theorem contains_inner (cmp : κ → κ → Int) {q : κ} {nkey : Option κ} {branch : Nat}
    {kid0 kid1 : Trie κ} (hl : isLeaf kid0 kid1 = false) (hb : ¬ branch ≥ kbits q) :
    contains cmp q (node nkey branch kid0 kid1) =
      if keyBit q branch then contains cmp q kid1 else contains cmp q kid0 := by
  rw [contains.eq_def]
  simp only [hl, Bool.false_eq_true, ↓reduceIte, hb]

theorem graft_ne_null (key : κ) {new : Trie κ} (hnew : new ≠ null) (t : Trie κ) :
    graft key new t ≠ null := by
  cases t with
  | null => exact hnew
  | node nkey branch kid0 kid1 =>
    rw [graft]
    split_ifs
    · exact hnew
    all_goals simp

theorem land_ne_null {cmp : κ → κ → Int} {key : κ} {t new : Trie κ} (h : land cmp key t = some new) :
    new ≠ null := by
  rcases t with _ | ⟨_ | old, branch, kid0, kid1⟩
  · simp only [land, create, Option.some.injEq] at h
    simp [← h]
  · simp [land] at h
  · simp only [land] at h
    split_ifs at h with hcmp
    · simp [← Option.some.inj h]
    · rw [← Option.some.inj h, split]
      split <;> simp

theorem insertFrom_eq_graft (cmp : κ → κ → Int) (key : κ) {t : Trie κ} (ht : t ≠ null) :
    insertFrom cmp key t = (land cmp key (walk key t).2).map (graft key · t) := by
  induction t with
  | null => exact absurd rfl ht
  | node nkey branch kid0 kid1 ih0 ih1 =>
    by_cases hstop : isLeaf kid0 kid1 ∨ branch ≥ kbits key
    · rw [insertFrom.eq_def]
      simp only [walk, graft, hstop, ↓reduceIte, Option.map_id']
      cases nkey <;> rfl
    · rw [insertFrom.eq_def]
      simp only [walk, graft, hstop, ↓reduceIte]
      by_cases hbit : keyBit key branch = true
      · simp only [hbit, ↓reduceIte]
        cases kid1 with
        | null => simp [walk, land, graft]
        | node => rw [ih1 (by simp), Option.map_map]; rfl
      · simp only [hbit]
        cases kid0 with
        | null => simp [walk, land, graft]
        | node => simp [ih0 (by simp), Option.map_map, Function.comp_def]

theorem follows_inner {key q : κ} {nkey : Option κ} {branch : Nat} {kid0 kid1 : Trie κ}
    (hstop : ¬ (isLeaf kid0 kid1 = true ∨ branch ≥ kbits key)) :
    Follows key q (node nkey branch kid0 kid1) ↔ keyBit q branch = keyBit key branch ∧
      Follows key q (if keyBit key branch then kid1 else kid0) := by
  simp only [Follows, walk, hstop, ↓reduceIte, List.forall_mem_cons]
  cases keyBit key branch <;> rfl

/-- A query that follows the key meets what was grafted; any other meets the old trie. -/
theorem contains_graft (cmp : κ → κ → Int) {key q : κ} {new : Trie κ} (hnew : new ≠ null)
    (hw : kbits q = kbits key) (t : Trie κ) :
    contains cmp q (graft key new t) =
      if Follows key q t then contains cmp q new else contains cmp q t := by
  induction t with
  | null => simp [graft, Follows, walk]
  | node nkey branch kid0 kid1 ih0 ih1 =>
    by_cases hstop : isLeaf kid0 kid1 ∨ branch ≥ kbits key
    · simp [graft, Follows, walk, hstop]
    · have hleaf : isLeaf kid0 kid1 = false := by simpa using fun h => hstop (Or.inl h)
      have hb : ¬ branch ≥ kbits q := by rw [hw]; exact fun h => hstop (Or.inr h)
      cases hbit : keyBit key branch with
      | true =>
        have hl := isLeaf_of_ne_right (t := kid0) (graft_ne_null key hnew kid1)
        simp only [graft, hstop, ↓reduceIte, hbit, follows_inner hstop]
        rw [contains_inner cmp hl hb, contains_inner cmp hleaf hb, ih1]
        cases hq : keyBit q branch <;> simp
      | false =>
        have hl := isLeaf_of_ne_left (u := kid1) (graft_ne_null key hnew kid0)
        simp only [graft, hstop, ↓reduceIte, hbit, Bool.false_eq_true, follows_inner hstop]
        rw [contains_inner cmp hl hb, contains_inner cmp hleaf hb, ih0]
        cases hq : keyBit q branch <;> simp

/-- A query that follows the key is answered by the node at the end of its walk. -/
theorem contains_of_follows (cmp : κ → κ → Int) {key q : κ} (hw : kbits q = kbits key)
    {t : Trie κ} (h : Follows key q t) : contains cmp q t = contains cmp q (walk key t).2 := by
  induction t with
  | null => rfl
  | node nkey branch kid0 kid1 ih0 ih1 =>
    by_cases hstop : isLeaf kid0 kid1 ∨ branch ≥ kbits key
    · simp [walk, hstop]
    · have hleaf : isLeaf kid0 kid1 = false := by simpa using fun h => hstop (Or.inl h)
      have hb : ¬ branch ≥ kbits q := by rw [hw]; exact fun h => hstop (Or.inr h)
      obtain ⟨hq, hrest⟩ := (follows_inner hstop).mp h
      simp only [walk, hstop, ↓reduceIte]
      rw [contains_inner cmp hleaf hb, hq]
      cases hbit : keyBit key branch with
      | true => simpa using ih1 (by simpa [hbit] using hrest)
      | false => simpa using ih0 (by simpa [hbit] using hrest)

/-- A split leaf answers with the key that has the query's bit where the two keys differ. -/
theorem contains_split (cmp : κ → κ → Int) {old key q : κ} (hw : kbits q = kbits key) {i : Nat}
    (h : firstDiff keyBit (kbits key) old key = some i) :
    contains cmp q (split old key) = decide (cmp (if keyBit q i = keyBit key i then key else old) q = 0) := by
  obtain ⟨hlt, hne, -⟩ := BitCells.firstDiff_some h
  have hb : ¬ i ≥ kbits q := by omega
  rw [split_eq h]
  cases hk : keyBit key i <;> cases hq : keyBit q i <;>
    simp [contains, isLeaf, create, hb, hq]

/-- Between keys that differ in no bit the loop runs to the end. -/
theorem splitLoop_same {old key : κ} (left bit : Nat) (val : Bool)
    (heq : ∀ j, bit ≤ j → j < bit + left → keyBit old j = keyBit key j) :
    (splitLoop old key left bit val).1 = bit + left := by
  induction left generalizing bit val with
  | zero => rfl
  | succ left ih =>
    rw [splitLoop, if_pos (heq bit (by omega) (by omega)),
      ih (bit + 1) _ fun j hlo hhi => heq j (by omega) (by omega)]
    omega

/-- A leaf that is split by an equal key branches on the bit behind the last. -/
theorem split_same {old key : κ} (h : firstDiff keyBit (kbits key) old key = none) :
    ∃ key0 key1, split old key = node none (kbits key) (create (some key0)) (create (some key1)) := by
  have hend := splitLoop_same (kbits key) 0 false fun j _ hj => BitCells.firstDiff_none h j (by omega)
  rw [Nat.zero_add] at hend
  rw [split]
  generalize splitLoop old key (kbits key) 0 false = r at hend
  obtain ⟨bit, val⟩ := r
  dsimp only at hend
  rw [hend]
  cases val with
  | false => exact ⟨key, old, rfl⟩
  | true => exact ⟨old, key, rfl⟩

/-- Splitting a leaf by an equal key leaves a node that no lookup gets past. -/
theorem contains_split_self (cmp : κ → κ → Int) {old key q : κ} (hw : kbits q = kbits key)
    (h : firstDiff keyBit (kbits key) old key = none) : contains cmp q (split old key) = false := by
  obtain ⟨key0, key1, hsplit⟩ := split_same h
  simp [hsplit, contains, isLeaf, create, hw]

/-! ## From the root -/

/-- In every trie that insertion builds, only leaves carry keys. -/
def KeysAtLeaves : Trie κ → Prop
  | null => True
  | node nkey _ kid0 kid1 =>
    (nkey.isSome → isLeaf kid0 kid1 = true) ∧ KeysAtLeaves kid0 ∧ KeysAtLeaves kid1

omit [KeyBytes κ] in
theorem keysAtLeaves_create (key : Option κ) : KeysAtLeaves (create key) :=
  ⟨fun _ => rfl, trivial, trivial⟩

theorem keysAtLeaves_land {cmp : κ → κ → Int} {key : κ} {t new : Trie κ} (ht : KeysAtLeaves t)
    (h : land cmp key t = some new) : KeysAtLeaves new := by
  rcases t with _ | ⟨_ | old, branch, kid0, kid1⟩
  · rw [← Option.some.inj h]
    exact keysAtLeaves_create _
  · simp [land] at h
  · simp only [land] at h
    split_ifs at h with hcmp
    · rw [← Option.some.inj h]
      exact ht
    · rw [← Option.some.inj h, split]
      split <;> exact ⟨by simp, keysAtLeaves_create _, keysAtLeaves_create _⟩

theorem keysAtLeaves_walk (key : κ) {t : Trie κ} (ht : KeysAtLeaves t) :
    KeysAtLeaves (walk key t).2 := by
  induction t with
  | null => trivial
  | node nkey branch kid0 kid1 ih0 ih1 =>
    rw [walk]
    split_ifs with hstop hbit
    · exact ht
    · exact ih1 ht.2.2
    · exact ih0 ht.2.1

theorem keysAtLeaves_graft (key : κ) {new t : Trie κ} (ht : KeysAtLeaves t)
    (hnew : KeysAtLeaves new) : KeysAtLeaves (graft key new t) := by
  induction t with
  | null => exact hnew
  | node nkey branch kid0 kid1 ih0 ih1 =>
    rw [graft]
    split_ifs with hstop hbit
    · exact hnew
    all_goals
      have hkey : nkey.isSome = false := by
        by_contra hs
        exact hstop (Or.inl (ht.1 (by simpa [Option.isSome_iff_ne_none] using hs)))
    · exact ⟨by simp [hkey], ht.2.1, ih1 ht.2.2⟩
    · exact ⟨by simp [hkey], ih0 ht.2.1, ht.2.2⟩

/-- The root of a trie made by `Trie_create` without a key. -/
structure Rooted (t kid0 kid1 : Trie κ) : Prop where
  root : t = node none 0 kid0 kid1
  keys0 : KeysAtLeaves kid0
  keys1 : KeysAtLeaves kid1

/-- The side of the root a key belongs to. -/
def side (key : κ) (kid0 kid1 : Trie κ) : Trie κ := if keyBit key 0 then kid1 else kid0

theorem contains_root (cmp : κ → κ → Int) {q : κ} (hpos : 0 < kbits q) (kid0 kid1 : Trie κ) :
    contains cmp q (node none 0 kid0 kid1) = contains cmp q (side q kid0 kid1) := by
  have hb : ¬ 0 ≥ kbits q := by omega
  rw [contains, side]
  cases hl : isLeaf kid0 kid1 with
  | false => simp only [Bool.false_eq_true, ↓reduceIte, if_neg hb]; split <;> rfl
  | true =>
    have h0 : kid0 = null := by_contra fun h => by simp [isLeaf_of_ne_left h] at hl
    have h1 : kid1 = null := by_contra fun h => by simp [isLeaf_of_ne_right h] at hl
    simp [h0, h1, contains]

/-- `Trie_insert` seen from the root: the side of the key is grafted. -/
theorem insert_root (cmp : κ → κ → Int) {key : κ} (hpos : 0 < kbits key) (kid0 kid1 : Trie κ) :
    insert cmp (node none 0 kid0 kid1) key =
      (land cmp key (walk key (side key kid0 kid1)).2).map fun new =>
        if keyBit key 0 then node none 0 kid0 (graft key new kid1)
        else node none 0 (graft key new kid0) kid1 := by
  by_cases hl : isLeaf kid0 kid1 = true
  · have h0 : kid0 = null := by_contra fun h => by simp [isLeaf_of_ne_left h] at hl
    have h1 : kid1 = null := by_contra fun h => by simp [isLeaf_of_ne_right h] at hl
    subst h0 h1
    by_cases hbit : keyBit key 0 = true <;> simp [insert, side, walk, land, graft, hbit]
  · have hins : insert cmp (node none 0 kid0 kid1) key =
        insertFrom cmp key (node none 0 kid0 kid1) := by
      cases kid0 <;> cases kid1 <;> simp_all [insert, isLeaf]
    have hstop : ¬ (isLeaf kid0 kid1 = true ∨ 0 ≥ kbits key) := by
      rintro (h | h)
      · exact hl h
      · omega
    rw [hins, insertFrom_eq_graft cmp key (by simp), side]
    simp only [walk, graft, hstop, ↓reduceIte]
    by_cases hbit : keyBit key 0 = true <;> simp [hbit]

/-- The query belongs to the key's side of the root and follows it there. -/
def Joins (key q : κ) (kid0 kid1 : Trie κ) : Prop :=
  keyBit q 0 = keyBit key 0 ∧ Follows key q (side key kid0 kid1)

instance (key q : κ) (kid0 kid1 : Trie κ) : Decidable (Joins key q kid0 kid1) :=
  inferInstanceAs (Decidable (_ ∧ _))

/-- One insertion: the trie keeps its shape, and a query sees the change only when it
joins the key, in which case the new node answers. -/
theorem insert_spec (cmp : κ → κ → Int) {t t' kid0 kid1 : Trie κ} {key : κ}
    (ht : Rooted t kid0 kid1) (hpos : 0 < kbits key) (h : insert cmp t key = some t') :
    ∃ new, land cmp key (walk key (side key kid0 kid1)).2 = some new ∧
      (∃ kid0' kid1', Rooted t' kid0' kid1') ∧
      ∀ q, kbits q = kbits key →
        contains cmp q t' = if Joins key q kid0 kid1 then contains cmp q new else contains cmp q t := by
  obtain ⟨rfl, h0, h1⟩ := ht
  rw [insert_root cmp hpos] at h
  obtain ⟨new, hnew, rfl⟩ := Option.map_eq_some_iff.mp h
  have hside : KeysAtLeaves (side key kid0 kid1) := by rw [side]; split <;> assumption
  have hkeys : KeysAtLeaves new := keysAtLeaves_land (keysAtLeaves_walk key hside) hnew
  refine ⟨new, hnew, ?_, fun q hw => ?_⟩
  · by_cases hbit : keyBit key 0 = true
    · exact ⟨_, _, by simp [hbit], h0, keysAtLeaves_graft key h1 hkeys⟩
    · exact ⟨_, _, by simp [hbit], keysAtLeaves_graft key h0 hkeys, h1⟩
  · have hpos' : 0 < kbits q := by omega
    have hgraft := contains_graft cmp (land_ne_null hnew) hw
    by_cases hbit : keyBit key 0 = true <;> by_cases hq : keyBit q 0 = true <;>
      simp [hbit, hq, contains_root cmp hpos', Joins, side, hgraft]

end Greyd.Trie
