import Mathlib.Tactic
import Greyd.Trie

/-!
# The trie as a set of byte keys (trie.c)

What a trie with the default comparison answers after a sequence of insertions of keys of
one length, whether it was created empty or with a first key.
-/
namespace Greyd

open BitCells (Cell firstDiff)

/-- `memcmp`, over keys of one length. -/
def memcmp : List Byte → List Byte → Int
  | a :: as, b :: bs => if a = b then memcmp as bs else (a.toNat : Int) - b.toNat
  | _, _ => 0

def bytecmp (a b : List Byte) : Int :=
  if a.length ≠ b.length then (if a.length > b.length then 1 else -1) else memcmp a b

theorem memcmp_eq_zero {a b : List Byte} (hlen : a.length = b.length) : memcmp a b = 0 ↔ a = b := by
  induction a generalizing b with
  | nil =>
    cases b with
    | nil => exact iff_of_true rfl rfl
    | cons y b => simp at hlen
  | cons x a ih =>
    cases b with
    | nil => simp at hlen
    | cons y b =>
      rw [memcmp, List.cons.injEq]
      by_cases hxy : x = y
      · rw [if_pos hxy, ih (Nat.succ.inj hlen)]
        exact ⟨fun h => ⟨hxy, h⟩, And.right⟩
      · rw [if_neg hxy]
        have hne : x.toNat ≠ y.toNat := fun h => hxy (BitVec.eq_of_toNat_eq h)
        refine iff_of_false ?_ fun h => hxy h.1
        omega

theorem bytecmp_eq_zero {a b : List Byte} : bytecmp a b = 0 ↔ a = b := by
  rw [bytecmp]
  by_cases hlen : a.length = b.length
  · rw [if_neg (not_not_intro hlen), memcmp_eq_zero hlen]
  · rw [if_pos hlen]
    refine iff_of_false ?_ fun h => hlen (congrArg List.length h)
    split <;> decide

namespace Trie

/-- A sequence of `Trie_insert` calls. -/
def insertAll (trie : Trie (List Byte)) (keys : List (List Byte)) : Option (Trie (List Byte)) :=
  keys.foldlM (insert bytecmp) trie

/-- Different keys of one length differ in a bit. -/
theorem exists_firstDiff {n : Nat} {a b : List Byte} (ha : a.length = n) (hb : b.length = n)
    (hne : a ≠ b) : ∃ i, firstDiff keyBit (n * 8) a b = some i := by
  cases hf : firstDiff keyBit (n * 8) a b with
  | some i => exact ⟨i, rfl⟩
  | none =>
    refine absurd (bytes_eq_of_bits (ha.trans hb.symm) fun j hj => ?_) hne
    exact BitCells.firstDiff_none hf j (ha ▸ hj)

theorem insert_full (cmp : List Byte → List Byte → Int) {width : Nat} {t : Trie (List Byte)}
    (h : Full width t) (key : List Byte) : insert cmp t key = insertFrom cmp key t := by
  cases h with
  | leaf k branch => rfl
  | branch hb h0 h1 =>
    cases h0 with
    | leaf => rfl
    | branch => rfl

/-- The trie stores these keys, each of `n` bytes. The root of a trie that was created empty
has no key of its own. -/
structure Stores (n : Nat) (t : Trie (List Byte)) (S : Set (List Byte)) : Prop where
  shape : Full (n * 8) t ∨ ∃ cs, Realises (n * 8) t cs
  keys : ∀ k, (∃ c ∈ cells t, c.key = k) ↔ k ∈ S
  lengths : ∀ k ∈ S, k.length = n

namespace Stores

variable {n : Nat} {t : Trie (List Byte)} {S : Set (List Byte)}

theorem create_none (n : Nat) : Stores n (create none) ∅ :=
  ⟨.inr ⟨[], realises_create _⟩, by simp [create, cells, isLeaf], fun k h => h.elim⟩

theorem create_some {key : List Byte} (h : key.length = n) : Stores n (create (some key)) {key} :=
  ⟨.inl (.leaf key 0), by simp [create, cells, isLeaf, eq_comm], fun k hk => hk ▸ h⟩

theorem key_length (h : Stores n t S) {c : Cell (List Byte)} (hc : c ∈ cells t) : c.key.length = n :=
  h.lengths _ ((h.keys _).mp ⟨c, hc, rfl⟩)

/-- An insertion adds its key, and reads no key that is NULL. -/
theorem insert (h : Stores n t S) (hn : 1 ≤ n) {key : List Byte} (hkey : key.length = n) :
    ∃ t', Trie.insert bytecmp t key = some t' ∧ Stores n t' (Insert.insert key S) := by
  have hbits : kbits key = n * 8 := congrArg (· * 8) hkey
  have hlengths : ∀ k ∈ Insert.insert key S, k.length = n := by
    intro k hk
    rcases hk with rfl | hk
    · exact hkey
    · exact h.lengths k hk
  have hdiff {c : Cell (List Byte)} (hc : c ∈ cells t) (hne : bytecmp c.key key ≠ 0) :
      ∃ i, firstDiff keyBit (n * 8) c.key key = some i :=
    exists_firstDiff (h.key_length hc) hkey fun he => hne (bytecmp_eq_zero.mpr he)
  rcases h.shape with hfull | ⟨cs, hcells⟩
  · rw [insert_full bytecmp hfull]
    rw [← hbits] at hfull
    obtain ⟨c, hc⟩ := insertFrom_full bytecmp hfull
    by_cases hcmp : bytecmp c.key key = 0
    · have hmem : key ∈ S := (h.keys key).mp ⟨c, hc.mem, bytecmp_eq_zero.mp hcmp⟩
      exact ⟨t, hc.present hcmp, h.shape, by rw [Set.insert_eq_of_mem hmem]; exact h.keys, hlengths⟩
    · obtain ⟨i, hi⟩ := hdiff hc.mem hcmp
      rw [← hbits] at hi
      obtain ⟨t', hins, hfull', hcut⟩ := hc.cutAt hcmp i hi
      refine ⟨t', hins, .inl (hbits ▸ hfull'), fun k => ?_, hlengths⟩
      simp only [hcut]
      rw [BitCells.exists_key_cut (P := (· ∈ cells t)) hc.mem, h.keys k, or_comm]
      rfl
  · simp only [hcells.cells_iff] at hdiff
    obtain ⟨t', hins, hcells'⟩ := hcells.insert bytecmp hbits (by omega) fun c => hdiff
    refine ⟨t', hins, .inr ⟨_, hcells'⟩, fun k => ?_, hlengths⟩
    simp only [hcells'.cells_iff]
    rw [BitCells.exists_key_place, or_comm]
    · simp only [← hcells.cells_iff]
      rw [h.keys k]
      rfl
    · exact fun c _ hcov => bytecmp_eq_zero.mp (of_decide_eq_true hcov)
    · exact fun c hc hcov => hdiff hc (of_decide_eq_false hcov)

/-- A query of the keys' length is answered by membership. -/
theorem contains_iff (h : Stores n t S) (hn : 1 ≤ n) {q : List Byte} (hq : q.length = n) :
    contains bytecmp q t = true ↔ q ∈ S := by
  have hbits : kbits q = n * 8 := congrArg (· * 8) hq
  have hleaf : contains bytecmp q t = true ↔
      ∃ c ∈ cells t, c.Agrees keyBit q ∧ bytecmp c.key q = 0 := by
    rcases h.shape with hfull | ⟨cs, hcells⟩
    · exact contains_full bytecmp hfull q hbits.ge
    · simp only [hcells.cells_iff]
      exact hcells.contains_iff bytecmp q hbits.ge (by omega)
  rw [hleaf, ← h.keys q]
  constructor
  · intro ⟨c, hc, _, hcmp⟩
    exact ⟨c, hc, bytecmp_eq_zero.mp hcmp⟩
  · intro ⟨c, hc, hkey⟩
    subst hkey
    exact ⟨c, hc, fun _ _ => rfl, bytecmp_eq_zero.mpr rfl⟩

theorem insertAll (h : Stores n t S) (hn : 1 ≤ n) {keys : List (List Byte)}
    (hkeys : ∀ k ∈ keys, k.length = n) :
    ∃ t', Trie.insertAll t keys = some t' ∧ Stores n t' (S ∪ {k | k ∈ keys}) := by
  induction keys generalizing t S with
  | nil => exact ⟨t, rfl, by simpa using h⟩
  | cons k keys ih =>
    rw [List.forall_mem_cons] at hkeys
    obtain ⟨t₁, hins, h₁⟩ := h.insert hn hkeys.1
    obtain ⟨t₂, hrest, h₂⟩ := ih h₁ hkeys.2
    have hset : Insert.insert k S ∪ {x | x ∈ keys} = S ∪ {x | x ∈ k :: keys} := by
      ext x
      simp only [Set.mem_union, Set.mem_insert_iff, Set.mem_ofPred_eq, List.mem_cons]
      tauto
    rw [hset] at h₂
    refine ⟨t₂, ?_, h₂⟩
    rw [Trie.insertAll, List.foldlM_cons, hins]
    exact hrest

end Stores

/-- Every insertion succeeds, and exactly the keys that were inserted, the first one
included, are found afterwards. -/
theorem insertAll_contains {n : Nat} (hn : 1 ≤ n) (first : Option (List Byte))
    (keys : List (List Byte)) (hfirst : ∀ k ∈ first, k.length = n) (hkeys : ∀ k ∈ keys, k.length = n) :
    ∃ t, insertAll (create first) keys = some t ∧ ∀ q, q.length = n →
      (contains bytecmp q t = true ↔ q ∈ keys ∨ first = some q) := by
  have hcreate : Stores n (create first) {k | first = some k} := by
    cases first with
    | none => simpa using Stores.create_none n
    | some key =>
      have hset : {k | some key = some k} = {key} := by
        ext k
        simp [eq_comm]
      rw [hset]
      exact .create_some (hfirst key rfl)
  obtain ⟨t, hins, ht⟩ := hcreate.insertAll hn hkeys
  refine ⟨t, hins, fun q hq => ?_⟩
  rw [ht.contains_iff hn hq, Set.mem_union, or_comm]
  rfl

theorem insertAll_contains_duplicate :
    ∃ t, insertAll (create (some [10])) [[200], [10], [200], [11]] = some t ∧ ∀ q, q.length = 1 →
      (contains bytecmp q t = true ↔ q ∈ [[200], [10], [200], [11]] ∨ some [10] = some q) :=
  insertAll_contains (by decide) (some [10]) _ (by decide) (by decide)

end Trie
end Greyd
