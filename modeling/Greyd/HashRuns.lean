import Greyd.Hash
import Mathlib.Data.List.Dedup

/-!
# Sequences of insertions into a hash table (hash.c)

A table that has only been inserted into holds the last value of every key, through any
number of resizes. Keys that are not there are told apart by free slots only, and a table
may be completely full.
-/
namespace Greyd

open LinearProbing (Passes Found Content nth)

section
variable {α : Type}

def hashInsertAll (hash : Hash α) (pairs : List (CStr × α)) : Hash α :=
  pairs.foldl (fun hash p => hashInsert hash p.1 p.2) hash

/-- The map that holds the last value of every key. -/
def lastValues (pairs : List (CStr × α)) : CStr → Option α :=
  pairs.foldl (fun f p => Function.update f p.1 (some p.2)) fun _ => none

theorem lastValues_append (pairs : List (CStr × α)) (key : CStr) (value : α) :
    lastValues (pairs ++ [(key, value)]) = Function.update (lastValues pairs) key (some value) := by
  rw [lastValues, List.foldl_append]
  rfl

theorem lastValues_ne_none (pairs : List (CStr × α)) (key : CStr) :
    lastValues pairs key ≠ none ↔ key ∈ pairs.map Prod.fst := by
  induction pairs using List.reverseRecOn with
  | nil => simp [lastValues]
  | append_singleton pairs p ih =>
    rw [lastValues_append, List.map_append, List.mem_append, ← ih]
    by_cases hk : key = p.1 <;> simp [hk]

theorem lastValues_split (before after : List (CStr × α)) {key : CStr} (value : α)
    (h : key ∉ after.map Prod.fst) :
    lastValues (before ++ (key, value) :: after) key = some value := by
  induction after using List.reverseRecOn with
  | nil => rw [lastValues_append, Function.update_self]
  | append_singleton after p ih =>
    rw [List.map_append, List.mem_append, not_or] at h
    have hne : key ≠ p.1 := fun he => h.2 (List.mem_singleton.mpr he)
    rw [← List.cons_append, ← List.append_assoc, lastValues_append, Function.update_of_ne hne]
    exact ih h.1

/-- Insertions from the start keep the table at the last values. -/
theorem holds_insertAll {size : Nat} (hpos : 0 < size) (pairs : List (CStr × α))
    (hkeys : ∀ p ∈ pairs, p.1.length ≤ maxKeyLen) :
    Holds (hashInsertAll (hashCreate size) pairs) (lastValues pairs) := by
  induction pairs using List.reverseRecOn with
  | nil => exact holds_create hpos
  | append_singleton pairs p ih =>
    have hold := ih fun q hq => hkeys q (List.mem_append_left _ hq)
    rw [lastValues_append, hashInsertAll, List.foldl_append]
    exact .inl (hold.insert (hkeys p (by simp)) p.2)

section holds
variable {hash : Hash α} {f : CStr → Option α}

theorem HoldsTable.nodup_keys (h : HoldsTable hash f) : (hashKeys hash).Nodup := by
  have heq : hashKeys hash = (hash.entries.filterMap id).map Prod.fst := by
    rw [hashKeys, List.map_filterMap]
    rfl
  rw [heq]
  exact h.probed.nodup_keys

theorem mem_hashKeys {key : CStr} : key ∈ hashKeys hash ↔ ∃ v, some (key, v) ∈ hash.entries := by
  simp [hashKeys]

theorem HoldsTable.mem_keys (h : HoldsTable hash f) (key : CStr) :
    key ∈ hashKeys hash ↔ f key ≠ none := by
  rw [mem_hashKeys, Option.ne_none_iff_exists']
  exact exists_congr fun v => by rw [← LinearProbing.content_iff_mem, h.content]

theorem length_hashKeys (hash : Hash α) :
    (hashKeys hash).length = hash.entries.countP Option.isSome := by
  rw [hashKeys, List.length_filterMap_eq_countP]
  simp

theorem HoldsTable.count_keys (h : HoldsTable hash f) : hash.numEntries = (hashKeys hash).length := by
  rw [length_hashKeys, h.count_eq]

end holds

/-- `Hash_get` returns what a key was inserted with last, and keys are counted and listed
once each. -/
theorem hash_inserts_kept (size : Nat) (hpos : 0 < size) (pairs : List (CStr × α))
    (hkeys : ∀ p ∈ pairs, p.1.length ≤ maxKeyLen) :
    (∀ before key value after, pairs = before ++ (key, value) :: after →
        key ∉ after.map Prod.fst →
        hashGet (hashInsertAll (hashCreate size) pairs) key = some value) ∧
      (hashInsertAll (hashCreate size) pairs).numEntries = (pairs.map Prod.fst).dedup.length ∧
      (hashInsertAll (hashCreate size) pairs).numEntries ≤
        (hashInsertAll (hashCreate size) pairs).size ∧
      (hashKeys (hashInsertAll (hashCreate size) pairs)).Perm (pairs.map Prod.fst).dedup := by
  have hholds := holds_insertAll hpos pairs hkeys
  refine ⟨?_, ?_⟩
  · rintro before key value after rfl hlast
    exact hholds.get (lastValues_split before after value hlast)
  · rcases hholds with h | ⟨-, hnull, hf⟩
    · have hperm : (hashKeys (hashInsertAll (hashCreate size) pairs)).Perm
          (pairs.map Prod.fst).dedup := by
        rw [List.perm_ext_iff_of_nodup h.nodup_keys (List.nodup_dedup _)]
        intro key
        rw [h.mem_keys, lastValues_ne_none, List.mem_dedup]
      refine ⟨by rw [h.count_keys, hperm.length_eq], ?_, hperm⟩
      rw [h.count_eq, ← h.length_eq]
      exact List.countP_le_length
    · have hnil : pairs = [] := by
        rw [List.eq_nil_iff_forall_not_mem]
        intro p hp
        exact (lastValues_ne_none pairs p.1).mpr (List.mem_map_of_mem hp) (congrFun hf p.1)
      subst hnil
      exact ⟨rfl, Nat.zero_le _, .nil⟩

theorem hash_inserts_kept_twice :
    hashGet (hashInsertAll (hashCreate 1) [("a".toList, 1), ("b".toList, 2), ("a".toList, 3)])
      "a".toList = some 3 :=
  (hash_inserts_kept 1 (by decide) [("a".toList, 1), ("b".toList, 2), ("a".toList, 3)]
    (by decide)).1 [("a".toList, 1), ("b".toList, 2)] "a".toList 3 [] rfl List.not_mem_nil

/-! ## Keys that are not there -/

/-- The counter counts the slots that are taken, whatever the keys are. -/
structure Counted (hash : Hash α) : Prop where
  pos : 0 < hash.size
  length_eq : hash.entries.length = hash.size
  count_eq : hash.numEntries = hash.entries.countP Option.isSome

theorem Counted.empty {size : Nat} (hpos : 0 < size) :
    Counted (⟨size, 0, List.replicate size none⟩ : Hash α) :=
  ⟨hpos, by simp, by simp [List.countP_replicate]⟩

theorem Counted.put {hash : Hash α} (h : Counted hash) (key : CStr) (value : α) :
    Counted (hashPut hash key value) := by
  have hlt : hashFindEntry hash key < hash.entries.length := by
    rw [h.length_eq]
    exact hashFindEntry_lt h.pos key
  exact ⟨h.pos, by simp [hashPut, h.length_eq], hashPut_count hlt h.count_eq value⟩

theorem Counted.putAll {hash : Hash α} (h : Counted hash) (es : List (CStr × α)) :
    Counted (es.foldl (fun h e => hashPut h e.1 e.2) hash) := by
  induction es generalizing hash with
  | nil => exact h
  | cons e es ih => exact ih (h.put e.1 e.2)

/-- Before the first insertion there are no slots at all. -/
def Hash.Unused (hash : Hash α) : Prop := 0 < hash.size ∧ hash.entries = [] ∧ hash.numEntries = 0

theorem Counted.insert {hash : Hash α} (h : hash.Unused ∨ Counted hash) (key : CStr) (value : α) :
    Counted (hashInsert hash key value) := by
  refine Counted.put ?_ key value
  rw [hashRoom]
  rcases h with ⟨hpos, hnull, -⟩ | h
  · rw [if_pos hnull]
    exact .empty hpos
  · have hne : hash.entries ≠ [] := by
      intro hnil
      have hlen := h.length_eq
      have hpos := h.pos
      rw [hnil, List.length_nil] at hlen
      omega
    rw [if_neg hne]
    split_ifs
    · have hpos := h.pos
      rw [hashResize, if_neg (by omega)]
      exact Counted.putAll (.empty (by omega)) _
    · exact h

theorem unused_or_counted {size : Nat} (hpos : 0 < size) (pairs : List (CStr × α)) :
    (hashInsertAll (hashCreate size) pairs).Unused ∨
      Counted (hashInsertAll (hashCreate size) pairs) := by
  induction pairs using List.reverseRecOn with
  | nil => exact .inl ⟨hpos, rfl, rfl⟩
  | append_singleton pairs p ih =>
    rw [hashInsertAll, List.foldl_append]
    exact .inr (.insert ih p.1 p.2)

/-- The slot a search ends at is not taken. -/
theorem absent_iff_slot (hash : Hash α) (key : CStr) :
    (hashGet hash key = none ∧ hashDelete hash key = hash) ↔
      ∀ e, hash.entries[hashFindEntry hash key]? ≠ some (some e) := by
  rw [hashGet, hashDelete]
  rcases hs : hash.entries[hashFindEntry hash key]? with _ | _ | e
  · simp
  · simp
  · simp

/-- A search for a key ends at no entry where there is a free slot, and one in front of
every entry that is stored under the key. -/
theorem Counted.absent_iff {hash : Hash α} (h : Counted hash) (key : CStr) :
    (∀ e, hash.entries[hashFindEntry hash key]? ≠ some (some e)) ↔
      hash.numEntries < hash.size ∧
        ∀ t v, hash.entries[nth hashLookup hash.entries key t]? = some (some (key, v)) →
          ∃ t' < t, hash.entries[nth hashLookup hash.entries key t']? = some none := by
  have hlen := h.length_eq
  have hpos := h.pos
  constructor
  · intro hslot
    have hlt : hashFindEntry hash key < hash.entries.length := by
      rw [hlen]
      exact hashFindEntry_lt hpos key
    have hfree : hash.entries[hashFindEntry hash key]? = some none := by
      rcases hs : hash.entries[hashFindEntry hash key] with _ | e
      · rw [List.getElem?_eq_getElem hlt, hs]
      · exact absurd (by rw [List.getElem?_eq_getElem hlt, hs]) (hslot e)
    refine ⟨?_, fun t v ht => ?_⟩
    · rw [h.count_eq, ← hlen, List.countP_lt_length_iff]
      exact ⟨none, List.mem_of_getElem? hfree, rfl⟩
    · by_contra hnone
      push Not at hnone
      have hfound : Found hashLookup hash.entries key (hashFindEntry hash key) := by
        refine hashFindEntry_found hlen hpos ⟨t % hash.entries.length, Nat.mod_lt _ (by omega), ?_⟩
        rw [nth, Nat.add_mod_mod]
        exact LinearProbing.not_passes_of_slot ht
      obtain ⟨u, hu, hpath⟩ := hfound.path
      rcases lt_trichotomy u t with hlt | rfl | hlt
      · exact hnone u hlt (hu ▸ hfree)
      · rw [← hu, hfree] at ht
        simp at ht
      · exact LinearProbing.not_passes_of_slot ht (hpath t hlt)
  · rintro ⟨hroom, hbehind⟩ ⟨k, v⟩ hslot
    have hfree : none ∈ hash.entries := none_mem_of_count_lt (by rw [← h.count_eq, hlen]; exact hroom)
    have hfound := hashFindEntry_found hlen hpos (LinearProbing.exists_stop hfree key)
    obtain ⟨t, ht, hpath⟩ := hfound.path
    have hkey : k = key := by
      by_contra hne
      exact hfound.stops ⟨k, v, hslot, hne⟩
    rw [hkey, ht] at hslot
    obtain ⟨t', hlt, hnone⟩ := hbehind t v hslot
    obtain ⟨k', v', htaken, -⟩ := hpath t' hlt
    rw [hnone] at htaken
    simp at htaken

/-- `Hash_get` finds nothing under a key and `Hash_delete` does nothing exactly when there is
a free slot, and one in front of every entry that is stored under the key. Where no key is
cut, the second is so for every key that was not inserted. -/
theorem absent_key_iff (size : Nat) (hpos : 0 < size) (pairs : List (CStr × α)) (key : CStr) :
    let hash := hashInsertAll (hashCreate size) pairs
    ((hashGet hash key = none ∧ hashDelete hash key = hash) ↔
        hash.numEntries < hash.size ∧
          ∀ t v, hash.entries[nth hashLookup hash.entries key t]? = some (some (key, v)) →
            ∃ t' < t, hash.entries[nth hashLookup hash.entries key t']? = some none) ∧
      ((∀ p ∈ pairs, p.1.length ≤ maxKeyLen) → key ∉ pairs.map Prod.fst →
        ((hashGet hash key = none ∧ hashDelete hash key = hash) ↔ hash.numEntries < hash.size)) := by
  intro hash
  have hiff : (hashGet hash key = none ∧ hashDelete hash key = hash) ↔
      hash.numEntries < hash.size ∧
        ∀ t v, hash.entries[nth hashLookup hash.entries key t]? = some (some (key, v)) →
          ∃ t' < t, hash.entries[nth hashLookup hash.entries key t']? = some none := by
    rw [absent_iff_slot]
    rcases unused_or_counted hpos pairs with ⟨hsize, hnull, hnum⟩ | h
    · refine iff_of_true (fun e => ?_) ⟨?_, fun t v ht => ?_⟩
      · rw [hnull]
        simp
      · show Hash.numEntries (hashInsertAll (hashCreate size) pairs) < _
        rw [hnum]
        exact hsize
      · rw [hnull] at ht
        simp at ht
    · exact h.absent_iff key
  refine ⟨hiff, fun hkeys habsent => hiff.trans (and_iff_left fun t v ht => ?_)⟩
  have hf := ((holds_insertAll hpos pairs hkeys).content_iff key v).mp (List.mem_of_getElem? ht)
  exact absurd ((lastValues_ne_none pairs key).mp (by rw [hf]; simp)) habsent

theorem absent_key_iff_room :
    hashGet (hashInsertAll (hashCreate 2) [("a".toList, 1)]) "b".toList = none ∧
      hashDelete (hashInsertAll (hashCreate 2) [("a".toList, 1)]) "b".toList =
        hashInsertAll (hashCreate 2) [("a".toList, 1)] :=
  ((absent_key_iff 2 (by decide) [("a".toList, 1)] "b".toList).2 (by decide) (by decide)).mpr
    (by decide)

/-- One key fills a table of one slot, and is found and deleted under any other. -/
theorem full_table_finds_absent :
    ¬ (hashGet (hashInsertAll (hashCreate 1) [("a".toList, 1)]) "b".toList = none ∧
      hashDelete (hashInsertAll (hashCreate 1) [("a".toList, 1)]) "b".toList =
        hashInsertAll (hashCreate 1) [("a".toList, 1)]) := by
  have hget : hashGet (hashInsertAll (hashCreate 1) [("a".toList, 1)]) "b".toList = some 1 := by
    decide
  rw [hget]
  intro hgiven
  obtain ⟨hnone, -⟩ := hgiven
  cases hnone

end

end Greyd
