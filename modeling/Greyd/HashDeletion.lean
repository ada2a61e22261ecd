import Greyd.HashRuns

/-!
# Deletions from a hash table (hash.c)

`Hash_delete` frees a slot and leaves everything behind it where it is. A search that comes
past the slot ends there from then on.
-/
namespace Greyd

open LinearProbing (Passes Found Content Clear nth)

section
variable {α : Type}

/-! ## One deletion -/

/-- The deletion of this key takes the key and nothing else: there is a free slot, and no
search for another key comes past the slot of this one. -/
def Hash.Deletable (hash : Hash α) (key : CStr) : Prop :=
  hash.numEntries < hash.size ∧
    ∀ i v, hash.entries[i]? = some (some (key, v)) → Clear hashLookup hash.entries i

/-- Every other key is found as before, and an insertion under a key that is still there
adds no second entry. -/
structure DeletionLocal (hash : Hash α) (key : CStr) : Prop where
  get : ∀ key', key' ≠ key → hashGet (hashDelete hash key) key' = hashGet hash key'
  insert : ∀ key' ∈ hashKeys (hashDelete hash key), ∀ value,
    (hashKeys (hashInsert (hashDelete hash key) key' value)).Perm (hashKeys (hashDelete hash key))

section table
variable {hash : Hash α} {f : CStr → Option α}

theorem hashDelete_of_get_none {key : CStr} (hget : hashGet hash key = none) :
    hashDelete hash key = hash := by
  rw [hashGet] at hget
  rw [hashDelete]
  rcases hs : hash.entries[hashFindEntry hash key]? with _ | _ | e
  · rfl
  · rfl
  · rw [hs] at hget
    cases hget

theorem HoldsTable.slot_of_bound (h : HoldsTable hash f) {key : CStr} {v : α} (hk : f key = some v) :
    hash.entries[hashFindEntry hash key]? = some (some (key, v)) := by
  obtain ⟨i, hi⟩ := (h.content key v).mpr hk
  rw [(h.found_of_bound hk).unique (h.probed i key v hi), hi]

theorem hashDelete_bound (h : HoldsTable hash f) {key : CStr} {v : α} (hk : f key = some v) :
    hashDelete hash key =
      ⟨hash.size, hash.numEntries - 1, hash.entries.set (hashFindEntry hash key) none⟩ := by
  rw [hashDelete, h.slot_of_bound hk]

theorem hashDelete_entries (h : HoldsTable hash f) {key : CStr} {v : α} (hk : f key = some v) :
    (hashDelete hash key).entries = hash.entries.set (hashFindEntry hash key) none := by
  rw [hashDelete_bound h hk]

/-- Nothing is stored under a key that is too long for a slot. -/
theorem HoldsTable.long_absent (h : HoldsTable hash f) {key : CStr} (hlong : maxKeyLen < key.length) :
    f key = none := by
  by_contra hne
  exact absurd (h.keys_short key hne) (by omega)

/-- A deletion that no search minds takes the key out of the map. -/
theorem HoldsTable.delete (h : HoldsTable hash f) {key : CStr} {v : α} (hk : f key = some v)
    (hclear : Clear hashLookup hash.entries (hashFindEntry hash key)) :
    HoldsTable (hashDelete hash key) (Function.update f key none) := by
  have hslot := h.slot_of_bound hk
  have hlt : hashFindEntry hash key < hash.entries.length := (h.found_of_bound hk).lt
  rw [hashDelete_bound h hk]
  refine ⟨h.pos, by simp [h.length_eq], ?_, h.probed.emptied hclear, fun k w => ?_, fun k hne => ?_⟩
  · have hget : hash.entries[hashFindEntry hash key] = some (key, v) := by
      rw [List.getElem?_eq_getElem hlt] at hslot
      exact Option.some.inj hslot
    simp only [List.countP_set hlt, hget, h.count_eq, Option.isSome_some, Option.isSome_none,
      ↓reduceIte]
    simp
  · rw [h.probed.content_emptied hslot, h.content]
    by_cases hkk : k = key
    · simp [hkk]
    · simp [hkk]
  · by_cases hkk : k = key
    · exact hkk ▸ h.keys_short key (by rw [hk]; simp)
    · exact h.keys_short k (by simpa [hkk] using hne)

/-- An insertion under a key of the table keeps the keys. -/
theorem HoldsTable.keys_insert (h : HoldsTable hash f) {key : CStr} (hk : f key ≠ none) (value : α) :
    (hashKeys (hashInsert hash key value)).Perm (hashKeys hash) := by
  have hnew := Holds.insert (.inl h) (h.keys_short key hk) value
  rw [List.perm_ext_iff_of_nodup hnew.nodup_keys h.nodup_keys]
  intro k
  rw [hnew.mem_keys, h.mem_keys]
  by_cases hkk : k = key
  · subst hkk
    simp [hk]
  · rw [Function.update_of_ne hkk]

theorem HoldsTable.deletionLocal (h : HoldsTable hash f) {key : CStr} {v : α} (hk : f key = some v)
    (hdel : hash.Deletable key) : DeletionLocal hash key := by
  have hnew := h.delete hk (hdel.2 _ v (h.slot_of_bound hk))
  have hroom : (hashDelete hash key).numEntries < (hashDelete hash key).size := by
    rw [hashDelete_bound h hk]
    show hash.numEntries - 1 < hash.size
    have := hdel.1
    omega
  refine ⟨fun key' hne => ?_, fun key' hmem value => hnew.keys_insert ((hnew.mem_keys key').mp hmem) value⟩
  rw [hnew.get_of_room hroom, h.get_of_room hdel.1, Function.update_of_ne hne]

/-- In a full table every search ends at an entry. -/
theorem HoldsTable.get_of_full (h : HoldsTable hash f) (hfull : ¬ hash.numEntries < hash.size)
    (key : CStr) : hashGet hash key ≠ none := by
  have hlt : hashFindEntry hash key < hash.entries.length := by
    rw [h.length_eq]
    exact hashFindEntry_lt h.pos key
  have htaken : ∀ slot ∈ hash.entries, slot.isSome = true := by
    rw [← List.countP_eq_length]
    have hle : hash.entries.countP Option.isSome ≤ hash.entries.length := List.countP_le_length
    rw [← h.count_eq, h.length_eq] at hle ⊢
    omega
  obtain ⟨e, he⟩ := Option.isSome_iff_exists.mp (htaken _ (List.getElem_mem hlt))
  rw [hashGet, List.getElem?_eq_getElem hlt, he]
  simp

/-- Every search in the table behind a deletion stops. -/
theorem HoldsTable.found_deleted (h : HoldsTable hash f) {key : CStr} {v : α} (hk : f key = some v)
    (key' : CStr) : Found hashLookup (hash.entries.set (hashFindEntry hash key) none) key'
      (hashFindEntry (hashDelete hash key) key') := by
  have hlt : hashFindEntry hash key < hash.entries.length := (h.found_of_bound hk).lt
  have hsize : (hashDelete hash key).size = hash.size := by rw [hashDelete_bound h hk]
  rw [← hashDelete_entries h hk]
  refine hashFindEntry_found ?_ (by rw [hsize]; exact h.pos) ?_
  · rw [hashDelete_entries h hk, hsize, List.length_set, h.length_eq]
  · rw [hashDelete_entries h hk]
    exact LinearProbing.exists_stop (List.mem_of_getElem? (List.getElem?_set_self hlt)) key'

/-- A search that comes past the freed slot finds nothing any more. -/
theorem HoldsTable.get_past (h : HoldsTable hash f) {key key' : CStr} {v : α} (hk : f key = some v)
    {t : Nat} (hpath : ∀ t' < t, Passes hash.entries key' (nth hashLookup hash.entries key' t'))
    (hpast : ∃ t' < t, nth hashLookup hash.entries key' t' = hashFindEntry hash key) :
    hashGet (hashDelete hash key) key' = none := by
  have hlt : hashFindEntry hash key < hash.entries.length := (h.found_of_bound hk).lt
  have hstop := LinearProbing.found_emptied hlt hpath hpast
  rw [hashGet, (h.found_deleted hk key').unique hstop, hashDelete_bound h hk]
  dsimp only
  rw [List.getElem?_set_self hlt]

/-- What is not in the table is not found behind a deletion. -/
theorem HoldsTable.get_emptied (h : HoldsTable hash f) {key key' : CStr} {v : α} (hk : f key = some v)
    (hk' : f key' = none) : hashGet (hashDelete hash key) key' = none := by
  have hfound := h.found_deleted hk key'
  rw [hashGet]
  split
  · next k w hfind =>
    rw [hashDelete_entries h hk] at hfind
    have hkey : k = key' := by
      by_contra hne
      exact hfound.stops ⟨k, w, hfind, hne⟩
    have hmem := List.mem_or_eq_of_mem_set (List.mem_of_getElem? hfind)
    have hf : f key' = some w := by
      rw [← hkey, ← h.content, LinearProbing.content_iff_mem]
      exact hmem.resolve_right (by simp)
    rw [hk'] at hf
    cases hf
  · rfl

/-- A deletion takes a key and nothing else exactly when there is a free slot and no search
comes past the slot of the key. -/
theorem HoldsTable.deletionLocal_iff (h : HoldsTable hash f) {key : CStr} {v : α}
    (hk : f key = some v) : DeletionLocal hash key ↔ hash.Deletable key := by
  refine ⟨fun hlocal => ⟨?_, fun i v' hi j k w t hj ht hpath t' ht' hpast => ?_⟩,
    h.deletionLocal hk⟩
  · by_contra hfull
    let key' : CStr := List.replicate (maxKeyLen + 1) 'a'
    have hlong : maxKeyLen < key'.length := by
      rw [List.length_replicate]
      exact Nat.lt_succ_self _
    have hne : key' ≠ key := by
      intro heq
      have hshort := h.keys_short key (by rw [hk]; simp)
      rw [← heq] at hshort
      omega
    have hsame := hlocal.get key' hne
    rw [h.get_emptied hk (h.long_absent hlong)] at hsame
    exact h.get_of_full hfull key' hsame.symm
  · have hikey : i = hashFindEntry hash key := (h.probed i key v' hi).unique (h.found_of_bound hk)
    have hne : k ≠ key := by
      intro heq
      subst heq
      obtain ⟨k', w', hslot, hother⟩ := hpath t' ht'
      rw [hpast, hi] at hslot
      exact hother (by simpa using congrArg (Option.map (Option.map Prod.fst)) hslot.symm)
    have hf := (h.content k w).mp ⟨j, hj⟩
    have hsame := hlocal.get k hne
    rw [h.get_past hk hpath ⟨t', ht', hpast.trans hikey⟩, h.get_of_bound hf] at hsame
    cases hsame

end table

/-! ## Runs -/

inductive HashOp (α : Type)
  | insert (key : CStr) (value : α)
  | delete (key : CStr)

def hashStep (hash : Hash α) : HashOp α → Hash α
  | .insert key value => hashInsert hash key value
  | .delete key => hashDelete hash key

/-- An operation that leaves the table a map: a key that fits a slot is inserted, or a
deletion takes its key and nothing else. -/
def HashOp.Harmless (hash : Hash α) : HashOp α → Prop
  | .insert key _ => key.length ≤ maxKeyLen
  | .delete key => hash.Deletable key

inductive HashRun (allowed : Hash α → HashOp α → Prop) (first : Hash α) : Hash α → Prop
  | start : HashRun allowed first first
  | step {hash op} : HashRun allowed first hash → allowed hash op →
      HashRun allowed first (hashStep hash op)

theorem Holds.step {hash : Hash α} {f : CStr → Option α} (h : Holds hash f) {op : HashOp α}
    (hop : op.Harmless hash) : ∃ f', Holds (hashStep hash op) f' := by
  cases op with
  | insert key value => exact ⟨_, .inl (h.insert hop value)⟩
  | delete key =>
    show ∃ f', Holds (hashDelete hash key) f'
    rcases h with h | ⟨hpos, hnull, hf⟩
    · cases hk : f key with
      | none =>
        rw [hashDelete_of_get_none ((h.get_of_room hop.1 key).trans hk)]
        exact ⟨f, .inl h⟩
      | some v => exact ⟨_, .inl (h.delete hk (hop.2 _ v (h.slot_of_bound hk)))⟩
    · refine ⟨f, .inr ?_⟩
      rw [hashDelete, hnull]
      exact ⟨hpos, hnull, hf⟩

theorem HashRun.holds {first hash : Hash α} {f : CStr → Option α} (hfirst : Holds first f)
    (run : HashRun (fun hash op => op.Harmless hash) first hash) : ∃ f', Holds hash f' := by
  induction run with
  | start => exact ⟨f, hfirst⟩
  | step _ hop ih =>
    obtain ⟨f', h⟩ := ih
    exact h.step hop

/-- In every run of harmless operations, the deletion of a key that is there leaves all other
keys as they were exactly when it is harmless itself. -/
theorem deletion_local_iff (size : Nat) (hpos : 0 < size) (hash : Hash α)
    (run : HashRun (fun hash op => op.Harmless hash) (hashCreate size) hash) (key : CStr)
    (hmem : key ∈ hashKeys hash) : DeletionLocal hash key ↔ hash.Deletable key := by
  obtain ⟨f, h | ⟨-, hnull, -⟩⟩ := run.holds (holds_create hpos)
  · obtain ⟨v, hv⟩ := Option.ne_none_iff_exists'.mp ((h.mem_keys key).mp hmem)
    exact h.deletionLocal_iff hv
  · rw [hashKeys, hnull] at hmem
    cases hmem

def loneTable : Hash Nat := hashInsert (hashCreate 2) "a".toList 1

/-- The only key of a table can be deleted. -/
theorem deletion_local_iff_lone : DeletionLocal loneTable "a".toList := by
  have hrun : HashRun (fun hash op => op.Harmless hash) (hashCreate 2)
      (hashStep (hashCreate 2) (.insert "a".toList 1)) := .step .start (by show _ ≤ _; decide)
  refine (deletion_local_iff 2 (by decide) loneTable hrun "a".toList (by decide)).mpr
    ⟨by decide, ?_⟩
  intro i v hi j k w t hj ht hpath t' ht' hpast
  have hk : k ∈ hashKeys loneTable := mem_hashKeys.mpr ⟨w, List.mem_of_getElem? hj⟩
  have hkeys : hashKeys loneTable = ["a".toList] := by decide
  rw [hkeys, List.mem_singleton] at hk
  subst hk
  have hpass := hpath t' ht'
  rw [hpast] at hpass
  exact LinearProbing.not_passes_of_slot hi hpass

/-- Two keys that start at one slot of three. -/
def collidingTable : Hash Nat :=
  hashInsert (hashInsert (hashCreate 3) "a".toList 1) "d".toList 2

/-- The deletion of the key in front cuts off the one behind. -/
theorem deletion_cuts_chain :
    HashRun (fun _ _ => True) (hashCreate 3) collidingTable ∧
      "a".toList ∈ hashKeys collidingTable ∧ ¬ DeletionLocal collidingTable "a".toList := by
  have hrun : HashRun (fun _ _ => True) (hashCreate 3)
      (hashStep (hashStep (hashCreate 3) (.insert "a".toList 1)) (.insert "d".toList 2)) :=
    .step (.step .start trivial) trivial
  refine ⟨hrun, by decide, fun h => ?_⟩
  have hsame := h.get "d".toList (by decide)
  have hbefore : hashGet collidingTable "d".toList = some 2 := by decide
  have hbehind : hashGet (hashDelete collidingTable "a".toList) "d".toList = none := by decide
  rw [hbefore, hbehind] at hsame
  cases hsame

end

end Greyd
