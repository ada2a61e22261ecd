import Greyd.CText
import Greyd.Support.LinearProbing
import Mathlib.Data.List.Count

/-!
# Hash tables (hash.c)

A slot whose value is NULL is free, whatever its key says. `entries` is empty while the
C pointer is still NULL.
-/
namespace Greyd

open LinearProbing (Passes Found Probed Content nth)

def maxKeyLen : Nat := 255

structure Hash (α : Type) where
  size : Nat
  numEntries : Nat
  entries : List (Option (CStr × α))

/-- A `char` read into an `int`, as a 32-bit pattern. -/
def signedChar (c : Char) : Nat := if c.toNat < 128 then c.toNat else 2 ^ 32 + c.toNat - 256

/-- `Hash_lookup`, the djb2 function in 32-bit arithmetic. -/
def hashLookup (key : CStr) : Nat :=
  key.foldl (fun hash c => (hash * 33 + signedChar c) % 2 ^ 32) 5381

section
variable {α : Type}

def hashCreate (size : Nat) : Hash α := ⟨size, 0, []⟩

/-- The test that ends the search: the key is here, or nothing is. -/
def hashStops (entries : List (Option (CStr × α))) (key : CStr) (i : Nat) : Bool :=
  match entries[i]? with
  | some (some (k, _)) => k = key
  | _ => true

/-- The loop of `Hash_find_entry`, with the slots that are left to look at. -/
def hashFindLoop (hash : Hash α) (key : CStr) : Nat → Nat → Nat
  | 0, i => i
  | left + 1, i =>
    if hashStops hash.entries key i then i
    else if left = 0 then i
    else hashFindLoop hash key left ((i + 1) % hash.size)

/-- `Hash_find_entry`, the index of the entry. -/
def hashFindEntry (hash : Hash α) (key : CStr) : Nat :=
  hashFindLoop hash key hash.size (hashLookup key % hash.size)

theorem hashFindLoop_lt {hash : Hash α} (key : CStr) (hpos : 0 < hash.size) (left i : Nat)
    (hi : i < hash.size) : hashFindLoop hash key left i < hash.size := by
  induction left generalizing i with
  | zero => exact hi
  | succ left ih =>
    rw [hashFindLoop]
    split_ifs
    · exact hi
    · exact hi
    · exact ih _ (Nat.mod_lt _ hpos)

theorem hashFindEntry_lt {hash : Hash α} (hpos : 0 < hash.size) (key : CStr) :
    hashFindEntry hash key < hash.size :=
  hashFindLoop_lt key hpos _ _ (Nat.mod_lt _ hpos)

/-- `Hash_insert`, once there is room. -/
def hashPut (hash : Hash α) (key : CStr) (value : α) : Hash α :=
  let i := hashFindEntry hash key
  let numEntries := match hash.entries[i]? with
    | some (some _) => hash.numEntries
    | _ => hash.numEntries + 1
  ⟨hash.size, numEntries, hash.entries.set i (some (sstrncpy key (maxKeyLen + 1), value))⟩

/-- `Hash_resize`. None of its insertions can ask for another resize. -/
def hashResize (hash : Hash α) (newSize : Nat) : Hash α :=
  if newSize ≤ hash.size then hash
  else (hash.entries.filterMap id).foldl (fun h e => hashPut h e.1 e.2)
    ⟨newSize, 0, List.replicate newSize none⟩

/-- What `Hash_insert` makes of the table before it stores: it has a free slot. -/
def hashRoom (hash : Hash α) : Hash α :=
  if hash.entries = [] then ⟨hash.size, 0, List.replicate hash.size none⟩
  else if hash.numEntries ≥ hash.size then hashResize hash (2 * hash.size)
  else hash

def hashInsert (hash : Hash α) (key : CStr) (value : α) : Hash α := hashPut (hashRoom hash) key value

/-- `Hash_keys`; no list at all (NULL) is the empty one. -/
def hashKeys (hash : Hash α) : List CStr := hash.entries.filterMap fun slot => slot.map Prod.fst

def hashGet (hash : Hash α) (key : CStr) : Option α :=
  match hash.entries[hashFindEntry hash key]? with
  | some (some (_, v)) => some v
  | _ => none

/-- `Hash_delete`. A slot without a value has no key that counts. -/
def hashDelete (hash : Hash α) (key : CStr) : Hash α :=
  match hash.entries[hashFindEntry hash key]? with
  | some (some _) =>
    ⟨hash.size, hash.numEntries - 1, hash.entries.set (hashFindEntry hash key) none⟩
  | _ => hash

/-- A write through the value pointer that a slot holds. -/
def hashUpdate (hash : Hash α) (slot : Nat) (g : α → α) : Hash α :=
  { hash with entries := hash.entries.modify slot (Option.map fun e => (e.1, g e.2)) }

/-! ## Tables as maps -/

/-- An allocated table that holds exactly the values of a map. -/
structure HoldsTable (hash : Hash α) (f : CStr → Option α) : Prop where
  pos : 0 < hash.size
  length_eq : hash.entries.length = hash.size
  count_eq : hash.numEntries = hash.entries.countP Option.isSome
  probed : Probed hashLookup hash.entries
  content : ∀ k v, Content hash.entries k v ↔ f k = some v
  keys_short : ∀ k, f k ≠ none → k.length ≤ maxKeyLen

/-- A table, allocated or not, that holds exactly the values of a map. -/
def Holds (hash : Hash α) (f : CStr → Option α) : Prop :=
  HoldsTable hash f ∨ (0 < hash.size ∧ hash.entries = [] ∧ f = fun _ => none)

theorem holds_create {size : Nat} (h : 0 < size) : Holds (hashCreate size : Hash α) fun _ => none :=
  Or.inr ⟨h, rfl, rfl⟩

theorem hashStops_iff (entries : List (Option (CStr × α))) (key : CStr) (i : Nat) :
    hashStops entries key i = true ↔ ¬ Passes entries key i := by
  rw [hashStops, Passes]
  rcases entries[i]? with _ | _ | ⟨k, v⟩ <;> simp

/-- The loop goes on to the first slot that stops the search. -/
theorem hashFindLoop_eq (hash : Hash α) (key : CStr) {t : Nat}
    (hlen : hash.entries.length = hash.size)
    (hpass : ∀ t' < t, Passes hash.entries key (nth hashLookup hash.entries key t'))
    (hstop : ¬ Passes hash.entries key (nth hashLookup hash.entries key t)) (left s : Nat)
    (hs : s ≤ t) (hleft : t < s + left) :
    hashFindLoop hash key left (nth hashLookup hash.entries key s) =
      nth hashLookup hash.entries key t := by
  induction left generalizing s with
  | zero => omega
  | succ left ih =>
    rw [hashFindLoop]
    rcases Nat.lt_or_eq_of_le hs with hlt | rfl
    · have hgo : hashStops hash.entries key (nth hashLookup hash.entries key s) = false := by
        rw [Bool.eq_false_iff, Ne, hashStops_iff, not_not]
        exact hpass s hlt
      have hnext : (nth hashLookup hash.entries key s + 1) % hash.size =
          nth hashLookup hash.entries key (s + 1) := by
        rw [nth, nth, hlen, Nat.mod_add_mod, Nat.add_assoc]
      rw [hgo, hnext, if_neg (by simp), if_neg (by omega)]
      exact ih (s + 1) hlt (by omega)
    · rw [if_pos ((hashStops_iff _ _ _).mpr hstop)]

theorem hashFindEntry_found {hash : Hash α} (hlen : hash.entries.length = hash.size)
    (hpos : 0 < hash.size) {key : CStr}
    (h : ∃ t < hash.entries.length, ¬ Passes hash.entries key (nth hashLookup hash.entries key t)) :
    Found hashLookup hash.entries key (hashFindEntry hash key) := by
  classical
  obtain ⟨hlt, hstop⟩ := Nat.find_spec h
  have hpass : ∀ t' < Nat.find h, Passes hash.entries key (nth hashLookup hash.entries key t') := by
    intro t' ht'
    have := Nat.find_min h ht'
    by_contra hnot
    exact this ⟨ht'.trans hlt, hnot⟩
  have hfind : hashFindEntry hash key = nth hashLookup hash.entries key (Nat.find h) := by
    rw [hashFindEntry, ← hlen]
    exact hashFindLoop_eq hash key hlen hpass hstop _ 0 (Nat.zero_le _) (by omega)
  rw [hfind]
  exact ⟨Nat.mod_lt _ (by omega), hstop, _, rfl, hpass⟩

theorem none_mem_of_count_lt {slots : List (Option (CStr × α))}
    (h : slots.countP Option.isSome < slots.length) : none ∈ slots := by
  obtain ⟨o, ho, hsome⟩ := List.countP_lt_length_iff.mp h
  rwa [Option.isSome_eq_false_iff.mp hsome |> Option.isNone_iff_eq_none.mp] at ho

section table
variable {hash : Hash α} {f : CStr → Option α}

theorem HoldsTable.found_of_room (h : HoldsTable hash f) (hroom : hash.numEntries < hash.size)
    (key : CStr) : Found hashLookup hash.entries key (hashFindEntry hash key) :=
  hashFindEntry_found h.length_eq h.pos
    (LinearProbing.exists_stop (none_mem_of_count_lt (by
      rw [← h.count_eq, h.length_eq]
      exact hroom)) key)

theorem HoldsTable.found_of_bound (h : HoldsTable hash f) {key : CStr} {v : α} (hk : f key = some v) :
    Found hashLookup hash.entries key (hashFindEntry hash key) := by
  obtain ⟨i, hi⟩ := (h.content key v).mpr hk
  have hf := h.probed i key v hi
  obtain ⟨t, ht, hpass⟩ := hf.path
  refine hashFindEntry_found h.length_eq h.pos ⟨t % hash.entries.length, ?_, ?_⟩
  · exact Nat.mod_lt _ (by rw [h.length_eq]; exact h.pos)
  · have : nth hashLookup hash.entries key (t % hash.entries.length) = i := by
      rw [ht, nth, nth, Nat.add_mod_mod]
    rw [this]
    exact hf.stops

private theorem hashGet_of_found (h : HoldsTable hash f) {key : CStr}
    (hf : Found hashLookup hash.entries key (hashFindEntry hash key)) : hashGet hash key = f key := by
  rw [hashGet]
  rcases hf.slot h.probed with ⟨v, hv⟩ | ⟨hnone, habsent⟩
  · rw [hv, (h.content key v).mp ⟨_, hv⟩]
  · rw [hnone]
    cases hk : f key with
    | none => rfl
    | some v => exact absurd ((h.content key v).mpr hk) (habsent v)

/-- A table with a free slot finds exactly what the map holds. -/
theorem HoldsTable.get_of_room (h : HoldsTable hash f) (hroom : hash.numEntries < hash.size)
    (key : CStr) : hashGet hash key = f key :=
  hashGet_of_found h (h.found_of_room hroom key)

theorem HoldsTable.get_of_bound (h : HoldsTable hash f) {key : CStr} {v : α} (hk : f key = some v) :
    hashGet hash key = some v :=
  (hashGet_of_found h (h.found_of_bound hk)).trans hk

/-- A put counts the slots that are taken. -/
theorem hashPut_count {hash : Hash α} {key : CStr} (hlt : hashFindEntry hash key < hash.entries.length)
    (hcount : hash.numEntries = hash.entries.countP Option.isSome) (value : α) :
    (hashPut hash key value).numEntries = (hashPut hash key value).entries.countP Option.isSome := by
  have hslot : hash.entries[hashFindEntry hash key]? = some hash.entries[hashFindEntry hash key] :=
    List.getElem?_eq_getElem hlt
  simp only [hashPut, List.countP_set hlt]
  rcases hs : hash.entries[hashFindEntry hash key] with _ | e
  · rw [hs] at hslot
    simp [hslot, hcount]
  · rw [hs] at hslot
    have hpos : 0 < hash.entries.countP Option.isSome :=
      List.countP_pos_iff.mpr ⟨some e, hs ▸ List.getElem_mem hlt, rfl⟩
    simp only [hslot, hcount, Option.isSome_some, ↓reduceIte]
    omega

private theorem HoldsTable.put_found (h : HoldsTable hash f) {key : CStr}
    (hf : Found hashLookup hash.entries key (hashFindEntry hash key)) (hk : key.length ≤ maxKeyLen)
    (value : α) : HoldsTable (hashPut hash key value) (Function.update f key (some value)) := by
  have hkey : sstrncpy key (maxKeyLen + 1) = key := List.take_of_length_le hk
  refine ⟨h.pos, by simp [hashPut, h.length_eq], hashPut_count hf.lt h.count_eq value,
    by simpa [hashPut, hkey] using h.probed.set hf, fun k v => ?_, fun k hne => ?_⟩
  · simp only [hashPut, hkey, h.probed.content_set hf, h.content]
    by_cases hkk : k = key
    · subst hkk
      simp [eq_comm]
    · simp [hkk]
  · by_cases hkk : k = key
    · exact hkk ▸ hk
    · exact h.keys_short k (by simpa [hkk] using hne)

theorem HoldsTable.put (h : HoldsTable hash f) (hroom : hash.numEntries < hash.size) {key : CStr}
    (hk : key.length ≤ maxKeyLen) (value : α) :
    HoldsTable (hashPut hash key value) (Function.update f key (some value)) :=
  h.put_found (h.found_of_room hroom key) hk value

/-- A write through the pointer that `Hash_get` gives for a bound key. -/
theorem HoldsTable.update (h : HoldsTable hash f) {key : CStr} {v : α} (hk : f key = some v)
    (g : α → α) : HoldsTable (hashUpdate hash (hashFindEntry hash key) g)
      (Function.update f key (some (g v))) := by
  have hf := h.found_of_bound hk
  have hshort := h.keys_short key (by simp [hk])
  have hslot : hash.entries[hashFindEntry hash key]? = some (some (key, v)) := by
    rcases hf.slot h.probed with ⟨w, hw⟩ | ⟨-, habsent⟩
    · have hvw := (h.content key w).mp ⟨_, hw⟩
      rw [hk] at hvw
      rw [hw, Option.some.inj hvw]
    · exact absurd ((h.content key v).mpr hk) (habsent v)
  have hput : hashUpdate hash (hashFindEntry hash key) g = hashPut hash key (g v) := by
    have hkey : sstrncpy key (maxKeyLen + 1) = key := List.take_of_length_le hshort
    simp [hashUpdate, hashPut, hslot, hkey, List.modify_eq_set_getElem?]
  rw [hput]
  exact h.put_found hf hshort (g v)

end table

theorem holdsTable_empty {size : Nat} (h : 0 < size) :
    HoldsTable ⟨size, 0, List.replicate size none⟩ (fun _ => (none : Option α)) :=
  ⟨h, by simp, by simp [List.countP_replicate], LinearProbing.probed_replicate _ _,
    fun k v => by simpa using LinearProbing.content_replicate size k v, by simp⟩

/-- Reinsertion of some of the pairs of a map, none of them twice, into a table with room. -/
private theorem holdsTable_foldl {f g : CStr → Option α} (es : List (CStr × α)) {hash : Hash α}
    (h : HoldsTable hash g) (hroom : hash.numEntries + es.length ≤ hash.size)
    (hes : ∀ e ∈ es, f e.1 = some e.2 ∧ e.1.length ≤ maxKeyLen) :
    ∃ g', HoldsTable (es.foldl (fun h e => hashPut h e.1 e.2) hash) g' ∧
      (es.foldl (fun h e => hashPut h e.1 e.2) hash).size = hash.size ∧
      (es.foldl (fun h e => hashPut h e.1 e.2) hash).numEntries ≤ hash.numEntries + es.length ∧
      ∀ k, g' k = if k ∈ es.map Prod.fst then f k else g k := by
  induction es generalizing hash g with
  | nil => exact ⟨g, h, rfl, by simp, by simp⟩
  | cons e es ih =>
    obtain ⟨hfe, hke⟩ := hes e List.mem_cons_self
    rw [List.length_cons] at hroom
    have hput := h.put (by omega) hke e.2
    have hnum : (hashPut hash e.1 e.2).numEntries ≤ hash.numEntries + 1 := by
      unfold hashPut
      dsimp only
      split
      · exact Nat.le_succ _
      · exact le_refl _
    have hsize : (hashPut hash e.1 e.2).size = hash.size := rfl
    obtain ⟨g', hg', hsize', hnum', heq⟩ := ih hput (by rw [hsize]; omega)
      fun e' he' => hes e' (List.mem_cons_of_mem _ he')
    refine ⟨g', hg', hsize'.trans hsize, by rw [List.length_cons]; simp only [List.foldl_cons]; omega,
      fun k => ?_⟩
    simp only [heq, List.map_cons, List.mem_cons]
    by_cases hk : k = e.1
    · subst hk
      by_cases hmem : e.1 ∈ es.map Prod.fst
      · simp [hmem]
      · simp [hmem, hfe]
    · by_cases hmem : k ∈ es.map Prod.fst <;> simp [hk, hmem]

theorem HoldsTable.resize {hash : Hash α} {f : CStr → Option α} (h : HoldsTable hash f) :
    HoldsTable (hashResize hash (2 * hash.size)) f ∧
      (hashResize hash (2 * hash.size)).numEntries < (hashResize hash (2 * hash.size)).size := by
  have hpos := h.pos
  have hgrow : ¬ 2 * hash.size ≤ hash.size := by omega
  have hlen : (hash.entries.filterMap id).length ≤ hash.size := by
    rw [← h.length_eq]
    exact List.length_filterMap_le id hash.entries
  have hes : ∀ e ∈ hash.entries.filterMap id, f e.1 = some e.2 ∧ e.1.length ≤ maxKeyLen := by
    intro e he
    have hmem : some (e.1, e.2) ∈ hash.entries := by simpa using he
    have hfe := (h.content e.1 e.2).mp (LinearProbing.content_iff_mem.mpr hmem)
    exact ⟨hfe, h.keys_short e.1 (by simp [hfe])⟩
  obtain ⟨g', hg', hsize, hnum, heq⟩ := holdsTable_foldl (hash.entries.filterMap id)
    (holdsTable_empty (by omega : 0 < 2 * hash.size)) (by show 0 + _ ≤ 2 * hash.size; omega) hes
  have hsame : g' = f := by
    funext k
    rw [heq]
    by_cases hk : k ∈ (hash.entries.filterMap id).map Prod.fst
    · rw [if_pos hk]
    · rw [if_neg hk]
      cases hfk : f k with
      | none => rfl
      | some v =>
        have hmem := LinearProbing.content_iff_mem.mp ((h.content k v).mpr hfk)
        exact absurd (List.mem_map.mpr ⟨(k, v), by simpa using hmem, rfl⟩) hk
  rw [hashResize, if_neg hgrow]
  refine ⟨hsame ▸ hg', ?_⟩
  rw [hsize]
  show _ < 2 * hash.size
  have hcount : (0 : Nat) + (hash.entries.filterMap id).length < 2 * hash.size := by omega
  exact lt_of_le_of_lt hnum hcount

section holds
variable {hash : Hash α} {f : CStr → Option α}

theorem Holds.room (h : Holds hash f) :
    HoldsTable (hashRoom hash) f ∧ (hashRoom hash).numEntries < (hashRoom hash).size := by
  rw [hashRoom]
  rcases h with h | ⟨hpos, hnull, rfl⟩
  · have hne : hash.entries ≠ [] := by
      intro hnil
      have hlen := h.length_eq
      have hpos := h.pos
      rw [hnil, List.length_nil] at hlen
      omega
    rw [if_neg hne]
    by_cases hfull : hash.numEntries ≥ hash.size
    · rw [if_pos hfull]
      exact h.resize
    · rw [if_neg hfull]
      exact ⟨h, by omega⟩
  · rw [if_pos hnull]
    exact ⟨holdsTable_empty hpos, hpos⟩

/-- `Hash_insert` updates the map. -/
theorem Holds.insert (h : Holds hash f) {key : CStr} (hk : key.length ≤ maxKeyLen) (value : α) :
    HoldsTable (hashInsert hash key value) (Function.update f key (some value)) :=
  h.room.1.put h.room.2 hk value

/-- `Hash_get` finds what the map holds. -/
theorem Holds.get (h : Holds hash f) {key : CStr} {v : α} (hk : f key = some v) :
    hashGet hash key = some v := by
  rcases h with h | ⟨-, -, rfl⟩
  · exact h.get_of_bound hk
  · simp at hk

theorem Holds.content_iff (h : Holds hash f) (k : CStr) (v : α) :
    some (k, v) ∈ hash.entries ↔ f k = some v := by
  rcases h with h | ⟨-, hnull, rfl⟩
  · rw [← LinearProbing.content_iff_mem, h.content]
  · simp [hnull]

/-- A table that could hold more keys than there are: `Hash_get` finds nothing else. -/
theorem Holds.get_eq (h : Holds hash f) {keys : List CStr} (hkeys : ∀ k, f k ≠ none → k ∈ keys)
    (hlt : keys.length < hash.size) (key : CStr) : hashGet hash key = f key := by
  rcases h with h | ⟨-, hnull, rfl⟩
  · have hsub : (hash.entries.filterMap id).map Prod.fst ⊆ keys := by
      intro k hk
      obtain ⟨⟨k', v⟩, hmem, rfl⟩ := List.mem_map.mp hk
      have hfk := (h.content k' v).mp (LinearProbing.content_iff_mem.mpr (by simpa using hmem))
      exact hkeys k' (by simp [hfk])
    have hle := (h.probed.nodup_keys.subperm hsub).length_le
    have hcount : hash.numEntries = ((hash.entries.filterMap id).map Prod.fst).length := by
      rw [h.count_eq, List.length_map, List.length_filterMap_eq_countP]
      rfl
    exact h.get_of_room (by omega) key
  · simp [hashGet, hnull]

end holds

theorem hashInsert_size (hash : Hash α) (key : CStr) (value : α) :
    hash.size ≤ (hashInsert hash key value).size := by
  show hash.size ≤ (hashRoom hash).size
  have hfold : ∀ (es : List (CStr × α)) (h : Hash α),
      (es.foldl (fun h e => hashPut h e.1 e.2) h).size = h.size := by
    intro es
    induction es with
    | nil => intro h; rfl
    | cons e es ih => intro h; exact ih (hashPut h e.1 e.2)
  rw [hashRoom, hashResize]
  split_ifs
  · exact le_refl _
  · exact le_refl _
  · rw [hfold]
    show hash.size ≤ 2 * hash.size
    omega
  · exact le_refl _

/-! ## What every value of a table has in common -/

/-- Every value that the table holds, in whatever slot, has the property. -/
def Hash.All (P : α → Prop) (hash : Hash α) : Prop := ∀ k v, some (k, v) ∈ hash.entries → P v

section all
variable {P : α → Prop} {hash : Hash α}

theorem Hash.All.create (P : α → Prop) (size : Nat) : (hashCreate size).All P := by
  intro k v h
  simp [hashCreate] at h

theorem Hash.All.put (h : hash.All P) (key : CStr) {value : α} (hvalue : P value) :
    (hashPut hash key value).All P := by
  intro k v hmem
  rcases List.mem_or_eq_of_mem_set hmem with hold | hnew
  · exact h k v hold
  · simp only [Option.some.injEq, Prod.mk.injEq] at hnew
    exact hnew.2 ▸ hvalue

private theorem Hash.All.foldl {es : List (CStr × α)} (hes : ∀ e ∈ es, P e.2) (h : hash.All P) :
    (es.foldl (fun h e => hashPut h e.1 e.2) hash).All P := by
  induction es generalizing hash with
  | nil => exact h
  | cons e es ih =>
    rw [List.forall_mem_cons] at hes
    exact ih hes.2 (h.put e.1 hes.1)

private theorem Hash.All.free (P : α → Prop) (size numEntries slots : Nat) :
    (Hash.mk size numEntries (List.replicate slots (none : Option (CStr × α)))).All P := by
  intro k v hmem
  have hnone := List.eq_of_mem_replicate hmem
  simp at hnone

theorem Hash.All.room (h : hash.All P) : (hashRoom hash).All P := by
  rw [hashRoom, hashResize]
  split_ifs
  · exact .free P _ _ _
  · exact h
  · refine .foldl (fun e he => ?_) (.free P _ _ _)
    rw [List.mem_filterMap] at he
    obtain ⟨slot, hslot, rfl⟩ := he
    exact h e.1 e.2 hslot
  · exact h

theorem Hash.All.insert (h : hash.All P) (key : CStr) {value : α} (hvalue : P value) :
    (hashInsert hash key value).All P := h.room.put key hvalue

theorem Hash.All.update (h : hash.All P) (slot : Nat) {g : α → α} (hg : ∀ v, P v → P (g v)) :
    (hashUpdate hash slot g).All P := by
  intro k v hmem
  obtain ⟨i, hi⟩ := List.mem_iff_getElem?.mp hmem
  rw [hashUpdate, List.getElem?_modify, Option.map_eq_map, Option.map_eq_some_iff] at hi
  obtain ⟨old, hold, hnew⟩ := hi
  have hmem' := List.mem_of_getElem? hold
  split at hnew
  · obtain ⟨e, rfl, he⟩ := Option.map_eq_some_iff.mp hnew
    rw [Prod.mk.injEq] at he
    exact he.2 ▸ hg e.2 (h e.1 e.2 hmem')
  · exact h k v (hnew ▸ hmem')

theorem Hash.All.get (h : hash.All P) {key : CStr} {v : α} (hget : hashGet hash key = some v) :
    P v := by
  unfold hashGet at hget
  split at hget
  · next k v' hentry =>
    obtain rfl : v' = v := by simpa using hget
    exact h k v' (List.mem_of_getElem? hentry)
  · simp at hget

end all

end

end Greyd
