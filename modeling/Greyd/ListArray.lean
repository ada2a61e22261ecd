import Mathlib.Tactic
import Greyd.RangeCalls

/-!
# The array of a list (blacklist.c)

How far the array of a list-storage blacklist reaches. It is allocated once for all entries
it will ever have room for: the reallocation counts its size in bytes.
-/
namespace Greyd

/-- A call that stores into the array. -/
inductive ListCall
  | add (address : CStr)
  | addRange (start end_ : BitVec 32) (type : BlType)

namespace ListCall

def run (list : Blacklist) : ListCall → Option Blacklist
  | .add address => (blacklistAdd list address).map (·.1)
  | .addRange start end_ type => blacklistAddRange list start end_ type

/-- The elements that the call writes. -/
def entries : ListCall → List BlacklistEntry
  | .add address =>
    let parsed := ipStrToAddrMask address afUnspec
    [⟨parsed.n, parsed.m, 0, 0⟩]
  | .addRange start end_ type => if start > end_ then [] else rangeEvents type (start, end_)

theorem entries_length_le (c : ListCall) : c.entries.length ≤ 2 := by
  cases c with
  | add address => exact Nat.le_succ 1
  | addRange start end_ type =>
    by_cases h : start > end_
    · rw [entries, if_pos h]
      exact Nat.zero_le 2
    · rw [entries, if_neg h, rangeEvents_length]

theorem run_add {list : Blacklist} (htype : list.type = .list) (address : CStr) :
    (add address).run list = (growEntries list).store (add address).entries := by
  rw [run, blacklistAdd, htype]
  show Option.map _ (Option.map _ _) = _
  rw [Option.map_map]
  exact Option.map_id'

theorem run_addRange {list : Blacklist} {start end_ : BitVec 32} {type : BlType}
    (hle : ¬ start > end_) (halloc : (growEntries list).alloc ≠ 0) :
    (addRange start end_ type).run list =
      (growEntries list).store (rangeEvents type (start, end_)) := by
  rw [run, blacklistAddRange, if_neg hle, if_neg halloc]
  cases type <;> rfl

end ListCall

def runListCalls (list : Blacklist) (calls : List ListCall) : Option Blacklist :=
  calls.foldlM ListCall.run list

def storedEntries (calls : List ListCall) : List BlacklistEntry := calls.flatMap ListCall.entries

/-- The calls have written inside of the block, which holds all that is counted, and what
they have stored is there. -/
def KeepsCapacity (list : Blacklist) (calls : List ListCall) : Prop :=
  ∃ l, runListCalls list calls = some l ∧ l.count = (storedEntries calls).length ∧
    l.count * BlacklistEntry.sizeof ≤ l.alloc ∧ l.entries = storedEntries calls

/-- Each call that stores something finds so few elements that the array need not grow. -/
def NeverGrows (calls : List ListCall) : Prop :=
  ∀ before call after, calls = before ++ call :: after → call.entries ≠ [] →
    (storedEntries before).length < listRoom

/-! ## One call -/

/-- A list with these elements in its first block. The last pair may pass the mark at which
the array is due to grow. -/
structure InFirstBlock (b : Blacklist) (es : List BlacklistEntry) : Prop where
  type : b.type = .list
  size : b.size = blacklistInitSize
  alloc : b.alloc = blacklistInitSize * BlacklistEntry.sizeof
  entries : b.entries = es
  count : b.count = es.length
  room : es.length ≤ listRoom + 1

theorem inFirstBlock_create (name message : CStr) :
    InFirstBlock (blacklistCreate name message .list) [] :=
  ⟨rfl, rfl, rfl, rfl, rfl, Nat.zero_le _⟩

namespace InFirstBlock

variable {b : Blacklist} {es : List BlacklistEntry}

theorem threshold (h : InFirstBlock b es) : (b.size + (2 ^ 64 - 2)) % 2 ^ 64 = listRoom := by
  rw [h.size]
  decide

theorem grows_not (h : InFirstBlock b es) (hroom : es.length < listRoom) : growEntries b = b := by
  rw [growEntries, h.threshold, if_neg (by rw [h.count]; omega)]

theorem holds (h : InFirstBlock b es) : b.count * BlacklistEntry.sizeof ≤ b.alloc := by
  rw [h.count, h.alloc]
  exact Nat.mul_le_mul_right _ (h.room.trans (by decide))

theorem store (h : InFirstBlock b es) {new : List BlacklistEntry} (hnew : new.length ≤ 2)
    (hroom : es.length < listRoom) : ∃ l, b.store new = some l ∧ InFirstBlock l (es ++ new) := by
  have hlen : (es ++ new).length ≤ listRoom + 1 := by
    rw [List.length_append]
    omega
  have hfit : (b.count + new.length) * BlacklistEntry.sizeof ≤ b.alloc := by
    rw [h.count, h.alloc, ← List.length_append]
    exact Nat.mul_le_mul_right _ (hlen.trans (by decide))
  rw [Blacklist.store, if_pos hfit]
  exact ⟨_, rfl, h.type, h.size, h.alloc, by rw [h.entries], by simp [h.count], hlen⟩

/-- The block that the array grows into has no room for what is in it already. -/
theorem store_grown (h : InFirstBlock b es) (hfull : listRoom ≤ es.length)
    (new : List BlacklistEntry) :
    (growEntries b).alloc ≠ 0 ∧ (growEntries b).store new = none := by
  have hcount : listRoom ≤ b.count := by
    rw [h.count]
    exact hfull
  have hgrown : (growEntries b).count = b.count ∧
      (growEntries b).alloc = blacklistInitSize + blacklistInitSize := by
    rw [growEntries, h.threshold, if_pos hcount]
    exact ⟨rfl, by rw [h.size]⟩
  have hover : blacklistInitSize + blacklistInitSize < listRoom * BlacklistEntry.sizeof := by decide
  have hmore : listRoom * BlacklistEntry.sizeof ≤ (b.count + new.length) * BlacklistEntry.sizeof :=
    Nat.mul_le_mul_right _ (by omega)
  rw [Blacklist.store, hgrown.1, hgrown.2, if_neg (by omega)]
  exact ⟨by decide, rfl⟩

theorem run (h : InFirstBlock b es) (c : ListCall) (hroom : c.entries ≠ [] → es.length < listRoom) :
    ∃ l, c.run b = some l ∧ InFirstBlock l (es ++ c.entries) := by
  cases c with
  | add address =>
    have hlt := hroom (List.cons_ne_nil _ _)
    obtain ⟨l, hstore, hl⟩ := h.store (ListCall.entries_length_le (.add address)) hlt
    refine ⟨l, ?_, hl⟩
    rw [ListCall.run_add h.type, h.grows_not hlt]
    exact hstore
  | addRange start end_ type =>
    by_cases hgt : start > end_
    · have hnone : (ListCall.addRange start end_ type).entries = [] := if_pos hgt
      rw [hnone, List.append_nil]
      exact ⟨b, if_pos hgt, h⟩
    · have hentries : (ListCall.addRange start end_ type).entries = rangeEvents type (start, end_) :=
        if_neg hgt
      have hne : rangeEvents type (start, end_) ≠ [] := by
        rw [← List.length_pos_iff, rangeEvents_length]
        decide
      have halloc : b.alloc ≠ 0 := by
        rw [h.alloc]
        decide
      have hlt := hroom (hentries ▸ hne)
      obtain ⟨l, hstore, hl⟩ := h.store (rangeEvents_length type (start, end_)).le hlt
      rw [hentries]
      refine ⟨l, ?_, hl⟩
      rw [ListCall.run_addRange hgt (by rw [h.grows_not hlt]; exact halloc), h.grows_not hlt]
      exact hstore

theorem run_full (h : InFirstBlock b es) {c : ListCall} (hc : c.entries ≠ [])
    (hfull : listRoom ≤ es.length) : c.run b = none := by
  cases c with
  | add address =>
    rw [ListCall.run_add h.type]
    exact (h.store_grown hfull _).2
  | addRange start end_ type =>
    have hgt : ¬ start > end_ := fun hgt => hc (if_pos hgt)
    obtain ⟨halloc, hstore⟩ := h.store_grown hfull (rangeEvents type (start, end_))
    rw [ListCall.run_addRange hgt halloc]
    exact hstore

/-- Calls that find room store their elements; the first one that does not writes outside of
the block. -/
theorem runs (h : InFirstBlock b es) (calls : List ListCall) :
    ((∀ before call after, calls = before ++ call :: after → call.entries ≠ [] →
        es.length + (storedEntries before).length < listRoom) →
      ∃ l, runListCalls b calls = some l ∧ InFirstBlock l (es ++ storedEntries calls)) ∧
    (∀ before call after, calls = before ++ call :: after → call.entries ≠ [] →
      listRoom ≤ es.length + (storedEntries before).length → runListCalls b calls = none) := by
  induction calls generalizing b es with
  | nil =>
    constructor
    · intro _
      rw [storedEntries, List.flatMap_nil, List.append_nil]
      exact ⟨b, rfl, h⟩
    · intro before call after hcalls
      exact absurd hcalls.symm (List.append_ne_nil_of_right_ne_nil _ (List.cons_ne_nil _ _))
  | cons c calls ih =>
    have hcons : runListCalls b (c :: calls) = (c.run b).bind fun b => runListCalls b calls := rfl
    rw [hcons]
    by_cases hroom : c.entries ≠ [] → es.length < listRoom
    · obtain ⟨l, hrun, hl⟩ := h.run c hroom
      obtain ⟨hfits, hover⟩ := ih hl
      rw [hrun, Option.bind_some]
      have hlen (before : List ListCall) : es.length + (storedEntries (c :: before)).length =
          (es ++ c.entries).length + (storedEntries before).length := by
        rw [storedEntries, List.flatMap_cons, List.length_append, List.length_append, Nat.add_assoc]
        rfl
      constructor
      · intro hall
        obtain ⟨l', hrest, hl'⟩ := hfits fun before call after hcalls hne => by
          rw [← hlen]
          exact hall (c :: before) call after (by rw [hcalls, List.cons_append]) hne
        rw [List.append_assoc] at hl'
        exact ⟨l', hrest, hl'⟩
      · intro before call after hcalls hne hfull
        cases before with
        | nil =>
          obtain ⟨rfl, -⟩ := List.cons.inj hcalls
          exact absurd (hroom hne) (Nat.not_lt.mpr hfull)
        | cons first before =>
          rw [List.cons_append, List.cons.injEq] at hcalls
          obtain ⟨rfl, hcalls⟩ := hcalls
          rw [hlen] at hfull
          exact hover before call after hcalls hne hfull
    · push Not at hroom
      obtain ⟨hne, hfull⟩ := hroom
      rw [h.run_full hne hfull]
      refine ⟨fun hall => ?_, fun _ _ _ _ _ _ => rfl⟩
      exact absurd (hall [] c calls rfl hne) (Nat.not_lt.mpr hfull)

end InFirstBlock

/-! ## Sequences of calls -/

section Create

variable {name message : CStr} {calls : List ListCall}

theorem keepsCapacity_of_neverGrows (h : NeverGrows calls) :
    KeepsCapacity (blacklistCreate name message .list) calls := by
  obtain ⟨hfits, -⟩ := (inFirstBlock_create name message).runs calls
  obtain ⟨l, hrun, hl⟩ := hfits fun before call after hcalls hne => by
    rw [List.length_nil, Nat.zero_add]
    exact h before call after hcalls hne
  exact ⟨l, hrun, hl.count, hl.holds, hl.entries⟩

theorem runListCalls_none {before after : List ListCall} {call : ListCall}
    (hcalls : calls = before ++ call :: after) (hne : call.entries ≠ [])
    (hfull : listRoom ≤ (storedEntries before).length) :
    runListCalls (blacklistCreate name message .list) calls = none :=
  ((inFirstBlock_create name message).runs calls).2 before call after hcalls hne <| by
    rw [List.length_nil, Nat.zero_add]
    exact hfull

theorem keepsCapacity_iff (name message : CStr) (calls : List ListCall) :
    KeepsCapacity (blacklistCreate name message .list) calls ↔ NeverGrows calls := by
  refine ⟨?_, keepsCapacity_of_neverGrows⟩
  intro ⟨l, hrun, _⟩ before call after hcalls hne
  by_contra hfull
  rw [runListCalls_none hcalls hne (Nat.not_lt.mp hfull)] at hrun
  cases hrun

/-- After 1048574 addresses the next one grows the array into a block of 2097152 bytes. -/
theorem capacity_lost :
    ¬ KeepsCapacity (blacklistCreate [] [] .list)
      (List.replicate (listRoom + 1) (.add "10.0.0.1/32".toList)) := by
  intro ⟨l, hrun, _⟩
  have hne : (ListCall.add "10.0.0.1/32".toList).entries ≠ [] := List.cons_ne_nil _ _
  have hlen (n : Nat) : (storedEntries (List.replicate n (.add "10.0.0.1/32".toList))).length = n := by
    rw [storedEntries, List.length_flatMap, List.map_replicate, List.sum_replicate, smul_eq_mul]
    exact Nat.mul_one n
  rw [runListCalls_none List.replicate_succ' hne (hlen listRoom).ge] at hrun
  cases hrun

end Create

/-! ## Collapsing the array -/

/-- `Blacklist_collapse` ends inside of the array exactly when the ranges fit into it and not
all of them end at the address zero, which is also what lies behind the last element. -/
theorem collapse_inside_iff (qsort : Qsort BlacklistEntry cmpIpv4Entry) (name message : CStr)
    (calls : List AddCall) :
    (∃ b b' r, addCalls (blacklistCreate name message .list) calls = some b ∧
        blacklistCollapse qsort b = some (b', r)) ↔
      (callEvents calls).length ≤ listRoom ∧
        (calls.filter AddCall.kept = [] ∨ ∃ c ∈ calls.filter AddCall.kept, c.1.2 ≠ 0) := by
  rw [← addCalls_create_iff name message]
  constructor
  · intro ⟨b, b', r, hadd, hcollapse⟩
    refine ⟨⟨b, hadd⟩, ?_⟩
    rcases collapse_calls qsort hadd with ⟨hnone, -⟩ | ⟨-, -, hlost⟩ | ⟨hsome, -⟩
    · exact .inl hnone
    · rw [hlost] at hcollapse
      cases hcollapse
    · exact .inr hsome
  · intro ⟨⟨b, hadd⟩, hends⟩
    rcases collapse_calls qsort hadd with ⟨-, hnull⟩ | ⟨hne, hzero, -⟩ | ⟨-, b', cidrs, hlist, -⟩
    · exact ⟨b, b, none, hadd, hnull⟩
    · rcases hends with hnone | ⟨c, hc, hend⟩
      · exact absurd hnone hne
      · exact absurd (hzero c hc) hend
    · exact ⟨b, b', _, hadd, hlist⟩

/-- The only range of a feed, 0.0.0.0 - 255.255.255.255: its end wraps around to zero. -/
theorem collapse_runs_off :
    ∃ b, addCalls (blacklistCreate [] [] .list) [((0, 0), .black)] = some b ∧
      blacklistCollapse Qsort.merge b = none := by
  obtain ⟨b, hadd⟩ := (addCalls_create_iff [] [] [((0, 0), .black)]).mpr (by decide)
  refine ⟨b, hadd, ?_⟩
  rcases collapse_calls Qsort.merge hadd with ⟨hnone, -⟩ | ⟨-, -, hlost⟩ | ⟨⟨c, hc, hend⟩, -⟩
  · exact absurd hnone (by decide)
  · exact hlost
  · have hmem := List.mem_of_mem_filter hc
    rw [List.mem_singleton.mp hmem] at hend
    exact absurd rfl hend

end Greyd
