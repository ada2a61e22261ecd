import Greyd.Cidr
import Greyd.Trie

/-!
# Blacklists (blacklist.c)

A blacklist stores its entries in an array or in a trie. `entries` holds the first
`count` elements of the array; what follows them in the allocation is still zero.
`none` stands for an access outside of the allocation or through the NULL key of an
internal trie node.
-/
namespace Greyd

/-- The `int8_t` counters of an entry only ever hold -1, 0 or 1. -/
structure BlacklistEntry where
  address : IpAddr
  mask : IpAddr
  black : Int
  white : Int
  deriving DecidableEq

def BlacklistEntry.zero : BlacklistEntry := ⟨.zero, .zero, 0, 0⟩

/-- `sizeof(struct Blacklist_entry)`: two addresses, two bytes and the padding. -/
def BlacklistEntry.sizeof : Nat := 36

structure BlacklistTrieEntry where
  af : SaFamily
  address : IpAddr
  mask : IpAddr
  deriving DecidableEq

/-- The family is followed by two bytes of padding, which every user clears. -/
instance : KeyBytes BlacklistTrieEntry where
  bytes e := [e.af.setWidth 8, (e.af >>> 8).setWidth 8, 0, 0] ++ e.address.bytes ++ e.mask.bytes

inductive BlStorage
  | list
  | trie
  deriving DecidableEq

inductive BlType
  | white
  | black
  deriving DecidableEq

def blacklistInitSize : Nat := 1024 * 1024

/-- `alloc` is the number of bytes behind `entries`, 0 for a NULL pointer. -/
structure Blacklist where
  name : CStr
  message : CStr
  size : Nat
  count : Nat
  type : BlStorage
  trie : Trie BlacklistTrieEntry
  entries : List BlacklistEntry
  alloc : Nat

def blacklistCreate (name message : CStr) (flags : BlStorage) : Blacklist :=
  match flags with
  | .list => ⟨name, message, blacklistInitSize, 0, .list, .null, [],
      blacklistInitSize * BlacklistEntry.sizeof⟩
  | .trie => ⟨name, message, 0, 0, .trie, Trie.create none, [], 0⟩

/-- `cmp_trie_entry`: the second entry's address under the first one's mask. -/
def cmpTrieEntry (entry1 entry2 : BlacklistTrieEntry) : Int :=
  if ipMatchAddr entry1.address entry1.mask entry2.address entry2.af > 0 then 0 else 1

def blacklistMatch (list : Blacklist) (source : IpAddr) (af : SaFamily) : Bool :=
  match list.type with
  | .trie => list.trie.contains cmpTrieEntry ⟨af, source, .zero⟩
  | .list => list.entries.any (fun e => ipMatchAddr e.address e.mask source af > 0)

/-- `grow_entries`. The `size_t` difference wraps; `realloc` is asked for as many bytes
as there are to be elements. -/
def growEntries (list : Blacklist) : Blacklist :=
  if list.count ≥ (list.size + (2 ^ 64 - 2)) % 2 ^ 64 then
    let bytes := list.size + blacklistInitSize
    { list with
      entries := list.entries.take (bytes / BlacklistEntry.sizeof)
      alloc := bytes
      size := list.size + blacklistInitSize }
  else list

/-- Write the next `new.length` elements of the array. -/
def Blacklist.store (list : Blacklist) (new : List BlacklistEntry) : Option Blacklist :=
  if (list.count + new.length) * BlacklistEntry.sizeof ≤ list.alloc then
    some { list with count := list.count + new.length, entries := list.entries ++ new }
  else none

/-- `Blacklist_add`. The entry is stored whatever the parser returned. -/
def blacklistAdd (list : Blacklist) (address : CStr) : Option (Blacklist × Int) :=
  let parsed := ipStrToAddrMask address afUnspec
  match list.type with
  | .trie =>
    (list.trie.insert cmpTrieEntry ⟨parsed.af, parsed.n, parsed.m⟩).map fun trie =>
      ({ list with count := list.count + 1, trie := trie }, parsed.ret)
  | .list =>
    ((growEntries list).store [⟨parsed.n, parsed.m, 0, 0⟩]).map fun list => (list, parsed.ret)

/-- Add a sequence of strings, as the callers do: the results are not looked at. -/
def blacklistAddAll (list : Blacklist) : List CStr → Option Blacklist
  | [] => some list
  | address :: rest => (blacklistAdd list address).bind fun r => blacklistAddAll r.1 rest

/-- `Blacklist_add_range`. Only `v4.s_addr` and the counters are written. -/
def blacklistAddRange (list : Blacklist) (start end_ : BitVec 32) (type : BlType) :
    Option Blacklist :=
  if start > end_ then some list
  else
    let list := growEntries list
    if list.alloc = 0 then some list
    else
      match type with
      | .white => list.store [⟨.ofSAddr start, .zero, 0, 1⟩, ⟨.ofSAddr end_, .zero, 0, -1⟩]
      | .black => list.store [⟨.ofSAddr start, .zero, 1, 0⟩, ⟨.ofSAddr end_, .zero, -1, 0⟩]

/-! ## Blacklist_collapse -/

/-- `cmp_ipv4_entry`. -/
def cmpIpv4Entry (a b : BlacklistEntry) : Int :=
  if a.address.sAddr > b.address.sAddr then 1 else if a.address.sAddr < b.address.sAddr then -1 else 0

/-- What `qsort` promises: the same elements, none of them after a larger one. The order
of equal elements is its own affair. -/
structure Qsort (α : Type) (cmp : α → α → Int) where
  run : List α → List α
  perm : ∀ l, (run l).Perm l
  sorted : ∀ l, (run l).Pairwise (fun a b => cmp a b ≤ 0)

/-- A stable sort, for instance. -/
def Qsort.merge : Qsort BlacklistEntry cmpIpv4Entry where
  run l := l.mergeSort (fun a b => cmpIpv4Entry a b ≤ 0)
  perm l := l.mergeSort_perm _
  sorted l := by
    have hle : ∀ a b, cmpIpv4Entry a b ≤ 0 ↔ a.address.sAddr ≤ b.address.sAddr := by
      intro a b
      simp only [cmpIpv4Entry, BitVec.lt_def, BitVec.le_def, gt_iff_lt]
      split_ifs <;> omega
    have hsorted : (l.mergeSort (fun a b => decide (cmpIpv4Entry a b ≤ 0))).Pairwise
        (fun a b => decide (cmpIpv4Entry a b ≤ 0) = true) := List.pairwise_mergeSort
      (fun a b c => by simp only [decide_eq_true_eq, hle, BitVec.le_def]; omega)
      (fun a b => by simp only [Bool.or_eq_true, decide_eq_true_eq, hle, BitVec.le_def]; omega) l
    exact hsorted.imp of_decide_eq_true

/-- The inner do-while: add up the entries of one address. The list is the memory from
`entries[i]` on. -/
def sumGroup (addr : BitVec 32) :
    List BlacklistEntry → Nat → Int → Int → Option (List BlacklistEntry × Nat × Int × Int)
  | [], _, _, _ => none
  | [_], _, _, _ => none
  | e :: next :: rest, i, bs, ws =>
    if next.address.sAddr = addr then
      sumGroup addr (next :: rest) (i + 1) (bs + e.black) (ws + e.white)
    else some (next :: rest, i + 1, bs + e.black, ws + e.white)

/-- The state after a group of entries. -/
def collapseState (state : Bool) (bs ws : Int) : Bool :=
  let state := if state = true ∧ bs = 0 then false else if state = false ∧ bs > 0 then true else state
  if ws > 0 then false else state

/-- The outer loop, with the memory from `entries[i]` on. -/
def collapseLoop (count : Nat) :
    Nat → List BlacklistEntry → Nat → Int → Int → Bool → BitVec 32 → Option (List IpCidr)
  | 0, _, _, _, _, _, _ => none
  | fuel + 1, mem, i, bs, ws, laststate, bstart =>
    if i < count then
      match mem with
      | [] => none
      | e :: _ =>
        let addr := e.address.sAddr
        (sumGroup addr mem i bs ws).bind fun (mem, i, bs, ws) =>
          let state := collapseState laststate bs ws
          let bstart := if laststate = false ∧ state = true then addr else bstart
          let region := if laststate = true ∧ state = false then
            ipRangeToCidrList (2 ^ 32) bstart (addr - 1) else some []
          region.bind fun cidrs =>
            (collapseLoop count fuel mem i bs ws state bstart).map (cidrs ++ ·)
    else some []

/-- `Blacklist_collapse`: the list with its entries sorted, and the strings, or NULL. -/
def blacklistCollapse (qsort : Qsort BlacklistEntry cmpIpv4Entry) (blacklist : Blacklist) :
    Option (Blacklist × Option (List CStr)) :=
  if blacklist.count = 0 then some (blacklist, none)
  else
    let entries := qsort.run blacklist.entries
    let zeros := blacklist.alloc / BlacklistEntry.sizeof - blacklist.count
    let mem := entries ++ List.replicate zeros BlacklistEntry.zero
    (collapseLoop blacklist.count (blacklist.count + 1) mem 0 0 0 false 0).map fun cidrs =>
      ({ blacklist with entries := entries }, some (cidrs.map ipCidrToStr))

theorem Blacklist.store_eq_some {list l : Blacklist} {new : List BlacklistEntry}
    (h : list.store new = some l) : l.type = list.type ∧ l.entries = list.entries ++ new := by
  rw [Blacklist.store, Option.ite_none_right_eq_some] at h
  rw [← Option.some.inj h.2]
  exact ⟨rfl, rfl⟩

theorem growEntries_type (list : Blacklist) : (growEntries list).type = list.type := by
  rw [growEntries, apply_ite Blacklist.type, ite_self]

theorem cmpTrieEntry_eq_zero {a b : BlacklistTrieEntry} :
    cmpTrieEntry a b = 0 ↔ 0 < ipMatchAddr a.address a.mask b.address b.af := by
  by_cases h : ipMatchAddr a.address a.mask b.address b.af > 0 <;> simp [cmpTrieEntry, h]

/-! ## Lists in their first allocation -/

/-- The array has room for all but the last two elements of its first allocation; the
reallocation that is due then leaves less room than the entries take. -/
def listRoom : Nat := blacklistInitSize - 2

/-- A list that is still in its first allocation. -/
structure FirstAlloc (b : Blacklist) (es : List BlacklistEntry) : Prop where
  type : b.type = .list
  size : b.size = blacklistInitSize
  alloc : b.alloc = blacklistInitSize * BlacklistEntry.sizeof
  entries : b.entries = es
  count : b.count = es.length
  room : es.length ≤ listRoom

theorem firstAlloc_create (name message : CStr) :
    FirstAlloc (blacklistCreate name message .list) [] :=
  ⟨rfl, rfl, rfl, rfl, rfl, by simp⟩

theorem FirstAlloc.threshold {b : Blacklist} {es : List BlacklistEntry} (h : FirstAlloc b es) :
    (b.size + (2 ^ 64 - 2)) % 2 ^ 64 = listRoom := by
  rw [h.size]
  decide

theorem FirstAlloc.growEntries {b : Blacklist} {es : List BlacklistEntry} (h : FirstAlloc b es)
    (hroom : es.length < listRoom) : growEntries b = b := by
  rw [Greyd.growEntries, h.threshold, if_neg (by rw [h.count]; omega)]

/-- The reallocation that is due in a full list asks for bytes, not elements. -/
theorem FirstAlloc.growEntries_full {b : Blacklist} {es : List BlacklistEntry} (h : FirstAlloc b es)
    (hfull : es.length = listRoom) : Greyd.growEntries b = { b with
      entries := b.entries.take (2 * blacklistInitSize / BlacklistEntry.sizeof)
      alloc := 2 * blacklistInitSize
      size := 2 * blacklistInitSize } := by
  have hcount : b.count = listRoom := h.count.trans hfull
  rw [Greyd.growEntries, h.threshold, if_pos hcount.ge, h.size, Nat.two_mul]

theorem FirstAlloc.store {b : Blacklist} {es : List BlacklistEntry} (h : FirstAlloc b es)
    (new : List BlacklistEntry) (hroom : es.length + new.length ≤ listRoom) :
    ∃ l, b.store new = some l ∧ FirstAlloc l (es ++ new) := by
  have hfit : (b.count + new.length) * BlacklistEntry.sizeof ≤ b.alloc := by
    rw [h.count, h.alloc]
    refine Nat.mul_le_mul_right _ (hroom.trans ?_)
    decide
  rw [Blacklist.store, if_pos hfit]
  exact ⟨_, rfl, h.type, h.size, h.alloc, by rw [h.entries], by simp [h.count], by simpa using hroom⟩

/-! ## Keys of trie entries -/

@[simp] theorem kbits_trieEntry (e : BlacklistTrieEntry) : Trie.kbits e = 288 := by
  simp [Trie.kbits, KeyBytes.bytes, IpAddr.bytes, wordBytes]

/-- Bits 32 to 63 of a key are the first word of the address, in network order. -/
theorem keyBit_address (e : BlacklistTrieEntry) {i : Nat} (hi : i < 32) :
    Trie.keyBit e (32 + i) = netBit e.address.w0 i := by
  have hdiv : (32 + i) / 8 = 4 + i / 8 := by omega
  have hmod : (32 + i) % 8 = i % 8 := by omega
  rw [Trie.keyBit, bytesBit_eq, netBit, hdiv, hmod]
  have hd : i / 8 < 4 := by omega
  have hm : 7 - i % 8 < 8 := by omega
  rcases hq : i / 8 with _ | _ | _ | _ | n
  · simp [KeyBytes.bytes, IpAddr.bytes, wordBytes, hm]
  · simp [KeyBytes.bytes, IpAddr.bytes, wordBytes, hm]
  · simp [KeyBytes.bytes, IpAddr.bytes, wordBytes, hm]
  · simp [KeyBytes.bytes, IpAddr.bytes, wordBytes, hm]
  · omega

/-- Bits 0 to 31 of a key are decided by the family. -/
theorem keyBit_family {e e' : BlacklistTrieEntry} (haf : e.af = e'.af) {i : Nat} (hi : i < 32) :
    Trie.keyBit e i = Trie.keyBit e' i := by
  have hd : i / 8 < 4 := by omega
  rw [Trie.keyBit, Trie.keyBit, bytesBit_eq, bytesBit_eq]
  rcases hq : i / 8 with _ | _ | _ | _ | n
  · simp [KeyBytes.bytes, haf]
  · simp [KeyBytes.bytes, haf]
  · simp [KeyBytes.bytes]
  · simp [KeyBytes.bytes]
  · omega

end Greyd
