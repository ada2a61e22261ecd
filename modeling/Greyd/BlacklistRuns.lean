import Greyd.Blacklist

/-!
# Sequences of additions to a blacklist

What the two storages hold after a sequence of well-formed blocks of either family: the
array all of them, as long as it is in its first allocation, the trie a set of cells whose
keys are some of them.
-/
namespace Greyd

open BitCells (Cell place firstDiff)
open Trie (keyBit)

/-- A string that `Blacklist_add` accepts. -/
structure Cidr where
  text : CStr
  accepted : (ipStrToAddrMask text afUnspec).ret = 0

namespace Cidr

/-- The key that stands for the block in a trie. -/
def entry (c : Cidr) : BlacklistTrieEntry :=
  let parsed := ipStrToAddrMask c.text afUnspec
  ⟨parsed.af, parsed.n, parsed.m⟩

def listEntry (c : Cidr) : BlacklistEntry := ⟨c.entry.address, c.entry.mask, 0, 0⟩

theorem entry_spec (c : Cidr) : ∃ (n : IpAddr) (bits : Nat), c.entry.address = n.and (maskOf bits) ∧
    c.entry.mask = maskOf bits ∧ 1 ≤ bits ∧
      (c.entry.af = afInet ∧ bits ≤ 32 ∨ c.entry.af = afInet6 ∧ bits ≤ 128) := by
  obtain ⟨n, bits, fam, h, hpos, hle, hfam⟩ := ipStrToAddrMask_accepted c.accepted
  refine ⟨n, bits, by simp [entry, h], by simp [entry, h], hpos, ?_⟩
  rcases hfam with ⟨rfl, hbits⟩ | rfl
  · exact Or.inl ⟨by simp [entry, h], hbits⟩
  · exact Or.inr ⟨by simp [entry, h], hle⟩

/-- A block contains its own address. -/
theorem cmp_self (c : Cidr) : cmpTrieEntry c.entry c.entry = 0 := by
  obtain ⟨n, bits, haddr, hmask, -, hfam⟩ := c.entry_spec
  rw [cmpTrieEntry_eq_zero, ipMatchAddr, haddr, hmask]
  rcases hfam with ⟨hfam, -⟩ | ⟨hfam, -⟩
  · simp [hfam, IpAddr.and, BitVec.and_assoc]
  · simp [hfam, IpAddr.and, BitVec.and_assoc, afInet, afInet6]

end Cidr

/-! ## Keys that agree in every bit -/

private theorem bytes_eq {a b : BlacklistTrieEntry} (h : ∀ j < 288, keyBit a j = keyBit b j) :
    KeyBytes.bytes a = KeyBytes.bytes b := by
  have hlen (e : BlacklistTrieEntry) : (KeyBytes.bytes e).length = 36 := by
    simp [KeyBytes.bytes, IpAddr.bytes, wordBytes]
  refine bytes_eq_of_bits ((hlen a).trans (hlen b).symm) fun j hj => h j ?_
  rw [hlen] at hj
  exact hj

private theorem IpAddr.bytes_inj {a b : IpAddr} (h : a.bytes = b.bytes) : a = b := by
  obtain ⟨a0, a1, a2, a3⟩ := a
  obtain ⟨b0, b1, b2, b3⟩ := b
  simp only [IpAddr.bytes, List.append_assoc] at h
  obtain ⟨h0, h⟩ := List.append_inj h rfl
  obtain ⟨h1, h⟩ := List.append_inj h rfl
  obtain ⟨h2, h3⟩ := List.append_inj h rfl
  rw [wordBytes_inj h0, wordBytes_inj h1, wordBytes_inj h2, wordBytes_inj h3]

private theorem family_inj {af af' : SaFamily} (h0 : af.setWidth 8 = af'.setWidth 8)
    (h1 : (af >>> 8).setWidth 8 = (af' >>> 8).setWidth 8) : af = af' := by
  refine BitVec.eq_of_getLsbD_eq fun i hi => ?_
  by_cases hlow : i < 8
  · have hbit := congrArg (fun x => BitVec.getLsbD x i) h0
    simpa [hlow] using hbit
  · have hbit := congrArg (fun x => BitVec.getLsbD x (i - 8)) h1
    have hadd : 8 + (i - 8) = i := by omega
    simpa [hadd, show i - 8 < 8 by omega] using hbit

/-- A key is determined by its bits. -/
theorem entry_eq_of_keyBit {a b : BlacklistTrieEntry} (h : ∀ j < 288, keyBit a j = keyBit b j) :
    a = b := by
  have hbytes := bytes_eq h
  simp only [KeyBytes.bytes, List.append_assoc] at hbytes
  obtain ⟨hfamily, hbytes⟩ := List.append_inj hbytes rfl
  obtain ⟨haddr, hmask⟩ := List.append_inj hbytes (by simp [IpAddr.bytes, wordBytes])
  obtain ⟨h0, hrest⟩ := List.cons.inj hfamily
  have haf := family_inj h0 (List.cons.inj hrest).1
  obtain ⟨_, _, _⟩ := a
  obtain ⟨_, _, _⟩ := b
  rw [BlacklistTrieEntry.mk.injEq]
  exact ⟨haf, IpAddr.bytes_inj haddr, IpAddr.bytes_inj hmask⟩

/-- Blocks that the comparison tells apart differ in some bit of their keys. -/
theorem firstDiff_of_cmp_ne {c k : Cidr} (h : cmpTrieEntry c.entry k.entry ≠ 0) :
    ∃ i, firstDiff keyBit 288 c.entry k.entry = some i := by
  cases hf : firstDiff keyBit 288 c.entry k.entry with
  | some i => exact ⟨i, rfl⟩
  | none =>
    have hsame := entry_eq_of_keyBit (BitCells.firstDiff_none hf)
    exact absurd (hsame ▸ k.cmp_self) h

/-! ## The trie -/

/-- Every cell belongs to one of the blocks. -/
def Keyed (cidrs : List Cidr) (cells : List (Cell BlacklistTrieEntry)) : Prop :=
  ∀ c ∈ cells, ∃ d ∈ cidrs, c.key = d.entry

def placeEntry (cells : List (Cell BlacklistTrieEntry)) (c : Cidr) : List (Cell BlacklistTrieEntry) :=
  place keyBit (fun a b => cmpTrieEntry a b = 0) 288 cells c.entry

theorem Keyed.place {cidrs : List Cidr} {cells : List (Cell BlacklistTrieEntry)}
    (h : Keyed cidrs cells) (k : Cidr) : Keyed (cidrs ++ [k]) (placeEntry cells k) := by
  intro c' hc'
  have hold : ∀ c ∈ cells, ∃ d ∈ cidrs ++ [k], c.key = d.entry := by
    intro c hc
    obtain ⟨d, hd, hkey⟩ := h c hc
    exact ⟨d, List.mem_append_left _ hd, hkey⟩
  rcases BitCells.mem_place hc' with hc | rfl | ⟨c, hc, -, i, -, hcut⟩
  · exact hold c' hc
  · exact ⟨k, by simp, rfl⟩
  · rcases (BitCells.mem_cut.mp hcut).2 with hkey | hkey
    · rw [hkey]
      exact hold c hc
    · exact ⟨k, by simp, hkey⟩

theorem addAll_trie {b : Blacklist} (hb : b.type = .trie) (done cidrs : List Cidr)
    {cells : List (Cell BlacklistTrieEntry)} (ht : Trie.Realises 288 b.trie cells)
    (hc : Keyed done cells) :
    ∃ t, blacklistAddAll b (cidrs.map (·.text)) = some t ∧ t.type = .trie ∧
      Trie.Realises 288 t.trie (cidrs.foldl placeEntry cells) ∧
      Keyed (done ++ cidrs) (cidrs.foldl placeEntry cells) := by
  induction cidrs generalizing b done cells with
  | nil => exact ⟨b, rfl, hb, ht, by simpa using hc⟩
  | cons c rest ih =>
    obtain ⟨trie, hins, hreal⟩ := ht.insert cmpTrieEntry (kbits_trieEntry c.entry) (by decide)
      fun d hd hne => by
        obtain ⟨d', -, hd'⟩ := hc d hd
        rw [hd'] at hne ⊢
        exact firstDiff_of_cmp_ne hne
    have hadd : blacklistAdd b c.text =
        some ({ b with count := b.count + 1, trie := trie }, 0) := by
      simp only [Cidr.entry] at hins
      simp [blacklistAdd, hb, hins, c.accepted]
    obtain ⟨t, hall, ht'⟩ := @ih { b with count := b.count + 1, trie := trie } hb (done ++ [c]) _ hreal
      (hc.place c)
    rw [List.append_assoc] at ht'
    refine ⟨t, ?_, ht'⟩
    simpa [blacklistAddAll, hadd] using hall

/-! ## The array -/

theorem FirstAlloc.add {b : Blacklist} {es : List BlacklistEntry} (h : FirstAlloc b es)
    (c : Cidr) (hroom : es.length < listRoom) :
    ∃ l, blacklistAdd b c.text = some (l, 0) ∧ FirstAlloc l (es ++ [c.listEntry]) := by
  obtain ⟨l, hstore, hl⟩ := h.store [c.listEntry] hroom
  refine ⟨l, ?_, hl⟩
  simp only [Cidr.listEntry, Cidr.entry] at hstore
  simp [blacklistAdd, h.type, h.growEntries hroom, hstore, c.accepted]

theorem FirstAlloc.add_full {b : Blacklist} {es : List BlacklistEntry} (h : FirstAlloc b es)
    (address : CStr) (hfull : es.length = listRoom) : blacklistAdd b address = none := by
  have hcount : b.count = listRoom := h.count.trans hfull
  have hover : ¬ (listRoom + 1) * BlacklistEntry.sizeof ≤ 2 * blacklistInitSize := by decide
  simp [blacklistAdd, h.type, h.growEntries_full hfull, Blacklist.store, hcount, hover]

theorem addAll_list {b : Blacklist} {es : List BlacklistEntry} (h : FirstAlloc b es)
    (cidrs : List Cidr) :
    (es.length + cidrs.length ≤ listRoom → ∃ l, blacklistAddAll b (cidrs.map (·.text)) = some l ∧
      FirstAlloc l (es ++ cidrs.map Cidr.listEntry)) ∧
    (listRoom < es.length + cidrs.length → blacklistAddAll b (cidrs.map (·.text)) = none) := by
  induction cidrs generalizing b es with
  | nil =>
    have := h.room
    exact ⟨fun _ => ⟨b, rfl, by simpa using h⟩, fun hlt => by simp at hlt; omega⟩
  | cons c rest ih =>
    rcases Nat.lt_or_eq_of_le h.room with hroom | hfull
    · obtain ⟨l, hadd, hl⟩ := h.add c hroom
      have ⟨hfit, hover⟩ := ih hl
      simp only [List.length_append, List.length_cons, List.length_nil] at hfit hover
      simp only [List.map_cons, List.length_cons, blacklistAddAll, hadd, Option.bind_some]
      refine ⟨fun hle => ?_, fun hlt => hover (by omega)⟩
      obtain ⟨l', hall, hl'⟩ := hfit (by omega)
      exact ⟨l', hall, by simpa using hl'⟩
    · have hnone := h.add_full c.text hfull
      refine ⟨fun hle => by simp at hle; omega, fun _ => ?_⟩
      simp [blacklistAddAll, hnone]

end Greyd
