import Greyd.BlacklistRuns

/-!
# Membership in list and in trie storage

The list answers a query when one of its networks contains the address. The trie
sends the query to a single leaf, by the bits in which inserted keys happened to
differ, and asks that leaf alone. For some sequences of blocks this one leaf is
enough.
-/
namespace Greyd

open BitCells (Cell place firstDiff InNet Safe Tiling)
open Trie (keyBit)

/-- A string that `Blacklist_add` accepts as an IPv4 block. -/
structure Ipv4Cidr where
  text : CStr
  accepted : (ipStrToAddrMask text afUnspec).ret = 0
  inet : (ipStrToAddrMask text afUnspec).af = afInet

namespace Ipv4Cidr

/-- A dotted quad and a prefix length. -/
def ofParts (addr : CStr) (bits : Nat) (haddr : (inetPton4 addr).isSome) (hpos : 1 ≤ bits)
    (hle : bits ≤ 32) : Ipv4Cidr where
  text := addr ++ '/' :: decimal bits
  accepted := by
    obtain ⟨octets, ho⟩ := Option.isSome_iff_exists.mp haddr
    rw [ipStrToAddrMask_printed4 afUnspec ho hpos hle]
  inet := by
    obtain ⟨octets, ho⟩ := Option.isSome_iff_exists.mp haddr
    rw [ipStrToAddrMask_printed4 afUnspec ho hpos hle]

def toCidr (c : Ipv4Cidr) : Cidr := ⟨c.text, c.accepted⟩

/-- The key that stands for the block in a trie. -/
def entry (c : Ipv4Cidr) : BlacklistTrieEntry :=
  let parsed := ipStrToAddrMask c.text afUnspec
  ⟨parsed.af, parsed.n, parsed.m⟩

theorem entry_af (c : Ipv4Cidr) : c.entry.af = afInet := c.inet

theorem entry_mask (c : Ipv4Cidr) :
    ∃ bits, 1 ≤ bits ∧ bits ≤ 32 ∧ c.entry.mask = maskOf bits ∧
      c.entry.address.w0 &&& c.entry.mask.w0 = c.entry.address.w0 := by
  obtain ⟨n, bits, fam, h, hpos, -, ⟨-, hle⟩ | hfam⟩ := ipStrToAddrMask_accepted c.accepted
  · refine ⟨bits, hpos, hle, by simp [entry, h], ?_⟩
    simp [entry, h, IpAddr.and, BitVec.and_assoc]
  · have := c.inet
    rw [h, hfam] at this
    simp [afInet, afInet6] at this

end Ipv4Cidr

/-- The positions of a key in which a query has to carry the key's bits. -/
def fixes (e : BlacklistTrieEntry) (j : Nat) : Prop :=
  32 ≤ j ∧ j < 64 ∧ netBit e.mask.w0 (j - 32) = true

/-- `cmp_trie_entry` holds a key against the first address bits of an IPv4 query. -/
theorem cmp_inet_iff {e q : BlacklistTrieEntry} (hmasked : e.address.w0 &&& e.mask.w0 = e.address.w0)
    (hq : q.af = afInet) : cmpTrieEntry e q = 0 ↔ InNet fixes keyBit e q := by
  have hmatch : cmpTrieEntry e q = 0 ↔ e.address.w0 = q.address.w0 &&& e.mask.w0 := by
    unfold cmpTrieEntry ipMatchAddr
    rw [hq]
    by_cases h : e.address.w0 = q.address.w0 &&& e.mask.w0 <;> simp [h]
  rw [hmatch, masked_eq_iff hmasked]
  constructor
  · rintro h j ⟨hlo, hhi, hm⟩
    obtain ⟨i, rfl⟩ := Nat.exists_eq_add_of_le hlo
    rw [keyBit_address q (by omega), keyBit_address e (by omega)]
    exact h i (by omega) (by simpa using hm)
  · intro h i hi hm
    have := h (32 + i) ⟨by omega, by omega, by simpa using hm⟩
    rwa [keyBit_address q hi, keyBit_address e hi] at this

theorem cmpTrieEntry_iff (c : Ipv4Cidr) {q : BlacklistTrieEntry} (hq : q.af = afInet) :
    cmpTrieEntry c.entry q = 0 ↔ InNet fixes keyBit c.entry q := by
  obtain ⟨-, -, -, -, ha⟩ := c.entry_mask
  exact cmp_inet_iff ha hq

/-- Keys that the comparison tells apart first differ inside the address. -/
theorem firstDiff_address (c k : Ipv4Cidr) (h : cmpTrieEntry c.entry k.entry ≠ 0) :
    ∃ i, firstDiff keyBit 288 c.entry k.entry = some i ∧ 32 ≤ i ∧ i < 64 := by
  have hnot : ¬ InNet fixes keyBit c.entry k.entry := fun hin =>
    h ((cmpTrieEntry_iff c k.entry_af).mpr hin)
  simp only [InNet, not_forall] at hnot
  obtain ⟨j, ⟨-, hj, -⟩, hne⟩ := hnot
  cases hf : firstDiff keyBit 288 c.entry k.entry with
  | none => exact absurd (BitCells.firstDiff_none hf j (by omega)).symm hne
  | some i =>
    obtain ⟨-, hdiff, heq⟩ := BitCells.firstDiff_some hf
    have hlo : 32 ≤ i := by
      by_contra hlt
      exact hdiff (keyBit_family (c.entry_af.trans k.entry_af.symm) (by omega))
    have hhi : i ≤ j := by
      by_contra hlt
      exact hne (heq j (by omega)).symm
    exact ⟨i, rfl, hlo, by omega⟩

/-- The cells of the blocks added so far, each with the positions tested for it. -/
def placeCidr (cells : List (Cell BlacklistTrieEntry)) (c : Ipv4Cidr) :
    List (Cell BlacklistTrieEntry) :=
  place keyBit (fun a b => cmpTrieEntry a b = 0) 288 cells c.entry

def kept (cidrs : List Ipv4Cidr) : List (Cell BlacklistTrieEntry) := cidrs.foldl placeCidr []

/-- Cells of IPv4 blocks: only the first bit and address bits are ever tested. -/
structure Ipv4Cells (cidrs : List Ipv4Cidr) (cells : List (Cell BlacklistTrieEntry)) : Prop where
  key_mem : ∀ c ∈ cells, ∃ d ∈ cidrs, c.key = d.entry
  tested : ∀ c ∈ cells, ∀ i ∈ c.tested, i = 0 ∨ 32 ≤ i ∧ i < 64
  nonempty : cidrs ≠ [] → cells ≠ []

theorem Ipv4Cells.place {cidrs : List Ipv4Cidr} {cells : List (Cell BlacklistTrieEntry)}
    (h : Ipv4Cells cidrs cells) (k : Ipv4Cidr) : Ipv4Cells (cidrs ++ [k]) (placeCidr cells k) := by
  refine ⟨fun c' hc' => ?_, fun c' hc' => ?_, fun _ => BitCells.place_ne_nil _⟩
  · rcases BitCells.mem_place hc' with hc | rfl | ⟨c, hc, -, i, -, hcut⟩
    · obtain ⟨d, hd, hkey⟩ := h.key_mem c' hc
      exact ⟨d, List.mem_append_left _ hd, hkey⟩
    · exact ⟨k, by simp, rfl⟩
    · rcases (BitCells.mem_cut.mp hcut).2 with hkey | hkey
      · obtain ⟨d, hd, hd'⟩ := h.key_mem c hc
        exact ⟨d, List.mem_append_left _ hd, hkey.trans hd'⟩
      · exact ⟨k, by simp, hkey⟩
  · rcases BitCells.mem_place hc' with hc | rfl | ⟨c, hc, hcov, i, hi, hcut⟩
    · exact h.tested c' hc
    · simp
    · obtain ⟨d, -, hd⟩ := h.key_mem c hc
      rw [hd] at hcov hi
      obtain ⟨i', hi', hlo, hhi⟩ := firstDiff_address d k (by simpa using hcov)
      obtain rfl : i = i' := Option.some.inj (hi.symm.trans hi')
      intro j hj
      rw [(BitCells.mem_cut.mp hcut).1] at hj
      rcases List.mem_append.mp hj with hj | hj
      · exact h.tested c hc j hj
      · exact Or.inr (List.mem_singleton.mp hj ▸ ⟨hlo, hhi⟩)

/-! ## The two storages after a sequence of additions -/

theorem ipv4Cells_kept (cidrs : List Ipv4Cidr) : Ipv4Cells cidrs (kept cidrs) := by
  induction cidrs using List.reverseRecOn with
  | nil => exact ⟨by simp [kept], by simp [kept], by simp⟩
  | append_singleton cidrs c ih =>
    rw [kept, List.foldl_append]
    exact ih.place c

theorem kept_eq (cidrs : List Ipv4Cidr) : (cidrs.map Ipv4Cidr.toCidr).foldl placeEntry [] = kept cidrs :=
  List.foldl_map

def Ipv4Cidr.listEntry (c : Ipv4Cidr) : BlacklistEntry := ⟨c.entry.address, c.entry.mask, 0, 0⟩

/-! ## Completeness of the trie -/

/-- A query as `Blacklist_match` builds it. -/
def query (source : IpAddr) : BlacklistTrieEntry := ⟨afInet, source, .zero⟩

theorem match_list_iff {l : Blacklist} {cidrs : List Ipv4Cidr}
    (h : FirstAlloc l (cidrs.map Ipv4Cidr.listEntry)) (source : IpAddr) :
    blacklistMatch l source afInet = true ↔
      ∃ e ∈ cidrs.map Ipv4Cidr.entry, InNet fixes keyBit e (query source) := by
  have hcmp : ∀ c : Ipv4Cidr, 0 < ipMatchAddr c.entry.address c.entry.mask source afInet ↔
      InNet fixes keyBit c.entry (query source) := by
    intro c
    rw [← cmpTrieEntry_iff c rfl]
    rw [cmpTrieEntry_eq_zero]
    rfl
  simp only [blacklistMatch, h.type, h.entries]
  rw [List.any_eq_true]
  simp only [List.mem_map, Ipv4Cidr.listEntry, gt_iff_lt, decide_eq_true_eq, hcmp,
    exists_exists_and_eq_and]

theorem match_trie_iff {t : Blacklist} {cells : List (Cell BlacklistTrieEntry)}
    (htype : t.type = .trie) (ht : Trie.Realises 288 t.trie cells)
    (hmasked : ∀ c ∈ cells, c.key.address.w0 &&& c.key.mask.w0 = c.key.address.w0) (source : IpAddr) :
    blacklistMatch t source afInet = true ↔
      ∃ c ∈ cells, c.Agrees keyBit (query source) ∧ InNet fixes keyBit c.key (query source) := by
  rw [blacklistMatch, htype]
  simp only
  rw [ht.contains_iff cmpTrieEntry _ (by simp) (by simp)]
  exact exists_congr fun c => and_congr_right fun hc => and_congr_right fun _ =>
    cmp_inet_iff (hmasked c hc) rfl

/-- IPv4 queries: their address bits are arbitrary, the bits before are the family's. -/
theorem covered_iff_safe {cidrs : List Ipv4Cidr} {cells : List (Cell BlacklistTrieEntry)}
    (ht : Tiling keyBit cells) (hcells : Ipv4Cells cidrs cells) :
    (∀ source, (∃ e ∈ cidrs.map Ipv4Cidr.entry, InNet fixes keyBit e (query source)) →
        ∃ c ∈ cells, c.Agrees keyBit (query source) ∧ InNet fixes keyBit c.key (query source)) ↔
      ∀ e ∈ cidrs, ∀ c ∈ cells, Safe fixes keyBit e.entry c := by
  have hfamily : ∀ source, ∀ c ∈ cells, ∀ i < 32, keyBit (query source) i = keyBit c.key i := by
    intro source c hc i hi
    obtain ⟨d, -, hd⟩ := hcells.key_mem c hc
    exact keyBit_family (by rw [hd, d.entry_af]; rfl) hi
  have hiff : (∀ q, (∃ source, q = query source) →
        (∃ e ∈ cidrs.map Ipv4Cidr.entry, InNet fixes keyBit e q) →
          ∃ c ∈ cells, c.Agrees keyBit q ∧ InNet fixes keyBit c.key q) ↔
      ∀ e ∈ cidrs.map Ipv4Cidr.entry, ∀ c ∈ cells, Safe fixes keyBit e c :=
    BitCells.covered_iff (fun j => 32 ≤ j ∧ j < 64) ht ?_ ?_ ?_
      (fun e _ i hi => ⟨hi.1, hi.2.1⟩) (fun c _ i hi => ⟨hi.1, hi.2.1⟩)
  · simpa only [forall_exists_index, forall_eq_apply_imp_iff, List.forall_mem_map] using hiff
  · intro f
    obtain ⟨w, hw⟩ := exists_netBit (fun i => f (32 + i))
    refine ⟨_, ⟨⟨w, 0, 0, 0⟩, rfl⟩, ?_⟩
    rintro j ⟨hlo, hhi⟩
    obtain ⟨i, rfl⟩ := Nat.exists_eq_add_of_le hlo
    rw [keyBit_address _ (by omega)]
    exact hw i (by omega)
  · rintro q ⟨source, rfl⟩ c hc i hi hfree
    rcases hcells.tested c hc i hi with rfl | hi
    · exact hfamily source c hc 0 (by decide)
    · exact absurd hi hfree
  · rintro q ⟨source, rfl⟩ e he
    obtain ⟨c, hc⟩ := List.exists_mem_of_ne_nil _
      (hcells.nonempty (by rintro rfl; simp at he))
    exact ht.total c hc _ (hfamily source c hc 0 (by decide))

/-- Every IPv4 address that the list answers for is answered for by the trie exactly when
no cell that the sequence leaves behind loses addresses of one of its blocks. A cell loses
none of a block when the block fixes a tested bit the other way, or when every prefix bit
of the cell's key was tested or is a prefix bit of the block with the same value. -/
theorem trie_answers_iff (cidrs : List Ipv4Cidr) (name message : CStr) :
    (∃ l t, blacklistAddAll (blacklistCreate name message .list) (cidrs.map (·.text)) = some l ∧
        blacklistAddAll (blacklistCreate name message .trie) (cidrs.map (·.text)) = some t ∧
        ∀ source, blacklistMatch l source afInet = true → blacklistMatch t source afInet = true) ↔
      cidrs.length ≤ listRoom ∧
        ∀ e ∈ cidrs, ∀ c ∈ kept cidrs, Safe fixes keyBit e.entry c := by
  have htexts : cidrs.map (·.text) = (cidrs.map Ipv4Cidr.toCidr).map (·.text) := by simp [Ipv4Cidr.toCidr]
  have hentries : (cidrs.map Ipv4Cidr.toCidr).map Cidr.listEntry = cidrs.map Ipv4Cidr.listEntry := by
    rw [List.map_map]
    rfl
  obtain ⟨hfit, hover⟩ := addAll_list (firstAlloc_create name message) (cidrs.map Ipv4Cidr.toCidr)
  rw [List.nil_append, hentries, ← htexts] at hfit
  rw [← htexts] at hover
  simp only [List.length_nil, Nat.zero_add, List.length_map] at hfit hover
  by_cases hlen : cidrs.length ≤ listRoom
  case neg => simp [hover (by omega), hlen]
  obtain ⟨l, hl, hlist⟩ := hfit hlen
  obtain ⟨t, ht, htype, hreal, -⟩ := @addAll_trie (blacklistCreate name message .trie) rfl []
    (cidrs.map Ipv4Cidr.toCidr) [] (Trie.realises_create 288) (by simp [Keyed])
  rw [← htexts] at ht
  rw [kept_eq] at hreal
  have hcells := ipv4Cells_kept cidrs
  have hmasked : ∀ c ∈ kept cidrs, c.key.address.w0 &&& c.key.mask.w0 = c.key.address.w0 := by
    intro c hc
    obtain ⟨d, -, hd⟩ := hcells.key_mem c hc
    obtain ⟨-, -, -, -, ha⟩ := d.entry_mask
    rw [hd, ha]
  simp only [hl, ht, Option.some.injEq, exists_and_left, exists_eq_left', hlen, true_and]
  rw [← covered_iff_safe hreal.tiling hcells]
  exact forall_congr' fun source => by
    rw [match_list_iff hlist, match_trie_iff htype hreal hmasked]

private def cidr16 : Ipv4Cidr :=
  .ofParts "10.1.0.0".toList 16 (by decide) (by decide) (by decide)

private def cidr8 : Ipv4Cidr :=
  .ofParts "10.0.0.0".toList 8 (by decide) (by decide) (by decide)

/-- 10.3.0.1 lies in 10.0.0.0/8, which arrives after 10.1.0.0/16 and cuts its cell at the
last bit of the second octet. -/
theorem trie_loses_nested_block :
    ¬ ∀ cidrs : List Ipv4Cidr, ∀ l t,
      blacklistAddAll (blacklistCreate [] [] .list) (cidrs.map (·.text)) = some l →
      blacklistAddAll (blacklistCreate [] [] .trie) (cidrs.map (·.text)) = some t →
      ∀ source, blacklistMatch l source afInet = true → blacklistMatch t source afInet = true := by
  intro h
  let source := addrOfBytes [10, 3, 0, 1]
  have hl : (blacklistAddAll (blacklistCreate [] [] .list) ([cidr16, cidr8].map (·.text))).map
      (blacklistMatch · source afInet) = some true := by decide +kernel
  have ht : (blacklistAddAll (blacklistCreate [] [] .trie) ([cidr16, cidr8].map (·.text))).map
      (blacklistMatch · source afInet) = some false := by decide +kernel
  obtain ⟨l, hl, hlm⟩ := Option.map_eq_some_iff.mp hl
  obtain ⟨t, ht, htm⟩ := Option.map_eq_some_iff.mp ht
  have := h _ l t hl ht source hlm
  rw [htm] at this
  exact Bool.false_ne_true this

end Greyd
