import Greyd.TextualCidr
import Greyd.TrieMembership

/-!
# The rest of an IPv4 address (blacklist.c, con.c)

An IPv4 lookup compares four bytes, but its way through a trie follows the bits that were
tested for all keys, which with IPv6 blocks are also bits of the twelve bytes behind them.
-/
namespace Greyd

open BitCells (Cell InNet Yields)
open Trie (keyBit)

/-! ## Bits of a key -/

theorem bytes_getD (a : IpAddr) {k : Nat} (hk : k < 16) :
    a.bytes.getD k 0 = (a.word (k / 4) >>> (8 * (k % 4))).setWidth 8 := by
  interval_cases k <;> simp [IpAddr.bytes, wordBytes, IpAddr.word]

theorem netBit_byte (a : IpAddr) {i : Nat} (hi : i < 128) :
    (a.bytes.getD (i / 8) 0).getLsbD (7 - i % 8) = a.bit i := by
  have hword : i / 8 / 4 = i / 32 := by omega
  have hplace : 8 * (i / 8 % 4) + (7 - i % 8) = 8 * (i % 32 / 8) + (7 - i % 32 % 8) := by omega
  have hlt : 7 - i % 8 < 8 := by omega
  rw [bytes_getD a (by omega), hword, IpAddr.bit, netBit, BitVec.getLsbD_setWidth,
    BitVec.getLsbD_ushiftRight, hplace, decide_eq_true hlt, Bool.true_and]

theorem keyBit_bit (e : BlacklistTrieEntry) {i : Nat} (hi : i < 128) :
    keyBit e (32 + i) = e.address.bit i := by
  have hdiv : (32 + i) / 8 = 4 + i / 8 := by omega
  have hmod : (32 + i) % 8 = i % 8 := by omega
  rw [keyBit, bytesBit_eq, hdiv, hmod, ← netBit_byte e.address hi]
  congr 1
  have hlen : e.address.bytes.length = 16 := rfl
  simp only [KeyBytes.bytes, List.append_assoc, List.getD_eq_getElem?_getD]
  rw [List.getElem?_append_right (by simp), List.getElem?_append_left (by rw [hlen]; simp; omega)]
  simp

/-- Every choice of 128 bits is an address. -/
theorem exists_bits (f : Nat → Bool) : ∃ a : IpAddr, ∀ i < 128, a.bit i = f i := by
  obtain ⟨w0, h0⟩ := exists_netBit f
  obtain ⟨w1, h1⟩ := exists_netBit fun i => f (32 + i)
  obtain ⟨w2, h2⟩ := exists_netBit fun i => f (64 + i)
  obtain ⟨w3, h3⟩ := exists_netBit fun i => f (96 + i)
  refine ⟨⟨w0, w1, w2, w3⟩, fun i hi => ?_⟩
  have hmod : i % 32 < 32 := Nat.mod_lt i (by decide)
  have hsum := Nat.div_add_mod i 32
  rw [IpAddr.bit]
  rcases hq : i / 32 with _ | _ | _ | _ | n
  · rw [hq] at hsum
    change netBit w0 (i % 32) = f i
    rw [h0 _ hmod]
    exact congrArg f (by omega)
  · rw [hq] at hsum
    change netBit w1 (i % 32) = f i
    rw [h1 _ hmod]
    exact congrArg f hsum
  · rw [hq] at hsum
    change netBit w2 (i % 32) = f i
    rw [h2 _ hmod]
    exact congrArg f hsum
  · rw [hq] at hsum
    change netBit w3 (i % 32) = f i
    rw [h3 _ hmod]
    exact congrArg f hsum
  · omega

/-! ## IPv4 lookups -/

/-- The four bytes of the address. -/
def known (i : Nat) : Prop := 32 ≤ i ∧ i < 64

theorem known_alike_iff (source source' : IpAddr) :
    (∀ i, known i → keyBit (query source) i = keyBit (query source') i) ↔ source.w0 = source'.w0 := by
  constructor
  · intro h
    refine netBit_ext fun i hi => ?_
    have hbit := h (32 + i) ⟨by omega, by omega⟩
    rwa [keyBit_address _ hi, keyBit_address _ hi] at hbit
  · rintro h i ⟨hlo, hhi⟩
    obtain ⟨j, rfl⟩ := Nat.exists_eq_add_of_le hlo
    rw [keyBit_address _ (by omega), keyBit_address _ (by omega), query, query, h]

/-- Behind the address a query is zero, before it there is its family. -/
theorem keyBit_query (source : IpAddr) {i : Nat} (hi : i < 32 ∨ 160 ≤ i) :
    keyBit (query source) i = keyBit (query .zero) i := by
  rcases hi with hi | hi
  · exact @keyBit_family (query source) (query .zero) rfl i hi
  · have hlen (a : IpAddr) : a.bytes.length = 16 := rfl
    rw [keyBit, keyBit, bytesBit_eq, bytesBit_eq]
    congr 1
    simp only [KeyBytes.bytes, query]
    rw [List.getD_append_right _ _ _ _ (by simp [hlen]; omega),
      List.getD_append_right _ _ _ _ (by simp [hlen]; omega)]
    simp [hlen]

/-- Outside of the address the cell has tested for an IPv4 query's bits. -/
def InetCell (c : Cell BlacklistTrieEntry) : Prop :=
  ∀ i ∈ c.tested, i < 32 ∨ 160 ≤ i → keyBit c.key i = keyBit (query .zero) i

theorem InetCell.of_agrees {c : Cell BlacklistTrieEntry} {source : IpAddr}
    (h : c.Agrees keyBit (query source)) : InetCell c := by
  intro i hi hout
  rw [← h i hi, keyBit_query source hout]

/-- Such a cell is open: the bytes behind the first four can be anything. -/
theorem InetCell.isOpen {c : Cell BlacklistTrieEntry} (h : InetCell c) :
    c.Open known (fun q => ∃ source, q = query source) keyBit := by
  intro f hf
  obtain ⟨source, hsource⟩ := exists_bits fun i => if i < 32 then f (32 + i) else keyBit c.key (32 + i)
  have hknown : ∀ i, known i → keyBit (query source) i = f i := by
    rintro i ⟨hlo, hhi⟩
    obtain ⟨j, rfl⟩ := Nat.exists_eq_add_of_le hlo
    rw [keyBit_bit _ (by omega), query, hsource j (by omega), if_pos (by omega)]
  refine ⟨query source, ⟨source, rfl⟩, hknown, fun i hi => ?_⟩
  by_cases hout : i < 32 ∨ 160 ≤ i
  · rw [keyBit_query source hout, h i hi hout]
  · by_cases hin : i < 64
    · have hi' : known i := ⟨by omega, hin⟩
      rw [hknown i hi', hf i hi hi']
    · obtain ⟨j, rfl⟩ := Nat.exists_eq_add_of_le (show 32 ≤ i by omega)
      rw [keyBit_bit _ (by omega), query, hsource j (by omega), if_neg (by omega)]

theorem Keyed.masked {cidrs : List Cidr} {cells : List (Cell BlacklistTrieEntry)}
    (h : Keyed cidrs cells) :
    ∀ c ∈ cells, c.key.address.w0 &&& c.key.mask.w0 = c.key.address.w0 := by
  intro c hc
  obtain ⟨d, -, hkey⟩ := h c hc
  obtain ⟨n, bits, haddr, hmask, -⟩ := d.entry_spec
  rw [hkey, haddr, hmask, IpAddr.and, BitVec.and_assoc, BitVec.and_self]

/-- Whatever stands behind the first four bytes, an IPv4 lookup is answered alike, exactly when
of any two cells that IPv4 lookups come to each yields to the other: a bit tested for the one
is bound otherwise by the other, or each prefix bit of the one is tested there or bound alike
by the other. A cell binds the bits tested for it and the prefix bits of its key. -/
theorem rest_bits_iff (cidrs : List Cidr) (name message : CStr) :
    (∃ t, blacklistAddAll (blacklistCreate name message .trie) (cidrs.map (·.text)) = some t ∧
        ∀ source source', source.w0 = source'.w0 →
          blacklistMatch t source afInet = blacklistMatch t source' afInet) ↔
      ∀ c ∈ cidrs.foldl placeEntry [], ∀ c' ∈ cidrs.foldl placeEntry [],
        InetCell c → InetCell c' → Yields fixes known keyBit c c' := by
  obtain ⟨t, ht, htype, hreal, hkeyed⟩ := @addAll_trie (blacklistCreate name message .trie) rfl []
    cidrs [] (Trie.realises_create 288) (by simp [Keyed])
  have hmatch := fun source => match_trie_iff htype hreal hkeyed.masked source
  have hfixes : ∀ e : BlacklistTrieEntry, ∀ i, fixes e i → known i := fun e i hi => ⟨hi.1, hi.2.1⟩
  rw [ht]
  simp only [Option.some.injEq, exists_eq_left']
  constructor
  · intro h c hc c' hc' hinet hinet'
    refine (BitCells.yields_iff hinet.isOpen hinet'.isOpen (hfixes _) (hfixes _)).mp ?_
    rintro _ _ ⟨source, rfl⟩ ⟨source', rfl⟩ halike hag hag' hin
    have hfound := (hmatch source).mpr ⟨c, hc, hag, hin⟩
    rw [h source source' ((known_alike_iff source source').mp halike)] at hfound
    obtain ⟨d, hd, hdag, hdin⟩ := (hmatch source').mp hfound
    rwa [hreal.tiling.apart c' hc' d hd _ hag' hdag]
  · intro h
    have hfound : ∀ source source', source.w0 = source'.w0 →
        blacklistMatch t source afInet = true → blacklistMatch t source' afInet = true := by
      intro source source' hw hfound
      obtain ⟨c, hc, hag, hin⟩ := (hmatch source).mp hfound
      have hside : keyBit (query source') 0 = keyBit c.key 0 := by
        rw [← hag 0 (hreal.tiling.zero_mem c hc)]
        exact keyBit_family rfl (by decide)
      obtain ⟨c', hc', hag'⟩ := hreal.tiling.total c hc _ hside
      have hyields := h c hc c' hc' (.of_agrees hag) (.of_agrees hag')
      exact (hmatch source').mpr ⟨c', hc', hag', BitCells.inNet_of_yields hyields (hfixes _)
        ((known_alike_iff source source').mpr hw) hag hag' hin⟩
    intro source source' hw
    exact Bool.eq_iff_iff.mpr ⟨hfound source source' hw, hfound source' source hw.symm⟩

private def block1 : Cidr := ⟨"2001:db8:1::/48".toList, by decide +kernel⟩

private def block8000 : Cidr := ⟨"2001:db8:8000::/48".toList, by decide +kernel⟩

private def host4 : Cidr := ⟨"1.2.3.4/32".toList, by decide +kernel⟩

/-- Two IPv6 blocks that differ in bit 32 send an IPv4 lookup by its first unset bit. -/
theorem unset_bytes_decide :
    ¬ ∀ (cidrs : List Cidr) (t : Blacklist) (source source' : IpAddr),
      blacklistAddAll (blacklistCreate [] [] .trie) (cidrs.map (·.text)) = some t →
      source.w0 = source'.w0 →
      blacklistMatch t source afInet = blacklistMatch t source' afInet := by
  intro h
  let source : Bool → IpAddr := fun set => ⟨0x04030201, if set then 0x80 else 0, 0, 0⟩
  have hanswers : (blacklistAddAll (blacklistCreate [] [] .trie)
      ([block1, block8000, host4].map (·.text))).map (fun t => decide
        (blacklistMatch t (source false) afInet = blacklistMatch t (source true) afInet)) =
      some false := by decide +kernel
  obtain ⟨t, ht, hdiffer⟩ := Option.map_eq_some_iff.mp hanswers
  exact of_decide_eq_false hdiffer (h _ t (source false) (source true) ht rfl)

end Greyd
