import Greyd.BlacklistRuns
import Greyd.ConfigPipe

/-!
# Blacklists of single addresses (blacklist.c)

The addresses of a list are sent as blocks that hold one address each. A trie tells such
blocks apart, unless an address of one family is the first word of one of the other: a
comparison is done in the family of the later one.
-/
namespace Greyd

open BitCells (Cell firstDiff)
open Trie (keyBit)

/-- The key that stands for a single address. -/
def hostEntry (ip : CStr) : Option BlacklistTrieEntry :=
  if ':' ∈ ip then (inetPton afInet6 ip).map fun n => ⟨afInet6, n, maskOf 128⟩
  else (inetPton afInet ip).map fun n => ⟨afInet, n, maskOf 32⟩

/-- A text that `IP_check_addr` and `inet_pton` take for an address, and of the same family. -/
structure HostText (checkAddr : CStr → Option SaFamily) (ip : CStr) : Prop where
  checked : checkAddr ip = some (if ':' ∈ ip then afInet6 else afInet)
  isSome : (hostEntry ip).isSome = true
  length_le : ip.length ≤ 39
  no_slash : '/' ∉ ip
  no_quote : '"' ∉ ip
  no_backslash : '\\' ∉ ip
  no_nul : nul ∉ ip

/-- The keys of single addresses. -/
def HostKey (e : BlacklistTrieEntry) : Prop :=
  e.af = afInet ∧ e.mask = maskOf 32 ∧ e.address.and (maskOf 32) = e.address ∨
    e.af = afInet6 ∧ e.mask = maskOf 128

/-- Addresses of different families have different first words. -/
def FamiliesApart (ips : List CStr) : Prop :=
  ∀ ip ∈ ips, ∀ ip' ∈ ips, ∀ e e', hostEntry ip = some e → hostEntry ip' = some e' →
    e.address.w0 = e'.address.w0 → e.af = e'.af

theorem maskOf_32 : maskOf 32 = ⟨0xffffffff, 0, 0, 0⟩ := by decide +kernel

theorem maskOf_128 : maskOf 128 = ⟨0xffffffff, 0xffffffff, 0xffffffff, 0xffffffff⟩ := by
  decide +kernel

theorem and_ones (w : BitVec 32) : w &&& 0xffffffff = w := BitVec.and_allOnes

theorem and_zeros (w : BitVec 32) : w &&& 0 = 0 := BitVec.and_zero

/-- Four bytes are the whole of an IPv4 address. -/
theorem addrOfBytes_and_32 {octets : List Nat} (h : octets.length = 4) :
    (addrOfBytes octets).and (maskOf 32) = addrOfBytes octets := by
  obtain ⟨a, b, c, d, rfl⟩ := List.length_eq_four.mp h
  have hzero : wordOfBytes 0 0 0 0 = 0 := by decide
  have h1 : (addrOfBytes [a, b, c, d]).w1 = 0 := hzero
  have h2 : (addrOfBytes [a, b, c, d]).w2 = 0 := hzero
  have h3 : (addrOfBytes [a, b, c, d]).w3 = 0 := hzero
  generalize addrOfBytes [a, b, c, d] = n at h1 h2 h3 ⊢
  obtain ⟨n0, n1, n2, n3⟩ := n
  dsimp only at h1 h2 h3
  rw [h1, h2, h3, maskOf_32, IpAddr.and, and_ones]
  simp only [and_zeros]

theorem and_128 (n : IpAddr) : n.and (maskOf 128) = n := by
  rw [maskOf_128, IpAddr.and, and_ones, and_ones, and_ones, and_ones]

section Text

variable {checkAddr : CStr → Option SaFamily} {ip : CStr}

theorem HostText.sent (h : HostText checkAddr ip) :
    sentAddress checkAddr ip = ip ++ '/' :: decimal (if ':' ∈ ip then 128 else 32) := by
  unfold sentAddress
  rw [if_neg h.no_slash, h.checked]
  by_cases hcolon : ':' ∈ ip
  · rw [if_pos hcolon, if_pos hcolon, if_neg (by decide)]
  · rw [if_neg hcolon, if_neg hcolon, if_pos rfl]

/-- What `Blacklist_add` makes of an address that is sent. -/
theorem HostText.parsed (h : HostText checkAddr ip) : ∃ e, hostEntry ip = some e ∧ HostKey e ∧
    ipStrToAddrMask (sentAddress checkAddr ip) afUnspec = ⟨0, e.address, e.mask, e.af⟩ := by
  obtain ⟨e, he⟩ := Option.isSome_iff_exists.mp h.isSome
  refine ⟨e, he, ?_⟩
  rw [h.sent]
  unfold hostEntry at he
  by_cases hcolon : ':' ∈ ip
  · rw [if_pos hcolon] at he ⊢
    obtain ⟨n, hn, rfl⟩ := Option.map_eq_some_iff.mp he
    refine ⟨.inr ⟨rfl, rfl⟩, ?_⟩
    have hscan : scanCidr (ip ++ '/' :: decimal 128) = some (ip, 128) :=
      scanCidr_append (List.ne_nil_of_mem hcolon) h.length_le h.no_slash (by decide)
    have hrange : ¬ (128 = 0 ∨ 128 > ipMaxMaskbits) := by decide
    have hfamily : ¬ (afInet6 = afInet ∧ 128 > ipMaxMaskbitsV4) := by decide
    unfold ipStrToAddrMask
    rw [hscan]
    dsimp only
    rw [if_neg hrange, if_pos hcolon, if_neg hfamily, hn]
    dsimp only
    rw [and_128]
  · rw [if_neg hcolon] at he ⊢
    obtain ⟨n, hn, rfl⟩ := Option.map_eq_some_iff.mp he
    rw [inetPton, if_pos rfl] at hn
    obtain ⟨octets, hoctets, rfl⟩ := Option.map_eq_some_iff.mp hn
    have hand := addrOfBytes_and_32 (inetPton4Loop_length hoctets)
    refine ⟨.inl ⟨rfl, rfl, hand⟩, ?_⟩
    rw [ipStrToAddrMask_printed4 afUnspec hoctets (by decide) (by decide), hand]

theorem HostText.accepted (h : HostText checkAddr ip) :
    (ipStrToAddrMask (sentAddress checkAddr ip) afUnspec).ret = 0 := by
  obtain ⟨e, -, -, hparsed⟩ := h.parsed
  rw [hparsed]

def HostText.cidr (h : HostText checkAddr ip) : Cidr := ⟨sentAddress checkAddr ip, h.accepted⟩

theorem HostText.cidr_entry (h : HostText checkAddr ip) :
    hostEntry ip = some h.cidr.entry ∧ HostKey h.cidr.entry := by
  obtain ⟨e, he, hkey, hparsed⟩ := h.parsed
  have heq : h.cidr.entry = e := by
    show BlacklistTrieEntry.mk _ _ _ = e
    rw [cidr, hparsed]
  rw [heq]
  exact ⟨he, hkey⟩

end Text

theorem HostKey.mask_w0 {e : BlacklistTrieEntry} (h : HostKey e) : e.mask.w0 = 0xffffffff := by
  rcases h with ⟨-, hmask, -⟩ | ⟨-, hmask⟩
  · rw [hmask, maskOf_32]
  · rw [hmask, maskOf_128]

/-- An IPv4 address is its first word. -/
theorem HostKey.address_v4 {e : BlacklistTrieEntry} (h : HostKey e) (haf : e.af = afInet) :
    e = ⟨afInet, ⟨e.address.w0, 0, 0, 0⟩, maskOf 32⟩ := by
  rcases h with ⟨-, hmask, haddr⟩ | ⟨h6, -⟩
  · obtain ⟨af, ⟨w0, w1, w2, w3⟩, mask⟩ := e
    rw [maskOf_32, IpAddr.and, and_ones] at haddr
    dsimp only at haf hmask haddr ⊢
    rw [haf, hmask, ← haddr, and_zeros, and_zeros, and_zeros]
  · rw [h6] at haf
    exact absurd haf (by decide)

/-- A comparison looks at the first words at least. -/
theorem HostKey.first_of_cmp {e k : BlacklistTrieEntry} (he : HostKey e)
    (h : cmpTrieEntry e k = 0) : e.address.w0 = k.address.w0 := by
  have hmatch := cmpTrieEntry_eq_zero.mp h
  unfold ipMatchAddr at hmatch
  rw [he.mask_w0, and_ones] at hmatch
  split at hmatch
  · split at hmatch
    · next heq => exact heq
    · exact absurd hmatch (lt_irrefl 0)
  · split at hmatch
    · split at hmatch
      · next heq => exact heq.1
      · exact absurd hmatch (lt_irrefl 0)
    · exact absurd hmatch (lt_irrefl 0)

/-- Addresses are told apart by a comparison, if their families are. -/
theorem HostKey.eq_of_cmp {e k : BlacklistTrieEntry} (he : HostKey e) (hk : HostKey k)
    (h : cmpTrieEntry e k = 0) (hapart : e.address.w0 = k.address.w0 → e.af = k.af) : e = k := by
  have hfirst := he.first_of_cmp h
  have haf := hapart hfirst
  rcases he with he4 | ⟨he6, hmask⟩
  · rw [HostKey.address_v4 (.inl he4) he4.1, hk.address_v4 (haf ▸ he4.1), hfirst]
  · rcases hk with ⟨hk4, -⟩ | ⟨hk6, hmask'⟩
    · rw [he6, hk4] at haf
      exact absurd haf (by decide)
    · have hmatch := cmpTrieEntry_eq_zero.mp h
      unfold ipMatchAddr at hmatch
      rw [hk6, if_neg (by decide), if_pos rfl, hmask, maskOf_128] at hmatch
      simp only [and_ones] at hmatch
      obtain ⟨eaf, ⟨e0, e1, e2, e3⟩, emask⟩ := e
      obtain ⟨kaf, ⟨k0, k1, k2, k3⟩, kmask⟩ := k
      dsimp only at he6 hk6 hmask hmask' hmatch
      split at hmatch
      · next heq =>
        obtain ⟨h0, h1, h2, h3⟩ := heq
        rw [he6, hk6, hmask, hmask', h0, h1, h2, h3]
      · exact absurd hmatch (lt_irrefl 0)

/-! ## The trie -/

/-- Blocks that cover only themselves are all stored. -/
theorem foldl_placeEntry_keys (cidrs : List Cidr) {done : List Cidr}
    {cells : List (Cell BlacklistTrieEntry)} (hkeyed : Keyed done cells)
    (hapart : ∀ c ∈ done ++ cidrs, ∀ k ∈ done ++ cidrs,
      cmpTrieEntry c.entry k.entry = 0 → c.entry = k.entry) (e : BlacklistTrieEntry) :
    (∃ c ∈ cidrs.foldl placeEntry cells, c.key = e) ↔
      (∃ c ∈ cells, c.key = e) ∨ ∃ k ∈ cidrs, k.entry = e := by
  induction cidrs generalizing done cells with
  | nil => simp
  | cons k cidrs ih =>
    have hk : k ∈ done ++ k :: cidrs := List.mem_append_right _ List.mem_cons_self
    have hplace : (∃ c ∈ placeEntry cells k, c.key = e) ↔ (∃ c ∈ cells, c.key = e) ∨ e = k.entry := by
      apply BitCells.exists_key_place
      · intro c hc hcov
        obtain ⟨d, hd, hkey⟩ := hkeyed c hc
        rw [hkey] at hcov ⊢
        exact hapart d (List.mem_append_left _ hd) k hk (of_decide_eq_true hcov)
      · intro c hc hcov
        obtain ⟨d, hd, hkey⟩ := hkeyed c hc
        rw [hkey] at hcov ⊢
        exact firstDiff_of_cmp_ne (of_decide_eq_false hcov)
    rw [List.foldl_cons, @ih (done ++ [k]) (placeEntry cells k) (hkeyed.place k) (by
      rwa [List.append_assoc]), hplace]
    simp only [List.mem_cons, exists_eq_or_imp, or_assoc]
    exact or_congr_right (or_congr_left eq_comm)

/-- A blacklist of such addresses has the entries of all of them, and no other. -/
theorem addAll_hosts {checkAddr : CStr → Option SaFamily} {ips : List CStr}
    (hhosts : ∀ ip ∈ ips, HostText checkAddr ip) (hapart : FamiliesApart ips)
    (name message : CStr) :
    ∃ bl, blacklistAddAll (blacklistCreate name message .trie) (ips.map (sentAddress checkAddr)) =
        some bl ∧
      ∀ e, (∃ c ∈ bl.trie.cells, c.key = e) ↔ ∃ ip ∈ ips, hostEntry ip = some e := by
  let cidrs : List Cidr := ips.attach.map fun ip => (hhosts ip.1 ip.2).cidr
  have htexts : cidrs.map (·.text) = ips.map (sentAddress checkAddr) := by
    simp [cidrs, HostText.cidr]
  have hmem : ∀ c ∈ cidrs, ∃ ip ∈ ips, hostEntry ip = some c.entry ∧ HostKey c.entry := by
    intro c hc
    obtain ⟨ip, -, rfl⟩ := List.mem_map.mp hc
    exact ⟨ip.1, ip.2, (hhosts ip.1 ip.2).cidr_entry⟩
  have htold : ∀ c ∈ [] ++ cidrs, ∀ k ∈ [] ++ cidrs,
      cmpTrieEntry c.entry k.entry = 0 → c.entry = k.entry := by
    rw [List.nil_append]
    intro c hc k hk hcmp
    obtain ⟨ip, hip, he, hkey⟩ := hmem c hc
    obtain ⟨ip', hip', he', hkey'⟩ := hmem k hk
    exact hkey.eq_of_cmp hkey' hcmp (hapart ip hip ip' hip' _ _ he he')
  obtain ⟨bl, hall, -, hreal, -⟩ := @addAll_trie (blacklistCreate name message .trie) rfl []
    cidrs [] (Trie.realises_create 288) (by simp [Keyed])
  refine ⟨bl, htexts ▸ hall, fun e => ?_⟩
  simp only [hreal.cells_iff]
  rw [foldl_placeEntry_keys cidrs (by simp [Keyed] : Keyed [] []) htold]
  constructor
  · rintro (⟨c, hc, -⟩ | ⟨c, hc, rfl⟩)
    · exact absurd hc List.not_mem_nil
    · obtain ⟨ip, hip, he, -⟩ := hmem c hc
      exact ⟨ip, hip, he⟩
  · intro hgiven
    obtain ⟨ip, hip, he⟩ := hgiven
    refine .inr ⟨(hhosts ip hip).cidr, List.mem_map.mpr ⟨⟨ip, hip⟩, List.mem_attach _ _, rfl⟩, ?_⟩
    exact Option.some.inj ((hhosts ip hip).cidr_entry.1.symm.trans he)

end Greyd
