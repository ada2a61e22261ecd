import Greyd.BlacklistRuns

/-!
# Blacklists with blocks of both families

Neither storage keeps the family of a block apart from its bytes: a comparison is done in
the family of the query. The trie answers for no address that the array does not answer
for, but an array answers for addresses whose first bytes lie in a block of the other
family.
-/
namespace Greyd

open Trie (keyBit)

/-- The block contains the address. -/
def Cidr.Contains (c : Cidr) (source : IpAddr) : Prop := source.and c.entry.mask = c.entry.address

/-- The first four bytes of the address are as the block has them under its mask. -/
def Cidr.ContainsFirstWord (c : Cidr) (source : IpAddr) : Prop :=
  source.w0 &&& c.entry.mask.w0 = c.entry.address.w0

section
variable {l : Blacklist} {cidrs : List Cidr} {source : IpAddr} {af : SaFamily}

/-- The array is searched from end to end. -/
theorem match_list_iff_entry (h : FirstAlloc l (cidrs.map Cidr.listEntry)) :
    blacklistMatch l source af = true ↔
      ∃ c ∈ cidrs, 0 < ipMatchAddr c.entry.address c.entry.mask source af := by
  simp only [blacklistMatch, h.type, h.entries]
  rw [List.any_eq_true]
  simp [Cidr.listEntry]

/-- The two outcomes of a sequence of additions to a new list. -/
theorem addAll_new_list (name message : CStr) (cidrs : List Cidr) :
    (∃ l, blacklistAddAll (blacklistCreate name message .list) (cidrs.map (·.text)) = some l ∧
        cidrs.length ≤ listRoom ∧ FirstAlloc l (cidrs.map Cidr.listEntry)) ∨
      (blacklistAddAll (blacklistCreate name message .list) (cidrs.map (·.text)) = none ∧
        listRoom < cidrs.length) := by
  obtain ⟨hfit, hover⟩ := addAll_list (firstAlloc_create name message) cidrs
  simp only [List.length_nil, Nat.zero_add, List.nil_append] at hfit hover
  rcases Nat.lt_or_ge listRoom cidrs.length with hlt | hle
  · exact Or.inr ⟨hover hlt, hlt⟩
  · obtain ⟨l, hl, hfirst⟩ := hfit hle
    exact Or.inl ⟨l, hl, hle, hfirst⟩

/-- Every address that the trie answers for is answered for by the list. Both have the
same entries; the trie always has a result, the list as long as its array does not grow. -/
theorem trie_no_false_positives (cidrs : List Cidr) (tname tmessage lname lmessage : CStr) :
    (∃ t, blacklistAddAll (blacklistCreate tname tmessage .trie) (cidrs.map (·.text)) = some t) ∧
      (cidrs.length ≤ listRoom → ∃ l,
        blacklistAddAll (blacklistCreate lname lmessage .list) (cidrs.map (·.text)) = some l) ∧
      ∀ t l, blacklistAddAll (blacklistCreate tname tmessage .trie) (cidrs.map (·.text)) = some t →
        blacklistAddAll (blacklistCreate lname lmessage .list) (cidrs.map (·.text)) = some l →
        ∀ source af, blacklistMatch t source af = true → blacklistMatch l source af = true := by
  obtain ⟨t, ht, htype, hreal, hkeyed⟩ := @addAll_trie (blacklistCreate tname tmessage .trie) rfl []
    cidrs [] (Trie.realises_create 288) (by simp [Keyed])
  refine ⟨⟨t, ht⟩, fun hle => ?_, fun t' l ht' hl source af hmatch => ?_⟩
  · rcases addAll_new_list lname lmessage cidrs with ⟨l, hl, -⟩ | ⟨-, hlt⟩
    · exact ⟨l, hl⟩
    · omega
  · rw [ht] at ht'
    obtain rfl := Option.some.inj ht'
    rcases addAll_new_list lname lmessage cidrs with ⟨l', hl', -, hfirst⟩ | ⟨hnone, -⟩
    · rw [hl] at hl'
      obtain rfl := Option.some.inj hl'
      rw [blacklistMatch, htype] at hmatch
      obtain ⟨c, hc, -, hcmp⟩ :=
        (hreal.contains_iff cmpTrieEntry _ (by simp) (by simp)).mp hmatch
      obtain ⟨d, hd, hkey⟩ := hkeyed c hc
      rw [List.nil_append] at hd
      rw [hkey, cmpTrieEntry_eq_zero] at hcmp
      exact (match_list_iff_entry hfirst).mpr ⟨d, hd, hcmp⟩
    · rw [hnone] at hl
      cases hl

/-! ## Confusion of families -/

private theorem maskWord_eq_zero {bits j : Nat} (hbits : bits ≤ 32) (hj : 1 ≤ j) :
    maskWord bits j = 0 := by
  have hpast : bits - 32 * j = 0 := by omega
  rw [maskWord, if_neg (by omega), hpast]
  decide

/-- The words of an IPv4 block behind the first are zero in address and mask. -/
theorem Cidr.words_v4 {c : Cidr} (haf : c.entry.af = afInet) : ∃ a m : BitVec 32,
    c.entry.address = ⟨a, 0, 0, 0⟩ ∧ c.entry.mask = ⟨m, 0, 0, 0⟩ := by
  obtain ⟨n, bits, haddr, hmask, -, ⟨-, hbits⟩ | ⟨hfam, -⟩⟩ := c.entry_spec
  · refine ⟨n.w0 &&& maskWord bits 0, maskWord bits 0, ?_, ?_⟩
    · simp [haddr, maskOf, IpAddr.and, maskWord_eq_zero hbits]
    · simp [hmask, maskOf, maskWord_eq_zero hbits]
  · rw [haf] at hfam
    exact absurd hfam (by decide)

theorem Cidr.ipFamily (c : Cidr) : c.entry.af = afInet ∨ c.entry.af = afInet6 := by
  obtain ⟨n, bits, -, -, -, ⟨hfam, -⟩ | ⟨hfam, -⟩⟩ := c.entry_spec
  · exact Or.inl hfam
  · exact Or.inr hfam

private theorem pos_ite {p : Prop} [Decidable p] : (0 < if p then 1 else 0) ↔ p := by
  by_cases hp : p <;> simp [hp]

/-- In its own family a block answers for the addresses it contains. -/
theorem match_own_family {c : Cidr} (haf : c.entry.af = af) :
    0 < ipMatchAddr c.entry.address c.entry.mask source af ↔ c.Contains source := by
  rcases c.ipFamily with hfam | hfam
  · obtain ⟨a, m, haddr, hmask⟩ := c.words_v4 hfam
    simp [ipMatchAddr, pos_ite, ← haf, hfam, Cidr.Contains, haddr, hmask, IpAddr.and, eq_comm]
  · have hne : afInet6 ≠ afInet := by decide
    rcases haddr : c.entry.address with ⟨a0, a1, a2, a3⟩
    simp [ipMatchAddr, pos_ite, ← haf, hfam, hne, Cidr.Contains, haddr, IpAddr.and, eq_comm]

/-- In the other family it answers for the addresses that start like it. -/
theorem match_other_family {c : Cidr} (hip : af = afInet ∨ af = afInet6) (haf : c.entry.af ≠ af) :
    0 < ipMatchAddr c.entry.address c.entry.mask source af ↔ c.ContainsFirstWord source := by
  have hne : afInet6 ≠ afInet := by decide
  rcases hip with rfl | rfl
  · simp [ipMatchAddr, pos_ite, Cidr.ContainsFirstWord, eq_comm]
  · have hfam : c.entry.af = afInet := c.ipFamily.resolve_right haf
    obtain ⟨a, m, haddr, hmask⟩ := c.words_v4 hfam
    simp [ipMatchAddr, pos_ite, hne, Cidr.ContainsFirstWord, haddr, hmask, eq_comm]

/-- Every block of the other family that starts like the address comes with a block of the
address's own family that contains it. -/
def Unconfused (cidrs : List Cidr) (source : IpAddr) (af : SaFamily) : Prop :=
  ∀ c ∈ cidrs, c.entry.af ≠ af → c.ContainsFirstWord source →
    ∃ d ∈ cidrs, d.entry.af = af ∧ d.Contains source

/-- A list answers for the addresses of its blocks of the query's family, and for no
others, exactly when no block of the other family is mistaken for one of them. -/
theorem families_apart_iff (cidrs : List Cidr) (name message : CStr) (source : IpAddr)
    {af : SaFamily} (hip : af = afInet ∨ af = afInet6) :
    (∃ l, blacklistAddAll (blacklistCreate name message .list) (cidrs.map (·.text)) = some l ∧
        (blacklistMatch l source af = true ↔ ∃ c ∈ cidrs, c.entry.af = af ∧ c.Contains source)) ↔
      cidrs.length ≤ listRoom ∧ Unconfused cidrs source af := by
  rcases addAll_new_list name message cidrs with ⟨l, hl, hle, hfirst⟩ | ⟨hnone, hlt⟩
  · have hmatch := @match_list_iff_entry l cidrs source af hfirst
    simp only [hl, Option.some.injEq, exists_eq_left', hle, true_and]
    constructor
    · intro h c hc haf hword
      exact h.mp (hmatch.mpr ⟨c, hc, (match_other_family hip haf).mpr hword⟩)
    · intro h
      rw [hmatch]
      constructor
      · rintro ⟨c, hc, hpos⟩
        by_cases haf : c.entry.af = af
        · exact ⟨c, hc, haf, (match_own_family haf).mp hpos⟩
        · exact h c hc haf ((match_other_family hip haf).mp hpos)
      · rintro ⟨c, hc, haf, hin⟩
        exact ⟨c, hc, (match_own_family haf).mpr hin⟩
  · simp [hnone, Nat.not_le.mpr hlt]

private def documentation6 : Cidr := ⟨"2001:db8::/32".toList, by decide +kernel⟩

theorem families_apart_alone : [documentation6].length ≤ listRoom ∧
    Unconfused [documentation6] (addrOfBytes [192, 0, 2, 1]) afInet ∧
    ∃ l, blacklistAddAll (blacklistCreate [] [] .list) ([documentation6].map (·.text)) = some l ∧
      (blacklistMatch l (addrOfBytes [192, 0, 2, 1]) afInet = true ↔
        ∃ c ∈ [documentation6], c.entry.af = afInet ∧ c.Contains (addrOfBytes [192, 0, 2, 1])) := by
  have hroom : [documentation6].length ≤ listRoom := by decide
  have hapart : Unconfused [documentation6] (addrOfBytes [192, 0, 2, 1]) afInet := by
    intro c hc haf hword
    obtain rfl := List.mem_singleton.mp hc
    exact absurd hword (by unfold Cidr.ContainsFirstWord; decide +kernel)
  exact ⟨hroom, hapart, (families_apart_iff [documentation6] [] [] _ (Or.inl rfl)).mpr ⟨hroom, hapart⟩⟩

/-- The IPv4 address 32.1.13.184 has the bytes that 2001:db8::/32 starts with. -/
theorem list_confuses_families :
    ¬ ∀ (cidrs : List Cidr) (l : Blacklist) (source : IpAddr) (af : SaFamily),
      af = afInet ∨ af = afInet6 →
      blacklistAddAll (blacklistCreate [] [] .list) (cidrs.map (·.text)) = some l →
      (blacklistMatch l source af = true ↔ ∃ c ∈ cidrs, c.entry.af = af ∧ c.Contains source) := by
  intro h
  have hl : (blacklistAddAll (blacklistCreate [] [] .list) ([documentation6].map (·.text))).map
      (blacklistMatch · (addrOfBytes [32, 1, 13, 184]) afInet) = some true := by decide +kernel
  obtain ⟨l, hl, hmatch⟩ := Option.map_eq_some_iff.mp hl
  obtain ⟨c, hc, haf, -⟩ := (h _ l _ afInet (Or.inl rfl) hl).mp hmatch
  obtain rfl := List.mem_singleton.mp hc
  exact absurd haf (by decide +kernel)

end

end Greyd
