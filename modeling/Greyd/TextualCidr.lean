import Mathlib.Tactic
import Greyd.Ip

/-!
# Textual blocks as prefixes (ip.c)

Which texts of an address and a number of bits `IP_str_to_addr_mask` takes, and what they
match. The number is read by `%u`, which keeps 32 bits of what is written.
-/
namespace Greyd

/-! ## Bits of an address -/

namespace IpAddr

def word (a : IpAddr) : Nat → BitVec 32
  | 0 => a.w0
  | 1 => a.w1
  | 2 => a.w2
  | _ => a.w3

/-- Bit `i` of the address, from the first bit of its first byte. -/
def bit (a : IpAddr) (i : Nat) : Bool := netBit (a.word (i / 32)) (i % 32)

theorem word_and (a m : IpAddr) (j : Nat) : (a.and m).word j = a.word j &&& m.word j := by
  rcases j with _ | _ | _ | j <;> rfl

theorem word_maskOf (bits : Nat) {j : Nat} (hj : j < 4) : (maskOf bits).word j = maskWord bits j := by
  rcases j with _ | _ | _ | _ | j
  · rfl
  · rfl
  · rfl
  · rfl
  · omega

end IpAddr

/-- A word of a mask has the bits of the prefix that fall into it. -/
theorem netBit_maskWord {bits j i : Nat} (hi : i < 32) :
    netBit (maskWord bits j) i = decide (32 * j + i < bits) := by
  by_cases hfull : 32 * (j + 1) ≤ bits
  · have hword : maskWord bits j = (maskOf 32).w0 := by
      rw [maskWord, if_pos hfull]
      rfl
    rw [hword, netBit_maskOf (Nat.le_refl 32) hi]
    exact decide_eq_decide.mpr (iff_of_true hi (by omega))
  · have hrest : ¬ 32 * (0 + 1) ≤ bits - 32 * j := by omega
    have hword : maskWord bits j = (maskOf (bits - 32 * j)).w0 := by
      rw [maskWord, if_neg hfull, maskOf, maskWord, if_neg hrest]
      rfl
    rw [hword, netBit_maskOf (by omega) hi]
    exact decide_eq_decide.mpr (by omega)

/-- The number of bits in an address of the family. -/
def familyBits (af : SaFamily) : Nat := if af = afInet then ipMaxMaskbitsV4 else ipMaxMaskbits

theorem ipMatchAddr_pos {af : SaFamily} (haf : af = afInet ∨ af = afInet6) (a m b : IpAddr) :
    0 < ipMatchAddr a m b af ↔ ∀ j < familyBits af / 32, a.word j = b.word j &&& m.word j := by
  rcases haf with rfl | rfl
  · have hwords : familyBits afInet / 32 = 1 := rfl
    rw [ipMatchAddr, if_pos rfl, hwords]
    split_ifs with h
    · exact iff_of_true Nat.one_pos fun j hj => by
        obtain rfl : j = 0 := by omega
        exact h
    · exact iff_of_false (Nat.lt_irrefl 0) fun hall => h (hall 0 Nat.one_pos)
  · have hwords : familyBits afInet6 / 32 = 4 := rfl
    rw [ipMatchAddr, if_neg (by decide), if_pos rfl, hwords]
    split_ifs with h
    · refine iff_of_true Nat.one_pos fun j hj => ?_
      rcases j with _ | _ | _ | _ | j
      · exact h.1
      · exact h.2.1
      · exact h.2.2.1
      · exact h.2.2.2
      · omega
    · exact iff_of_false (Nat.lt_irrefl 0) fun hall => h
        ⟨hall 0 (by decide), hall 1 (by decide), hall 2 (by decide), hall 3 (by decide)⟩

/-- What a block matches are the addresses that begin with its prefix. -/
theorem ipMatchAddr_prefix {af : SaFamily} (haf : af = afInet ∨ af = afInet6) (n b : IpAddr) {bits : Nat}
    (hbits : bits ≤ familyBits af) :
    0 < ipMatchAddr (n.and (maskOf bits)) (maskOf bits) b af ↔ ∀ i < bits, b.bit i = n.bit i := by
  have hfamily : familyBits af = 32 * (familyBits af / 32) ∧ familyBits af / 32 ≤ 4 := by
    rcases haf with rfl | rfl <;> exact ⟨rfl, by decide⟩
  have hword : ∀ j < familyBits af / 32,
      ((n.and (maskOf bits)).word j = b.word j &&& (maskOf bits).word j ↔
        ∀ i < 32, 32 * j + i < bits → netBit (b.word j) i = netBit (n.word j) i) := by
    intro j hj
    have hmasked : (n.and (maskOf bits)).word j &&& (maskOf bits).word j =
        (n.and (maskOf bits)).word j := by
      rw [IpAddr.word_and, BitVec.and_assoc, BitVec.and_self]
    have hmask : ∀ i < 32, netBit ((maskOf bits).word j) i = decide (32 * j + i < bits) := by
      intro i hi
      rw [IpAddr.word_maskOf bits (by omega), netBit_maskWord hi]
    rw [masked_eq_iff hmasked]
    refine forall₂_congr fun i hi => ?_
    rw [hmask i hi, decide_eq_true_iff]
    refine imp_congr_right fun hlt => ?_
    rw [IpAddr.word_and, netBit_and, hmask i hi, decide_eq_true hlt, Bool.and_true]
  rw [ipMatchAddr_pos haf]
  constructor
  · intro h i hi
    refine (hword (i / 32) (by omega)).mp (h (i / 32) (by omega)) (i % 32) (Nat.mod_lt i (by decide)) ?_
    rwa [Nat.div_add_mod]
  · intro h j hj
    refine (hword j hj).mpr fun i hi hlt => ?_
    have hbit := h (32 * j + i) hlt
    have hdiv : (32 * j + i) / 32 = j := by omega
    have hmod : (32 * j + i) % 32 = i := by omega
    rwa [IpAddr.bit, IpAddr.bit, hdiv, hmod] at hbit

/-! ## Texts of addresses -/

theorem inetPton6Finish_full {out r : List Nat} (h : inetPton6Finish out none = some r) :
    out.length = 16 := by
  rw [inetPton6Finish] at h
  split_ifs at h with hlen
  exact hlen

/-- Without a colon there is one group at most. -/
theorem inetPton6Loop_colon {src : CStr} {curtok : CStr} {val : Option Nat} {r : List Nat}
    (h : inetPton6Loop src [] none curtok val = some r) : ':' ∈ src := by
  induction src generalizing curtok val with
  | nil =>
    rw [inetPton6Loop.eq_def] at h
    dsimp only at h
    cases val with
    | none => exact absurd (inetPton6Finish_full h) (by decide)
    | some v =>
      dsimp only at h
      rw [if_neg (by decide)] at h
      have hfull := inetPton6Finish_full h
      cases hfull
  | cons c rest ih =>
    by_contra hcolon
    obtain ⟨hc, hrest⟩ := not_or.mp (mt List.mem_cons.mpr hcolon)
    rw [inetPton6Loop.eq_def] at h
    dsimp only at h
    cases hval : hexVal c.toLower with
    | some d =>
      rw [hval] at h
      dsimp only at h
      split_ifs at h
      exact hrest (ih h)
    | none =>
      rw [hval] at h
      dsimp only at h
      rw [if_neg (Ne.symm hc)] at h
      split_ifs at h
      cases hquad : inetPton4 (curtok ++ c :: rest) with
      | none =>
        rw [hquad] at h
        cases h
      | some quad =>
        rw [hquad] at h
        have hlen : quad.length = 4 := inetPton4Loop_length hquad
        have hfull := inetPton6Finish_full h
        rw [List.nil_append, hlen] at hfull
        cases hfull

theorem inetPton6Loop_slash {src : CStr} {out : List Nat} {colonp : Option Nat} {curtok : CStr}
    {val : Option Nat} {r : List Nat} (h : inetPton6Loop src out colonp curtok val = some r) :
    '/' ∉ src := by
  induction src generalizing out colonp curtok val with
  | nil => exact List.not_mem_nil
  | cons c rest ih =>
    have hstop {d : Char} (hd : hexVal d.toLower ≠ none ∨ d = ':') : d ≠ '/' := by
      intro heq
      subst heq
      exact hd.elim (fun h => h rfl) (by decide)
    rw [inetPton6Loop.eq_def] at h
    dsimp only at h
    cases hval : hexVal c.toLower with
    | some d =>
      rw [hval] at h
      dsimp only at h
      split_ifs at h
      exact List.not_mem_cons_of_ne_of_not_mem (hstop (.inl (by simp [hval]))).symm (ih h)
    | none =>
      rw [hval] at h
      dsimp only at h
      by_cases hc : c = ':'
      · have hrest : '/' ∉ rest := by
          rw [if_pos hc] at h
          cases val with
          | none =>
            dsimp only at h
            split_ifs at h
            exact ih h
          | some v =>
            dsimp only at h
            split_ifs at h
            exact ih h
        exact List.not_mem_cons_of_ne_of_not_mem (hstop (.inr hc)).symm hrest
      · rw [if_neg hc] at h
        split_ifs at h
        cases hquad : inetPton4 (curtok ++ c :: rest) with
        | none =>
          rw [hquad] at h
          cases h
        | some quad =>
          intro hmem
          have hchar := (inetPton4_shape hquad).1 '/' (List.mem_append_right _ hmem)
          exact absurd hchar (by decide)

theorem inetPton6_shape {src : CStr} {r : List Nat} (h : inetPton6 src = some r) :
    ':' ∈ src ∧ '/' ∉ src := by
  unfold inetPton6 at h
  split at h
  · next rest =>
    refine ⟨List.mem_cons_self, ?_⟩
    exact List.not_mem_cons_of_ne_of_not_mem (by decide) (inetPton6Loop_slash h)
  · cases h
  · exact ⟨inetPton6Loop_colon h, inetPton6Loop_slash h⟩

/-- The text of an address tells its family and ends before a slash. -/
theorem inetPton_shape {af : SaFamily} {src : CStr} {n : IpAddr} (h : inetPton af src = some n) :
    (af = afInet ∨ af = afInet6) ∧ (if ':' ∈ src then afInet6 else afInet) = af ∧ '/' ∉ src ∧ src ≠ [] := by
  unfold inetPton at h
  split_ifs at h with h4 h6
  · obtain ⟨octets, hoctets, -⟩ := Option.map_eq_some_iff.mp h
    obtain ⟨hchars, -, hne⟩ := inetPton4_shape hoctets
    have hcolon : ':' ∉ src := fun hmem => absurd (hchars _ hmem) (by decide)
    exact ⟨.inl h4, by rw [if_neg hcolon, h4], fun hmem => absurd (hchars _ hmem) (by decide), hne⟩
  · obtain ⟨bytes, hbytes, -⟩ := Option.map_eq_some_iff.mp h
    obtain ⟨hcolon, hslash⟩ := inetPton6_shape hbytes
    exact ⟨.inr h6, by rw [if_pos hcolon, h6], hslash, List.ne_nil_of_mem hcolon⟩

/-! ## Numbers of bits -/

/-- The number that a text begins with, behind blanks and a sign. -/
def numberAt (s : CStr) : Option Int :=
  let s := s.dropWhile isspace
  let neg := s.head? = some '-'
  let digits := (if neg ∨ s.head? = some '+' then s.tail else s).takeWhile Char.isDigit
  if digits = [] then none
  else
    let v := digits.foldl (fun n c => n * 10 + digitVal c) 0
    some (if neg then -(v : Int) else v)

/-- What `%u` makes of a number: `strtoul` returns 64 bits of it, the greatest value where it
does not fit, and 32 of them are stored. -/
def storedUnsigned (v : Int) : Nat := if 2 ^ 64 ≤ v.natAbs then 2 ^ 32 - 1 else (v % 2 ^ 32).toNat

theorem scanUnsigned_eq (s : CStr) : scanUnsigned s = (numberAt s).map storedUnsigned := by
  unfold scanUnsigned numberAt
  dsimp only
  generalize s.dropWhile isspace = s
  generalize (if s.head? = some '-' ∨ s.head? = some '+' then s.tail else s).takeWhile Char.isDigit = digits
  generalize digits.foldl (fun n c => n * 10 + digitVal c) 0 = v
  by_cases hnone : digits = []
  · rw [if_pos hnone, if_pos hnone]
    rfl
  · rw [if_neg hnone, if_neg hnone, Option.map_some, storedUnsigned]
    by_cases hover : v ≥ 2 ^ 64
    · have habs : 2 ^ 64 ≤ (if s.head? = some '-' then -(v : Int) else v).natAbs := by
        split_ifs <;> omega
      rw [if_pos hover, if_pos habs]
    · have habs : ¬ 2 ^ 64 ≤ (if s.head? = some '-' then -(v : Int) else v).natAbs := by
        split_ifs <;> omega
      rw [if_neg hover, if_neg habs]
      congr 1
      split_ifs <;> omega

/-- A number of bits that an address of the family has. -/
def InRange (af : SaFamily) (v : Int) : Prop := 1 ≤ v ∧ v ≤ familyBits af

instance (af : SaFamily) (v : Int) : Decidable (InRange af v) := inferInstanceAs (Decidable (_ ∧ _))

theorem familyBits_le (af : SaFamily) : familyBits af ≤ ipMaxMaskbits := by
  unfold familyBits
  split_ifs
  · decide
  · exact Nat.le_refl _

theorem storedUnsigned_inRange {af : SaFamily} {v : Int} (h : InRange af v) :
    storedUnsigned v = v.toNat := by
  have hle : (familyBits af : Int) ≤ 128 := Int.ofNat_le.mpr (familyBits_le af)
  obtain ⟨hpos, hmax⟩ := h
  rw [storedUnsigned, if_neg (by omega), Int.emod_eq_of_lt (by omega) (by omega)]

/-- What `%u` stores is in range for the numbers of up to 64 bits whose low 32 bits are. -/
theorem inRange_storedUnsigned (af : SaFamily) (v : Int) :
    InRange af (storedUnsigned v) ↔ v.natAbs < 2 ^ 64 ∧ InRange af (v % 2 ^ 32) := by
  have hle : (familyBits af : Int) ≤ 128 := Int.ofNat_le.mpr (familyBits_le af)
  unfold storedUnsigned InRange
  split_ifs with hover
  · exact iff_of_false (by push_cast; omega) (by omega)
  · have hnonneg : 0 ≤ v % 2 ^ 32 := Int.emod_nonneg v (by decide)
    rw [Int.toNat_of_nonneg hnonneg]
    exact (and_iff_right (Nat.not_le.mp hover)).symm

/-! ## Blocks from texts -/

section text
variable {addr bits : CStr} {fam : SaFamily} {n : IpAddr}

theorem ipStrToAddrMask_stored (haddr : inetPton fam addr = some n) (hlen : addr.length ≤ 39)
    (af : SaFamily) {v : Int} (hv : numberAt bits = some v) (hin : InRange fam (storedUnsigned v)) :
    ipStrToAddrMask (addr ++ '/' :: bits) af =
      ⟨0, n.and (maskOf (storedUnsigned v)), maskOf (storedUnsigned v), fam⟩ := by
  obtain ⟨-, hfam, hslash, hne⟩ := inetPton_shape haddr
  have hscan : scanCidr (addr ++ '/' :: bits) = some (addr, storedUnsigned v) := by
    rw [scanCidr_text hne hlen hslash, scanUnsigned_eq, hv]
    rfl
  obtain ⟨hpos, hmax⟩ := hin
  have hle := familyBits_le fam
  have hrange : ¬ (storedUnsigned v = 0 ∨ storedUnsigned v > ipMaxMaskbits) := by omega
  have hv4 : ¬ (fam = afInet ∧ storedUnsigned v > ipMaxMaskbitsV4) := by
    intro hgiven
    obtain ⟨rfl, hgt⟩ := hgiven
    have hbits : familyBits afInet = ipMaxMaskbitsV4 := rfl
    omega
  rw [ipStrToAddrMask, hscan]
  dsimp only
  rw [if_neg hrange, hfam, if_neg hv4, haddr]

theorem ipStrToAddrMask_outside (haddr : inetPton fam addr = some n) (hlen : addr.length ≤ 39)
    (af : SaFamily) (hout : ∀ v, numberAt bits = some v → ¬ InRange fam (storedUnsigned v)) :
    (ipStrToAddrMask (addr ++ '/' :: bits) af).ret = -1 := by
  obtain ⟨hinet, hfam, hslash, hne⟩ := inetPton_shape haddr
  have hscan := scanCidr_text hne hlen hslash bits
  rw [scanUnsigned_eq] at hscan
  rw [ipStrToAddrMask, hscan]
  cases hv : numberAt bits with
  | none => rfl
  | some v =>
    have hout := hout v hv
    simp only [Option.map_some]
    rw [hfam]
    split_ifs with hrange hv4
    · rfl
    · rfl
    · refine absurd ⟨?_, ?_⟩ hout
      · omega
      · rcases hinet with rfl | rfl
        · have hbits : familyBits afInet = ipMaxMaskbitsV4 := rfl
          rw [hbits]
          exact Int.ofNat_le.mpr (Nat.not_lt.mp fun hgt => hv4 ⟨rfl, hgt⟩)
        · have hbits : familyBits afInet6 = ipMaxMaskbits := rfl
          rw [hbits]
          omega

/-- A text of an address and a number of bits is taken as the block of the first so many bits
if these are in range and refused if not, exactly for numbers in range and those that `%u`
stores as a value out of range. -/
theorem textual_cidr_iff (haddr : inetPton fam addr = some n) (hlen : addr.length ≤ 39)
    (bits : CStr) (af : SaFamily) :
    let r := ipStrToAddrMask (addr ++ '/' :: bits) af
    ((∀ v, numberAt bits = some v → InRange fam v → r.ret = 0 ∧ r.af = fam ∧
        ∀ b, 0 < ipMatchAddr r.n r.m b r.af ↔ ∀ i < v.toNat, b.bit i = n.bit i) ∧
      ((∀ v, numberAt bits = some v → ¬ InRange fam v) → r.ret = -1)) ↔
      ∀ v, numberAt bits = some v →
        InRange fam v ∨ 2 ^ 64 ≤ v.natAbs ∨ ¬ InRange fam (v % 2 ^ 32) := by
  intro r
  have hinet := (inetPton_shape haddr).1
  constructor
  · rintro ⟨-, hrefused⟩ v hv
    by_cases hin : InRange fam v
    · exact .inl hin
    · refine .inr (Nat.lt_or_ge v.natAbs (2 ^ 64) |>.symm.imp_right fun hlt hlow => ?_)
      have hret := hrefused fun v' hv' => by rwa [← Option.some.inj (hv.symm.trans hv')]
      have hstored := (inRange_storedUnsigned fam v).mpr ⟨hlt, hlow⟩
      have hr : r = _ := ipStrToAddrMask_stored haddr hlen af hv hstored
      rw [hr] at hret
      cases hret
  · intro h
    refine ⟨fun v hv hin => ?_, fun hout => ipStrToAddrMask_outside haddr hlen af fun v hv => ?_⟩
    · have hvalue := storedUnsigned_inRange hin
      have hstored : InRange fam (storedUnsigned v) := by
        rw [hvalue, Int.toNat_of_nonneg (Int.le_trans (by decide) hin.1)]
        exact hin
      have hr : r = _ := ipStrToAddrMask_stored haddr hlen af hv hstored
      rw [hr, hvalue]
      refine ⟨rfl, rfl, fun b => ipMatchAddr_prefix hinet n b ?_⟩
      exact Int.toNat_le.mpr hin.2
    · rw [inRange_storedUnsigned]
      intro hgiven
      obtain ⟨hlt, hlow⟩ := hgiven
      rcases h v hv with hin | hover | hnot
      · exact hout v hv hin
      · exact absurd hover (Nat.not_le.mpr hlt)
      · exact hnot hlow

end text

/-- A block of 48 bits. -/
theorem textual_cidr_documentation :
    let r := ipStrToAddrMask ("2001:db8:1::".toList ++ '/' :: "48".toList) afUnspec
    ((∀ v, numberAt "48".toList = some v → InRange afInet6 v → r.ret = 0 ∧ r.af = afInet6 ∧
        ∀ b, 0 < ipMatchAddr r.n r.m b r.af ↔
          ∀ i < v.toNat, b.bit i = IpAddr.bit ⟨0xb80d0120, 0x00000100, 0, 0⟩ i) ∧
      ((∀ v, numberAt "48".toList = some v → ¬ InRange afInet6 v) → r.ret = -1)) ↔
      ∀ v, numberAt "48".toList = some v →
        InRange afInet6 v ∨ 2 ^ 64 ≤ v.natAbs ∨ ¬ InRange afInet6 (v % 2 ^ 32) :=
  textual_cidr_iff (by decide +kernel) (by decide) "48".toList afUnspec

/-- 2^32 + 8 bits are read as 8. -/
theorem great_number_wraps :
    inetPton afInet "10.0.0.0".toList = some (.ofSAddr 0x0000000a) ∧
      numberAt "4294967304".toList = some 4294967304 ∧ ¬ InRange afInet 4294967304 ∧
      (ipStrToAddrMask ("10.0.0.0".toList ++ '/' :: "4294967304".toList) afUnspec).ret = 0 := by
  refine ⟨?_, ?_, ?_, ?_⟩ <;> decide +kernel

end Greyd
