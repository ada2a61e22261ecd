import Greyd.Ip
import Greyd.Support.AlignedBlocks

/-!
# Ranges and CIDR blocks (ip.c)

`IP_range_to_cidr_list` walks a range from the left. Each block it takes is the largest
one that starts there and fits.
-/
namespace Greyd

open AlignedBlocks (Block Largest Greedy)

structure IpCidr where
  addr : BitVec 32
  bits : Nat
  deriving DecidableEq

def imask (b : Nat) : BitVec 32 := if b = 0 then 0 else 0xffffffff#32 <<< (32 - b)

/-- The loop of `max_diff`, with the number of iterations left. -/
def maxDiffLoop (a b : BitVec 32) : Nat → Nat → Nat
  | 0, bits => bits
  | left + 1, bits =>
    if a &&& imask bits ≠ b &&& imask bits then bits else maxDiffLoop a b left (bits + 1)

def maxDiff (a b : BitVec 32) : Nat := maxDiffLoop a (b + 1) 32 0

def maxBlock (addr : BitVec 32) : Nat → Nat
  | 0 => 0
  | bits + 1 => if addr &&& imask bits ≠ addr then bits + 1 else maxBlock addr bits

/-- `IP_range_to_cidr_list`, the blocks in the order in which they are appended. `none`
when the loop is still running after `fuel` rounds. -/
def ipRangeToCidrList : Nat → BitVec 32 → BitVec 32 → Option (List IpCidr)
  | 0, _, _ => none
  | fuel + 1, start, end_ =>
    if end_ ≥ start then
      let maxsize := maxBlock start 32
      let diff := maxDiff start end_
      let maxsize := if maxsize > diff then maxsize else diff
      (ipRangeToCidrList fuel (start + (1#32 <<< (32 - maxsize))) end_).map (⟨start, maxsize⟩ :: ·)
    else some []

/-- `inet_ntoa`, of a word in network order. -/
def inetNtoa (w : BitVec 32) : CStr :=
  ['.'].intercalate ((wordBytes w).map (fun b => decimal b.toNat))

def ipCidrToStr (cidr : IpCidr) : CStr := inetNtoa (htonl cidr.addr) ++ '/' :: decimal cidr.bits

/-! ## Masks and multiples -/

theorem and_imask (a : BitVec 32) {b : Nat} (hb : b ≤ 32) :
    (a &&& imask b).toNat = a.toNat / 2 ^ (32 - b) * 2 ^ (32 - b) := by
  have hshift : a &&& imask b = (a >>> (32 - b)) <<< (32 - b) := by
    refine BitVec.eq_of_getLsbD_eq fun i hi => ?_
    rcases Nat.eq_zero_or_pos b with rfl | hpos
    · simp [imask, hi]
    · by_cases hlt : i < 32 - b
      · simp [imask, Nat.ne_of_gt hpos, hlt]
      · have hall : (0xffffffff#32).getLsbD (i - (32 - b)) = true := by
          rw [show (0xffffffff#32) = BitVec.allOnes 32 from rfl, BitVec.getLsbD_allOnes]
          exact decide_eq_true (by omega)
        simp only [imask, Nat.ne_of_gt hpos, ↓reduceIte, BitVec.getLsbD_and, BitVec.getLsbD_shiftLeft,
          hi, decide_true, hlt, decide_false, Bool.not_false, Bool.true_and, hall, Bool.and_true,
          BitVec.getLsbD_ushiftRight]
        congr 1
        omega
  have hle : a.toNat / 2 ^ (32 - b) * 2 ^ (32 - b) < 2 ^ 32 :=
    lt_of_le_of_lt (Nat.div_mul_le_self _ _) a.isLt
  rw [hshift, BitVec.toNat_shiftLeft, BitVec.toNat_ushiftRight, Nat.shiftLeft_eq,
    Nat.shiftRight_eq_div_pow, Nat.mod_eq_of_lt hle]

theorem and_imask_eq_iff (a c : BitVec 32) {b : Nat} (hb : b ≤ 32) :
    a &&& imask b = c &&& imask b ↔ a.toNat / 2 ^ (32 - b) = c.toNat / 2 ^ (32 - b) := by
  rw [BitVec.toNat_eq, and_imask a hb, and_imask c hb]
  exact Nat.mul_left_inj (Nat.two_pow_pos _).ne'

theorem and_imask_self_iff (a : BitVec 32) {b : Nat} (hb : b ≤ 32) :
    a &&& imask b = a ↔ 2 ^ (32 - b) ∣ a.toNat := by
  rw [BitVec.toNat_eq, and_imask a hb]
  exact ⟨fun h => ⟨_, by rw [Nat.mul_comm]; exact h.symm⟩, Nat.div_mul_cancel⟩

/-- `max_block` is the smallest prefix length at which the address is a network. -/
theorem maxBlock_spec (addr : BitVec 32) {n : Nat} (hn : n ≤ 32)
    (hdvd : 2 ^ (32 - n) ∣ addr.toNat) :
    maxBlock addr n ≤ n ∧ 2 ^ (32 - maxBlock addr n) ∣ addr.toNat ∧
      (maxBlock addr n = 0 ∨ ¬ 2 ^ (32 - maxBlock addr n + 1) ∣ addr.toNat) := by
  induction n with
  | zero => exact ⟨le_refl _, hdvd, Or.inl rfl⟩
  | succ bits ih =>
    by_cases h : addr &&& imask bits = addr
    · obtain ⟨hle, hrest⟩ := ih (by omega) ((and_imask_self_iff addr (by omega)).mp h)
      rw [maxBlock, if_neg (by simpa using h)]
      exact ⟨by omega, hrest⟩
    · rw [maxBlock, if_pos h]
      refine ⟨le_refl _, hdvd, Or.inr ?_⟩
      rw [show 32 - (bits + 1) + 1 = 32 - bits by omega]
      exact fun hd => h ((and_imask_self_iff addr (by omega)).mpr hd)

private theorem maxDiffLoop_spec {a b : BitVec 32} (hne : a.toNat ≠ b.toNat) (left bits : Nat)
    (hsum : bits + left = 32) (heq : ∀ d < bits, a.toNat / 2 ^ (32 - d) = b.toNat / 2 ^ (32 - d)) :
    maxDiffLoop a b left bits ≤ 32 ∧
      (∀ d < maxDiffLoop a b left bits, a.toNat / 2 ^ (32 - d) = b.toNat / 2 ^ (32 - d)) ∧
      a.toNat / 2 ^ (32 - maxDiffLoop a b left bits) ≠ b.toNat / 2 ^ (32 - maxDiffLoop a b left bits) := by
  induction left generalizing bits with
  | zero =>
    obtain rfl : bits = 32 := by omega
    exact ⟨le_refl _, heq, by simpa [maxDiffLoop] using hne⟩
  | succ left ih =>
    by_cases h : a &&& imask bits = b &&& imask bits
    · rw [maxDiffLoop, if_neg (by simpa using h)]
      refine ih (bits + 1) (by omega) fun d hd => ?_
      rcases Nat.lt_succ_iff_lt_or_eq.mp hd with hd | rfl
      · exact heq d hd
      · exact (and_imask_eq_iff a b (by omega)).mp h
    · rw [maxDiffLoop, if_pos h]
      exact ⟨by omega, heq, fun hd => h ((and_imask_eq_iff a b (by omega)).mpr hd)⟩

/-- `max_diff` is the shortest prefix that tells the start from the end's successor. -/
theorem maxDiff_spec {start end_ : BitVec 32} (hle : start ≤ end_) (hend : end_.toNat + 1 < 2 ^ 32) :
    maxDiff start end_ ≤ 32 ∧
      (∀ d < maxDiff start end_, start.toNat / 2 ^ (32 - d) = (end_.toNat + 1) / 2 ^ (32 - d)) ∧
      start.toNat / 2 ^ (32 - maxDiff start end_) <
        (end_.toNat + 1) / 2 ^ (32 - maxDiff start end_) := by
  have hsucc : (end_ + 1).toNat = end_.toNat + 1 := by
    rw [BitVec.toNat_add]
    exact Nat.mod_eq_of_lt hend
  have hlt : start.toNat < end_.toNat + 1 := Nat.lt_succ_of_le (BitVec.le_def.mp hle)
  obtain ⟨h32, heq, hne⟩ := maxDiffLoop_spec (a := start) (b := end_ + 1) (by omega) 32 0 rfl
    (by simp)
  rw [hsucc] at heq hne
  exact ⟨h32, heq, lt_of_le_of_ne (Nat.div_le_div_right hlt.le) hne⟩

/-! ## The walk takes the largest block -/

/-- The C value that stands for a block of addresses. -/
def IpCidr.ofBlock (b : Block) : IpCidr := ⟨BitVec.ofNat 32 b.start, 32 - b.size⟩

namespace IpCidr

def stop (c : IpCidr) : Nat := c.addr.toNat + 2 ^ (32 - c.bits)

/-- The addresses of a block. -/
def points (c : IpCidr) : Set Nat := Set.Ico c.addr.toNat c.stop

/-- A network: no address bit is set behind the prefix. -/
def Aligned (c : IpCidr) : Prop := c.bits ≤ 32 ∧ 2 ^ (32 - c.bits) ∣ c.addr.toNat

def toBlock (c : IpCidr) (h : c.Aligned) : Block := ⟨c.addr.toNat, 32 - c.bits, h.2⟩

end IpCidr

theorem div_lt_div_of_dvd {lo hi j k : Nat} (hjk : j ≤ k) (h : lo / 2 ^ k < hi / 2 ^ k) :
    lo / 2 ^ j < hi / 2 ^ j := by
  by_contra hle
  have hsplit : ∀ n, n / 2 ^ k = n / 2 ^ j / 2 ^ (k - j) := by
    intro n
    rw [Nat.div_div_eq_div_mul, ← pow_add, Nat.add_sub_cancel' hjk]
  rw [hsplit lo, hsplit hi] at h
  exact absurd (Nat.div_le_div_right (Nat.not_lt.mp hle)) (Nat.not_le.mpr h)

theorem largest_block {start end_ : BitVec 32} (hle : start ≤ end_) (hend : end_.toNat + 1 < 2 ^ 32) :
    ∃ b : Block, b.size = 32 - max (maxBlock start 32) (maxDiff start end_) ∧
      max (maxBlock start 32) (maxDiff start end_) ≤ 32 ∧
      Largest start.toNat (end_.toNat + 1) b := by
  obtain ⟨hmb, hdvd, hmax⟩ := maxBlock_spec start (le_refl 32) (by simp)
  obtain ⟨hmd, heq, hlt⟩ := maxDiff_spec hle hend
  generalize maxBlock start 32 = mb at *
  generalize maxDiff start end_ = md at *
  have haligned : 2 ^ (32 - max mb md) ∣ start.toNat :=
    (Nat.pow_dvd_pow 2 (by omega)).trans hdvd
  refine ⟨⟨start.toNat, 32 - max mb md, haligned⟩, rfl, by omega, rfl, ?_, ?_⟩
  · have hlt' := div_lt_div_of_dvd (j := 32 - max mb md) (by omega) hlt
    obtain ⟨q, hq⟩ := haligned
    rw [hq, Nat.mul_div_cancel_left _ (Nat.two_pow_pos _)] at hlt'
    have hfit := (Nat.le_div_iff_mul_le (Nat.two_pow_pos (32 - max mb md))).mp hlt'
    calc start.toNat + 2 ^ (32 - max mb md) = (q + 1) * 2 ^ (32 - max mb md) := by rw [hq]; ring
      _ ≤ end_.toNat + 1 := hfit
  · rintro ⟨cstart, k, hk⟩ rfl hfit
    by_contra hlarger
    simp only [Block.stop, not_le] at hfit hlarger
    -- the next larger size is either misaligned or does not fit
    have hstep : 2 ^ (32 - max mb md + 1) ∣ start.toNat :=
      (Nat.pow_dvd_pow 2 (by omega)).trans hk
    have hroom : start.toNat + 2 ^ (32 - max mb md + 1) ≤ end_.toNat + 1 :=
      (Nat.add_le_add_left (Nat.pow_le_pow_right (by decide) (by omega)) _).trans hfit
    rcases Nat.le_total md mb with hcase | hcase
    · rw [max_eq_left hcase] at hstep hroom
      rcases hmax with rfl | hno
      · have : 2 ^ (32 - 0 + 1) = 2 * 2 ^ 32 := by norm_num
        omega
      · exact hno hstep
    · rw [max_eq_right hcase] at hstep hroom
      have hpos : 0 < md := by
        by_contra hzero
        obtain rfl : md = 0 := by omega
        have hlast := Nat.div_eq_of_lt hend
        rw [Nat.sub_zero, hlast] at hlt
        omega
      have hsame := heq (md - 1) (by omega)
      rw [show 32 - (md - 1) = 32 - md + 1 by omega] at hsame
      obtain ⟨q, hq⟩ := hstep
      rw [hq, Nat.mul_div_cancel_left _ (Nat.two_pow_pos _)] at hsame
      have hq1 : q + 1 ≤ (end_.toNat + 1) / 2 ^ (32 - md + 1) := by
        rw [Nat.le_div_iff_mul_le (Nat.two_pow_pos _)]
        calc (q + 1) * 2 ^ (32 - md + 1) = start.toNat + 2 ^ (32 - md + 1) := by rw [hq]; ring
          _ ≤ end_.toNat + 1 := hroom
      omega

/-- A range that does not end with the last address of all is split greedily. -/
theorem ipRangeToCidrList_greedy (fuel : Nat) (start end_ : BitVec 32)
    (hend : end_.toNat + 1 < 2 ^ 32) (hle : start.toNat ≤ end_.toNat + 1)
    (hfuel : end_.toNat + 1 - start.toNat < fuel) :
    ∃ bs, ipRangeToCidrList fuel start end_ = some (bs.map IpCidr.ofBlock) ∧
      Greedy start.toNat (end_.toNat + 1) bs := by
  induction fuel generalizing start with
  | zero => omega
  | succ fuel ih =>
    by_cases h : end_ ≥ start
    · obtain ⟨b, hsize, hmax, hb⟩ := largest_block h hend
      have hmaxsize : (if maxBlock start 32 > maxDiff start end_ then maxBlock start 32
          else maxDiff start end_) = max (maxBlock start 32) (maxDiff start end_) := by
        split <;> omega
      have hstep : (start + (1#32 <<< b.size)).toNat = b.stop := by
        have hfits := hb.fits
        have hstart := hb.start
        simp only [Block.stop] at hfits ⊢
        have hpow : 2 ^ b.size < 2 ^ 32 := by omega
        rw [BitVec.toNat_add, BitVec.toNat_shiftLeft, Nat.shiftLeft_eq]
        simp only [BitVec.toNat_ofNat, Nat.one_mod_eq_one.mpr (by decide : 2 ^ 32 ≠ 1), Nat.one_mul]
        rw [Nat.mod_eq_of_lt hpow, Nat.mod_eq_of_lt (by omega)]
        omega
      have hfits := hb.fits
      have hlt := b.start_lt_stop
      have hstart := hb.start
      obtain ⟨bs, hrec, hgreedy⟩ := ih (start + (1#32 <<< b.size)) (by omega) (by omega)
      refine ⟨b :: bs, ?_, .step hb (hstep ▸ hgreedy)⟩
      simp only [ipRangeToCidrList, h, ↓reduceIte, hmaxsize, ← hsize, hrec, Option.map_some,
        List.map_cons, IpCidr.ofBlock, hstart, BitVec.ofNat_toNat, BitVec.setWidth_eq]
      congr 3
      omega
    · have heq : start.toNat = end_.toNat + 1 := by
        have := BitVec.lt_def.mp (BitVec.not_le.mp h)
        omega
      exact ⟨[], by simp [ipRangeToCidrList, h], heq ▸ .done _⟩

/-! ## Texts of blocks -/

theorem wordBytes_inj {v w : BitVec 32} (h : wordBytes v = wordBytes w) : v = w := by
  simp only [wordBytes, List.cons.injEq, and_true] at h
  obtain ⟨h0, h1, h2, h3⟩ := h
  refine BitVec.eq_of_getLsbD_eq fun i hi => ?_
  have hpick : ∀ {s : Nat}, (v >>> s).setWidth 8 = (w >>> s).setWidth 8 → s ≤ i → i < s + 8 →
      v.getLsbD i = w.getLsbD i := by
    intro s hs hle hlt
    have hbit := congrArg (fun x => BitVec.getLsbD x (i - s)) hs
    have hadd : s + (i - s) = i := by omega
    simpa [hadd, show i - s < 8 by omega] using hbit
  rcases (by omega : i < 8 ∨ 8 ≤ i ∧ i < 16 ∨ 16 ≤ i ∧ i < 24 ∨ 24 ≤ i) with h | h | h | h
  · exact @hpick 0 (by simpa using h0) (by omega) (by omega)
  · exact hpick h1 (by omega) (by omega)
  · exact hpick h2 (by omega) (by omega)
  · exact hpick h3 (by omega) (by omega)

theorem wordBytes_wordOfBytes (b0 b1 b2 b3 : Byte) :
    wordBytes (wordOfBytes b0 b1 b2 b3) = [b0, b1, b2, b3] := by
  have hbit (b : Byte) (i : Nat) (hi : 8 ≤ i) : b.getLsbD i = false := b.getLsbD_of_ge i hi
  simp only [wordBytes, List.cons.injEq, and_true]
  refine ⟨?_, ?_, ?_, ?_⟩
  all_goals
    refine BitVec.eq_of_getLsbD_eq fun i hi => ?_
    simp [wordOfBytes, hi]
    try grind

theorem wordBytes_htonl (w : BitVec 32) : wordBytes (htonl w) = (wordBytes w).reverse := by
  rw [htonl, wordBytes_wordOfBytes]
  rfl

theorem htonl_htonl (w : BitVec 32) : htonl (htonl w) = w := by
  refine wordBytes_inj ?_
  rw [wordBytes_htonl, wordBytes_htonl, List.reverse_reverse]

theorem htonl_inj {v w : BitVec 32} (h : htonl v = htonl w) : v = w := by
  rw [← htonl_htonl v, h, htonl_htonl]

theorem decimal_inj {m n : Nat} (h : decimal m = decimal n) : m = n := by
  rw [← foldl_decimal m, ← foldl_decimal n, h]

theorem inetNtoa_inj {v w : BitVec 32} (h : inetNtoa v = inetNtoa w) : v = w := by
  have hsplit : ∀ w, (inetNtoa w).splitOn '.' = (wordBytes w).map (fun b => decimal b.toNat) := by
    intro w
    refine List.splitOn_intercalate '.' (fun part hpart hdot => ?_) (by simp [wordBytes])
    obtain ⟨b, -, rfl⟩ := List.mem_map.mp hpart
    exact absurd (isDigit_of_mem_decimal hdot) (by decide)
  have hmap := congrArg (List.splitOn '.') h
  rw [hsplit, hsplit] at hmap
  have hinj : Function.Injective fun b : Byte => decimal b.toNat := fun b b' hb =>
    BitVec.eq_of_toNat_eq (decimal_inj hb)
  exact wordBytes_inj (List.map_injective_iff.mpr hinj hmap)

/-- Different blocks have different texts. -/
theorem ipCidrToStr_inj {c d : IpCidr} (h : ipCidrToStr c = ipCidrToStr d) : c = d := by
  have hdigit : ∀ n, '/' ∉ decimal n := fun n hmem => absurd (isDigit_of_mem_decimal hmem) (by decide)
  have hslash : ∀ w, '/' ∉ inetNtoa w := fun w => by
    simp [inetNtoa, wordBytes, List.intercalate, hdigit]
  obtain ⟨haddr, -, hbits⟩ :=
    (List.append_cons_inj_of_notMem (hslash (htonl c.addr)) (hdigit c.bits)).mp h
  obtain ⟨caddr, cbits⟩ := c
  obtain ⟨daddr, dbits⟩ := d
  rw [IpCidr.mk.injEq]
  exact ⟨htonl_inj (inetNtoa_inj haddr), decimal_inj hbits⟩

end Greyd
