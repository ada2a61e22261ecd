import Greyd.CText
import Mathlib.Data.BitVec

/-!
# Addresses, masks and CIDR blocks (ip.c)

`addr32` words are the raw 32-bit words of a little-endian machine, so that the
bytes of an address lie in network order while `v4.s_addr` is compared as a number,
as the source does in both cases.
-/
namespace Greyd

abbrev SaFamily := BitVec 16

def afUnspec : SaFamily := 0
def afInet : SaFamily := 2
def afInet6 : SaFamily := 10

abbrev Byte := BitVec 8

/-- `struct IP_addr`: 128 bits as four words. -/
structure IpAddr where
  w0 : BitVec 32
  w1 : BitVec 32
  w2 : BitVec 32
  w3 : BitVec 32
  deriving DecidableEq

namespace IpAddr

def zero : IpAddr := ⟨0, 0, 0, 0⟩

def and (a m : IpAddr) : IpAddr := ⟨a.w0 &&& m.w0, a.w1 &&& m.w1, a.w2 &&& m.w2, a.w3 &&& m.w3⟩

/-- The union's `v4.s_addr`. -/
def sAddr (a : IpAddr) : BitVec 32 := a.w0

def ofSAddr (n : BitVec 32) : IpAddr := ⟨n, 0, 0, 0⟩

end IpAddr

/-- The bytes of a word in memory, lowest address first. -/
def wordBytes (w : BitVec 32) : List Byte :=
  [w.setWidth 8, (w >>> 8).setWidth 8, (w >>> 16).setWidth 8, (w >>> 24).setWidth 8]

def IpAddr.bytes (a : IpAddr) : List Byte :=
  wordBytes a.w0 ++ wordBytes a.w1 ++ wordBytes a.w2 ++ wordBytes a.w3

def wordOfBytes (b0 b1 b2 b3 : Byte) : BitVec 32 :=
  b0.setWidth 32 ||| (b1.setWidth 32 <<< 8) ||| (b2.setWidth 32 <<< 16) ||| (b3.setWidth 32 <<< 24)

def htonl (w : BitVec 32) : BitVec 32 :=
  wordOfBytes ((w >>> 24).setWidth 8) ((w >>> 16).setWidth 8) ((w >>> 8).setWidth 8) (w.setWidth 8)

/-! ## inet_pton -/

/-- `inet_pton(AF_INET, …)`: four decimal octets separated by dots, without leading
zeros. `done` holds the finished octets, `cur` the one being read. -/
def inetPton4Loop : CStr → List Nat → Option Nat → Option (List Nat)
  | [], done, some n => if done.length = 3 then some (done ++ [n]) else none
  | [], _, none => none
  | c :: rest, done, cur =>
    if c.isDigit then
      match cur with
      | none => if done.length ≤ 3 then inetPton4Loop rest done (some (digitVal c)) else none
      | some n =>
        if n = 0 ∨ n * 10 + digitVal c > 255 then none
        else inetPton4Loop rest done (some (n * 10 + digitVal c))
    else if c = '.' then
      match cur with
      | none => none
      | some n => if done.length = 3 then none else inetPton4Loop rest (done ++ [n]) none
    else none

def inetPton4 (src : CStr) : Option (List Nat) := inetPton4Loop src [] none

def hexVal (c : Char) : Option Nat :=
  if c.isDigit then some (digitVal c)
  else if 'a' ≤ c ∧ c ≤ 'f' then some (c.toNat - 'a'.toNat + 10)
  else none

/-- The end of `inet_pton(AF_INET6, …)`: the bytes after a `::` move to the end. -/
def inetPton6Finish (out : List Nat) (colonp : Option Nat) : Option (List Nat) :=
  match colonp with
  | none => if out.length = 16 then some out else none
  | some n =>
    if out.length = 16 then none
    else some (out.take n ++ List.replicate (16 - out.length) 0 ++ out.drop n)

/-- The main loop of `inet_pton(AF_INET6, …)`. `out` holds the bytes written, `colonp`
the place of a `::`, `curtok` the text of the current group and `val` its value. -/
def inetPton6Loop : CStr → List Nat → Option Nat → CStr → Option Nat → Option (List Nat)
  | [], out, colonp, _, val =>
    match val with
    | none => inetPton6Finish out colonp
    | some v => if out.length + 2 > 16 then none
        else inetPton6Finish (out ++ [v / 256, v % 256]) colonp
  | c :: rest, out, colonp, curtok, val =>
    match hexVal c.toLower with
    | some d =>
      let v := val.getD 0 * 16 + d
      if v > 0xffff ∨ curtok.length ≥ 4 then none
      else inetPton6Loop rest out colonp (curtok ++ [c]) (some v)
    | none =>
      if c = ':' then
        match val with
        | none => if colonp.isSome then none else inetPton6Loop rest out (some out.length) [] none
        | some v =>
          if rest = [] ∨ out.length + 2 > 16 then none
          else inetPton6Loop rest (out ++ [v / 256, v % 256]) colonp [] none
      else if c = '.' ∧ out.length + 4 ≤ 16 then
        match inetPton4 (curtok ++ c :: rest) with
        | some quad => inetPton6Finish (out ++ quad) colonp
        | none => none
      else none

def inetPton6 (src : CStr) : Option (List Nat) :=
  match src with
  | ':' :: ':' :: _ => inetPton6Loop src.tail [] none [] none
  | ':' :: _ => none
  | _ => inetPton6Loop src [] none [] none

private def byteAt (l : List Nat) (i : Nat) : Byte := BitVec.ofNat 8 (l.getD i 0)

/-- The address whose bytes in memory are `l`, zero filled. -/
def addrOfBytes (l : List Nat) : IpAddr where
  w0 := wordOfBytes (byteAt l 0) (byteAt l 1) (byteAt l 2) (byteAt l 3)
  w1 := wordOfBytes (byteAt l 4) (byteAt l 5) (byteAt l 6) (byteAt l 7)
  w2 := wordOfBytes (byteAt l 8) (byteAt l 9) (byteAt l 10) (byteAt l 11)
  w3 := wordOfBytes (byteAt l 12) (byteAt l 13) (byteAt l 14) (byteAt l 15)

/-- `inet_pton` into a zeroed `struct IP_addr`; `none` when it does not return 1. -/
def inetPton (af : SaFamily) (src : CStr) : Option IpAddr :=
  if af = afInet then (inetPton4 src).map addrOfBytes
  else if af = afInet6 then (inetPton6 src).map addrOfBytes
  else none

/-! ## sscanf(address, "%39[^/]/%u", …) -/

/-- `%u`: optional blanks and sign, then digits, read by `strtoul` and stored as an
`unsigned int`. -/
def scanUnsigned (s : CStr) : Option Nat :=
  let s := s.dropWhile isspace
  let neg := s.head? = some '-'
  let s := if neg ∨ s.head? = some '+' then s.tail else s
  let digits := s.takeWhile Char.isDigit
  if digits = [] then none
  else
    let v := digits.foldl (fun n c => n * 10 + digitVal c) 0
    if v ≥ 2 ^ 64 then some (2 ^ 32 - 1)
    else some ((if neg then 2 ^ 64 - v else v) % 2 ^ 32)

/-- The two conversions of `"%39[^/]/%u"`; `none` when fewer than two succeed. -/
def scanCidr (address : CStr) : Option (CStr × Nat) :=
  let parsed := (address.take 39).takeWhile (· ≠ '/')
  if parsed = [] then none
  else match address.drop parsed.length with
    | '/' :: rest => (scanUnsigned rest).map (fun maskbits => (parsed, maskbits))
    | _ => none

def ipMaxMaskbits : Nat := 128
def ipMaxMaskbitsV4 : Nat := 32

/-- `for (i = 31; i > 31 - maskbits; --i) m |= 1 << i`. -/
def topBits (maskbits : Nat) : BitVec 32 :=
  (List.range maskbits).foldl (fun m k => m ||| (1#32 <<< (31 - k))) 0

/-- Word `j` of a mask of `maskbits` bits: full words first, the rest in network order. -/
def maskWord (maskbits j : Nat) : BitVec 32 :=
  if 32 * (j + 1) ≤ maskbits then 0xffffffff else htonl (topBits (maskbits - 32 * j))

def maskOf (maskbits : Nat) : IpAddr :=
  ⟨maskWord maskbits 0, maskWord maskbits 1, maskWord maskbits 2, maskWord maskbits 3⟩

/-- What `IP_str_to_addr_mask` leaves behind: its return value and out-parameters. -/
structure AddrMask where
  ret : Int
  n : IpAddr
  m : IpAddr
  af : SaFamily
  deriving DecidableEq

/-- `IP_str_to_addr_mask`. The family is only stored once the text has been split and
the mask is in range; address and mask stay zero on every error path. -/
def ipStrToAddrMask (address : CStr) (af : SaFamily) : AddrMask :=
  match scanCidr address with
  | none => ⟨-1, .zero, .zero, af⟩
  | some (parsed, maskbits) =>
    if maskbits = 0 ∨ maskbits > ipMaxMaskbits then ⟨-1, .zero, .zero, af⟩
    else
      let af := if ':' ∈ parsed then afInet6 else afInet
      if af = afInet ∧ maskbits > ipMaxMaskbitsV4 then ⟨-1, .zero, .zero, af⟩
      else match inetPton af parsed with
        | none => ⟨-1, .zero, .zero, af⟩
        | some n => ⟨0, n.and (maskOf maskbits), maskOf maskbits, af⟩

/-- `IP_match_addr`. -/
def ipMatchAddr (a m b : IpAddr) (af : SaFamily) : Nat :=
  if af = afInet then
    if a.w0 = b.w0 &&& m.w0 then 1 else 0
  else if af = afInet6 then
    if a.w0 = b.w0 &&& m.w0 ∧ a.w1 = b.w1 &&& m.w1 ∧ a.w2 = b.w2 &&& m.w2
        ∧ a.w3 = b.w3 &&& m.w3 then 1 else 0
  else 0

/-- What an accepted text leaves behind. -/
theorem ipStrToAddrMask_accepted {address : CStr} {af : SaFamily}
    (h : (ipStrToAddrMask address af).ret = 0) :
    ∃ (n : IpAddr) (maskbits : Nat) (fam : SaFamily), ipStrToAddrMask address af =
        ⟨0, n.and (maskOf maskbits), maskOf maskbits, fam⟩
      ∧ 1 ≤ maskbits ∧ maskbits ≤ ipMaxMaskbits ∧ (fam = afInet ∧ maskbits ≤ 32 ∨ fam = afInet6) := by
  revert h
  unfold ipStrToAddrMask
  cases scanCidr address with
  | none => simp
  | some r =>
    obtain ⟨parsed, maskbits⟩ := r
    dsimp only
    by_cases hm : maskbits = 0 ∨ maskbits > ipMaxMaskbits
    · simp [hm]
    · rw [if_neg hm]
      push Not at hm
      generalize hfam : (if ':' ∈ parsed then afInet6 else afInet) = fam
      by_cases h4 : fam = afInet ∧ maskbits > ipMaxMaskbitsV4
      · simp [h4]
      · rw [if_neg h4]
        cases inetPton fam parsed with
        | none => simp
        | some n =>
          refine fun _ => ⟨n, maskbits, fam, rfl, Nat.one_le_iff_ne_zero.mpr hm.1, hm.2, ?_⟩
          by_cases hcolon : ':' ∈ parsed
          · exact Or.inr (by rw [← hfam, if_pos hcolon])
          · have hinet : fam = afInet := by rw [← hfam, if_neg hcolon]
            exact Or.inl ⟨hinet, Nat.not_lt.mp fun hlt => h4 ⟨hinet, hlt⟩⟩

/-- What a rejected text leaves behind: nothing but, in some cases, the family. -/
theorem ipStrToAddrMask_rejected {address : CStr} {af : SaFamily}
    (h : (ipStrToAddrMask address af).ret ≠ 0) :
    (ipStrToAddrMask address af).n = .zero ∧ (ipStrToAddrMask address af).m = .zero := by
  revert h
  unfold ipStrToAddrMask
  cases scanCidr address with
  | none => simp
  | some r =>
    dsimp only
    by_cases hm : r.2 = 0 ∨ r.2 > ipMaxMaskbits
    · simp [hm]
    · rw [if_neg hm]
      generalize (if ':' ∈ r.1 then afInet6 else afInet) = fam
      by_cases h4 : fam = afInet ∧ r.2 > ipMaxMaskbitsV4
      · simp [h4]
      · rw [if_neg h4]
        cases inetPton fam r.1 <;> simp

/-! ## Reading back a printed block -/

theorem isDigit_not_special {c : Char} (h : c.isDigit = true) :
    isspace c = false ∧ c ≠ '-' ∧ c ≠ '+' ∧ c ≠ '/' ∧ c ≠ ':' := by
  refine ⟨?_, ?_, ?_, ?_, ?_⟩
  · by_contra hs
    simp only [isspace, Bool.not_eq_false, decide_eq_true_eq] at hs
    rcases hs with rfl | rfl | rfl | rfl | rfl | rfl <;> exact absurd h (by decide)
  all_goals rintro rfl; exact absurd h (by decide)

theorem scanUnsigned_decimal {n : Nat} (hn : n < 2 ^ 32) : scanUnsigned (decimal n) = some n := by
  obtain ⟨c, rest, hc⟩ := List.exists_cons_of_ne_nil (decimal_ne_nil n)
  have hdig : ∀ x ∈ decimal n, x.isDigit = true := fun x => isDigit_of_mem_decimal
  obtain ⟨hsp, hminus, hplus, -, -⟩ := isDigit_not_special (hdig c (by simp [hc]))
  have hdrop : (decimal n).dropWhile isspace = decimal n := by simp [hc, hsp]
  have hneg : (decimal n).head? ≠ some '-' := by simpa [hc] using hminus
  have hpos : (decimal n).head? ≠ some '+' := by simpa [hc] using hplus
  have htake : (decimal n).takeWhile Char.isDigit = decimal n :=
    List.takeWhile_eq_self_iff.mpr hdig
  have h64 : ¬ n ≥ 2 ^ 64 := by omega
  simp only [scanUnsigned, hdrop, hneg, hpos, htake, decimal_ne_nil, foldl_decimal, h64,
    or_self, ↓reduceIte, Nat.mod_eq_of_lt hn]

/-- How many more characters the current octet can take. -/
private def octetRoom : Option Nat → Nat
  | none => 3
  | some n => if n = 0 then 0 else if n < 10 then 2 else if n < 100 then 1 else 0

/-- An octet takes at most three characters, and the whole address at most 15. -/
private theorem inetPton4Loop_shape {src : CStr} {done : List Nat} {cur : Option Nat} {r : List Nat}
    (h : inetPton4Loop src done cur = some r) (hd : done.length ≤ 3) :
    (∀ c ∈ src, c.isDigit = true ∨ c = '.') ∧
      src.length ≤ 4 * (3 - done.length) + octetRoom cur := by
  induction src generalizing done cur with
  | nil => simp
  | cons c rest ih =>
    rw [inetPton4Loop.eq_def] at h
    simp only at h
    by_cases hc : c.isDigit = true
    · have h9 : digitVal c ≤ 9 := by
        have hc' := hc
        simp only [Char.isDigit, Bool.and_eq_true, decide_eq_true_eq, ge_iff_le,
          UInt32.le_iff_toNat_le] at hc'
        have := hc'.2
        simp only [digitVal, Char.toNat] at *
        exact Nat.sub_le_of_le_add (by simpa using this)
      rw [if_pos hc] at h
      cases cur with
      | none =>
        simp only [hd, ↓reduceIte] at h
        obtain ⟨hchars, hlen⟩ := ih h hd
        refine ⟨List.forall_mem_cons.mpr ⟨Or.inl hc, hchars⟩, ?_⟩
        simp only [List.length_cons, octetRoom] at hlen ⊢
        split_ifs at hlen <;> omega
      | some n =>
        simp only at h
        split_ifs at h with hbad
        push Not at hbad
        obtain ⟨hchars, hlen⟩ := ih h hd
        refine ⟨List.forall_mem_cons.mpr ⟨Or.inl hc, hchars⟩, ?_⟩
        simp only [List.length_cons, octetRoom, hbad.1, ↓reduceIte] at hlen ⊢
        split_ifs at hlen ⊢ <;> omega
    · rw [if_neg hc] at h
      cases cur with
      | none => split_ifs at h
      | some n =>
        split_ifs at h with hdot h3
        obtain ⟨hchars, hlen⟩ := ih h (by rw [List.length_append, List.length_singleton]; omega)
        refine ⟨List.forall_mem_cons.mpr ⟨Or.inr hdot, hchars⟩, ?_⟩
        simp only [List.length_cons, List.length_append, List.length_nil, octetRoom] at hlen ⊢
        omega

theorem inetPton4Loop_length {src : CStr} {done : List Nat} {cur : Option Nat} {r : List Nat}
    (h : inetPton4Loop src done cur = some r) : r.length = 4 := by
  induction src generalizing done cur with
  | nil =>
    cases cur with
    | none => cases h
    | some n =>
      rw [inetPton4Loop] at h
      split_ifs at h with hthree
      rw [← Option.some.inj h, List.length_append, hthree]
      rfl
  | cons c rest ih =>
    rw [inetPton4Loop.eq_def] at h
    dsimp only at h
    cases cur with
    | none =>
      dsimp only at h
      split_ifs at h
      exact ih h
    | some n =>
      dsimp only at h
      split_ifs at h
      · exact ih h
      · exact ih h

theorem inetPton4_shape {src : CStr} {r : List Nat} (h : inetPton4 src = some r) :
    (∀ c ∈ src, c.isDigit = true ∨ c = '.') ∧ src.length ≤ 15 ∧ src ≠ [] := by
  obtain ⟨hchars, hlen⟩ := inetPton4Loop_shape h (by simp)
  refine ⟨hchars, by simpa [octetRoom] using hlen, ?_⟩
  rintro rfl
  simp [inetPton4, inetPton4Loop] at h

/-- The two conversions of an address of at most 39 characters and a text behind a slash. -/
theorem scanCidr_text {addr : CStr} (hne : addr ≠ []) (hlen : addr.length ≤ 39) (hslash : '/' ∉ addr)
    (rest : CStr) :
    scanCidr (addr ++ '/' :: rest) = (scanUnsigned rest).map (fun maskbits => (addr, maskbits)) := by
  have hall : ∀ c ∈ addr, decide (c ≠ '/') = true := by
    intro c hc
    simp only [ne_eq, decide_eq_true_eq]
    rintro rfl
    exact hslash hc
  have hparsed : ((addr ++ '/' :: rest).take 39).takeWhile (· ≠ '/') = addr := by
    rw [List.take_append, List.take_of_length_le hlen, List.takeWhile_append_of_pos hall]
    cases 39 - addr.length <;> simp
  unfold scanCidr
  dsimp only
  rw [hparsed, if_neg hne, List.drop_left]
  rfl

/-- `"%39[^/]/%u"` undoes the printing of an address and a prefix length. -/
theorem scanCidr_append {addr : CStr} {bits : Nat} (hne : addr ≠ []) (hlen : addr.length ≤ 39)
    (hslash : '/' ∉ addr) (hbits : bits < 2 ^ 32) :
    scanCidr (addr ++ '/' :: decimal bits) = some (addr, bits) := by
  rw [scanCidr_text hne hlen hslash, scanUnsigned_decimal hbits, Option.map_some]

theorem ipStrToAddrMask_printed4 {addr : CStr} {octets : List Nat} {bits : Nat} (af : SaFamily)
    (haddr : inetPton4 addr = some octets) (hpos : 1 ≤ bits) (hle : bits ≤ 32) :
    ipStrToAddrMask (addr ++ '/' :: decimal bits) af =
      ⟨0, (addrOfBytes octets).and (maskOf bits), maskOf bits, afInet⟩ := by
  obtain ⟨hchars, hlen, hne⟩ := inetPton4_shape haddr
  have hslash : '/' ∉ addr := fun h => by simpa using hchars _ h
  have hcolon : ':' ∉ addr := fun h => by simpa using hchars _ h
  have hscan : scanCidr (addr ++ '/' :: decimal bits) = some (addr, bits) :=
    scanCidr_append hne (by omega) hslash (by omega)
  have hrange : ¬ (bits = 0 ∨ bits > ipMaxMaskbits) := by simp only [ipMaxMaskbits]; omega
  have hv4 : ¬ bits > ipMaxMaskbitsV4 := by simp only [ipMaxMaskbitsV4]; omega
  simp [ipStrToAddrMask, hscan, hrange, hcolon, hv4, inetPton, haddr]

/-! ## Bits in network order -/

/-- Bit `i` of a word, counted from the most significant bit of its first byte. -/
def netBit (w : BitVec 32) (i : Nat) : Bool := w.getLsbD (8 * (i / 8) + (7 - i % 8))

theorem netBit_ext {a b : BitVec 32} (h : ∀ i < 32, netBit a i = netBit b i) : a = b := by
  refine BitVec.eq_of_getLsbD_eq fun i hi => ?_
  have hb := h (8 * (i / 8) + (7 - i % 8)) (by omega)
  have hinv : 8 * ((8 * (i / 8) + (7 - i % 8)) / 8) + (7 - (8 * (i / 8) + (7 - i % 8)) % 8) = i := by
    omega
  simpa only [netBit, hinv] using hb

theorem netBit_and (a b : BitVec 32) (i : Nat) :
    netBit (a &&& b) i = (netBit a i && netBit b i) := by
  simp [netBit]

/-- Every choice of 32 bits is a word. -/
theorem exists_netBit (f : Nat → Bool) : ∃ w : BitVec 32, ∀ i < 32, netBit w i = f i := by
  let bits := (List.range 32).map (fun j => f (8 * (j / 8) + (7 - j % 8)))
  refine ⟨(BitVec.ofBoolListLE bits).setWidth 32, fun i hi => ?_⟩
  have hlt : 8 * (i / 8) + (7 - i % 8) < 32 := by omega
  rw [netBit, BitVec.getLsbD_setWidth, BitVec.getLsbD_ofBoolListLE]
  simp only [bits, hlt, decide_true, Bool.true_and, List.getD_eq_getElem?_getD, List.getElem?_map,
    List.getElem?_range hlt, Option.map_some, Option.getD_some]
  congr 1
  omega

theorem netBit_maskOf {maskbits i : Nat} (hm : maskbits ≤ 32) (hi : i < 32) :
    netBit (maskOf maskbits).w0 i = decide (i < maskbits) := by
  have h : ∀ m : Fin 33, ∀ i : Fin 32, netBit (maskOf m).w0 i = decide (i.val < m.val) := by
    decide +kernel
  exact h ⟨maskbits, by omega⟩ ⟨i, hi⟩

/-- A network answers for exactly the addresses that carry its bits under the mask. -/
theorem masked_eq_iff {a b m : BitVec 32} (ha : a &&& m = a) :
    a = b &&& m ↔ ∀ i < 32, netBit m i = true → netBit b i = netBit a i := by
  constructor
  · rintro h i - hm
    rw [h, netBit_and, hm, Bool.and_true]
  · intro h
    refine netBit_ext fun i hi => ?_
    have hai : netBit a i = (netBit a i && netBit m i) := by rw [← netBit_and, ha]
    rw [netBit_and]
    cases hm : netBit m i with
    | true => rw [h i hi hm, Bool.and_true]
    | false => rw [hai, hm]; simp

end Greyd
