import Mathlib.Tactic
import Greyd.StringLimit
import Greyd.Sync

/-!
# What a peer reads from a synchronisation packet

A packet that fits the receiver's buffer is taken apart into the entry it was built from. Its
address field has room for an IPv4 address only.
-/
namespace Greyd

/-! ## Numbers and addresses -/

theorem byte_toNat (n : Nat) : (byte n).toNat = n % 256 := by
  have hvalid : (n % 256).isValidChar := .inl (by omega)
  unfold byte Char.ofNat Char.toNat
  rw [dif_pos hvalid]
  rfl

theorem ntoh_be16 (n : Nat) : ntoh (be16 n) = n % 2 ^ 16 := by
  simp only [ntoh, be16, List.foldl_cons, List.foldl_nil, byte_toNat]
  omega

theorem ntoh_be32 (n : Int) : ntoh (be32 n) = (n % 2 ^ 32).toNat := by
  have hlt : (n % 2 ^ 32).toNat < 2 ^ 32 := by
    have h := Int.emod_lt_of_pos n (show (0 : Int) < 2 ^ 32 by decide)
    omega
  simp only [ntoh, be32, List.foldl_cons, List.foldl_nil, byte_toNat]
  omega

theorem takeWhile_digits {n : Nat} {p : Char → Bool} (hp : ∀ c ∈ decimal n, p c = true)
    {rest : CStr} (hrest : rest.head?.any p = false) :
    (decimal n ++ rest).takeWhile p = decimal n ∧ (decimal n ++ rest).dropWhile p = rest := by
  rw [List.takeWhile_append_of_pos hp, List.dropWhile_append_of_pos hp]
  cases rest with
  | nil => simp
  | cons c cs =>
    rw [List.head?_cons, Option.any_some] at hrest
    rw [List.takeWhile_cons_of_neg (by rw [hrest]; simp), List.append_nil,
      List.dropWhile_cons_of_neg (by rw [hrest]; simp)]
    exact ⟨rfl, rfl⟩

/-! ## Dotted addresses -/

def octets (addr : Nat) : List Nat :=
  [addr / 2 ^ 24 % 256, addr / 2 ^ 16 % 256, addr / 2 ^ 8 % 256, addr % 256]

def dotted (bytes : List Nat) : CStr := ['.'].intercalate (bytes.map decimal)

theorem addrText_eq {addr : Nat} (h : addr < 2 ^ 32) : addrText addr = dotted (octets addr) := by
  have hword : (BitVec.ofNat 32 addr).toNat = addr := by
    rw [BitVec.toNat_ofNat, Nat.mod_eq_of_lt h]
  have hbyte (k : Nat) : ((BitVec.ofNat 32 addr >>> k).setWidth 8).toNat = addr / 2 ^ k % 256 := by
    rw [BitVec.toNat_setWidth, BitVec.toNat_ushiftRight, hword, Nat.shiftRight_eq_div_pow]
  have hlast : ((BitVec.ofNat 32 addr).setWidth 8).toNat = addr % 256 := by
    rw [BitVec.toNat_setWidth, hword]
  simp only [addrText, inetNtoa, htonl, wordBytes_wordOfBytes, List.map_cons, List.map_nil, hbyte,
    hlast, dotted, octets]

theorem decimal_append_digit {n d : Nat} (hn : n ≠ 0) (hd : d < 10) :
    decimal (n * 10 + d) = decimal n ++ decimal d := by
  rw [decimal, decimal, decimal, Nat.toDigits_append_toDigits (by decide) (Nat.pos_of_ne_zero hn) hd,
    Nat.mul_comm]

theorem decimal_digitVal {c : Char} (h : c.isDigit = true) :
    decimal (digitVal c) = [c] ∧ digitVal c < 10 := by
  have hall : ∀ k : Fin 10, decimal k = [Char.ofNat ('0'.toNat + k)] := by decide +kernel
  have hrange : 48 ≤ c.toNat ∧ c.toNat ≤ 57 := by
    simpa [Char.isDigit, UInt32.le_iff_toNat_le] using h
  have hd : digitVal c < 10 := by
    rw [digitVal, show '0'.toNat = 48 by decide]
    omega
  refine ⟨?_, hd⟩
  rw [hall ⟨digitVal c, hd⟩]
  simp only [digitVal, show '0'.toNat = 48 by decide]
  rw [Nat.add_sub_cancel' hrange.1, Char.ofNat_toNat]

/-- The text of the octets that are complete. -/
def dottedFront (bytes : List Nat) : CStr := bytes.flatMap (fun n => decimal n ++ ['.'])

theorem dotted_concat (bytes : List Nat) (n : Nat) :
    dotted (bytes ++ [n]) = dottedFront bytes ++ decimal n := by
  induction bytes with
  | nil => simp [dotted, dottedFront]
  | cons b bytes ih =>
    have hne : (bytes ++ [n]).map decimal ≠ [] := by simp
    obtain ⟨x, xs, hx⟩ := List.exists_cons_of_ne_nil hne
    simp only [dotted, dottedFront, List.cons_append, List.map_cons, List.flatMap_cons] at ih ⊢
    rw [hx] at ih ⊢
    rw [List.intercalate_cons_cons, ih]
    simp

theorem inetPton4Loop_text {src : CStr} {front : List Nat} {cur : Option Nat} {r : List Nat}
    (h : inetPton4Loop src front cur = some r) (hfront : ∀ n ∈ front, n < 256)
    (hcur : ∀ n ∈ cur, n < 256) :
    dottedFront front ++ (cur.map decimal).getD [] ++ src = dotted r ∧ r.length = 4 ∧ ∀ n ∈ r, n < 256 := by
  fun_induction inetPton4Loop src front cur with
  | case1 front n hlen =>
    rw [Option.some.injEq] at h
    subst h
    refine ⟨by rw [dotted_concat]; simp, by simp [hlen], ?_⟩
    intro m hm
    rcases List.mem_append.mp hm with hm | hm
    · exact hfront m hm
    · rw [List.mem_singleton.mp hm]
      exact hcur n rfl
  | case2 | case3 | case5 | case6 | case8 | case9 | case11 => cases h
  | case4 c rest front hdigit hroom ih =>
    obtain ⟨htext, hlt⟩ := decimal_digitVal hdigit
    have hprinted := ih h hfront (by simpa using by omega)
    simpa [htext] using hprinted
  | case7 c rest front hdigit n hvalid ih =>
    obtain ⟨htext, hlt⟩ := decimal_digitVal hdigit
    have hne : n ≠ 0 := fun hzero => hvalid (.inl hzero)
    have hprinted := ih h hfront (by simpa using by omega)
    simpa [decimal_append_digit hne hlt, htext] using hprinted
  | case10 rest front n hlen hroom ih =>
    have hprinted := ih h (by
      intro m hm
      rcases List.mem_append.mp hm with hm | hm
      · exact hfront m hm
      · rw [List.mem_singleton.mp hm]
        exact hcur n rfl) (by simp)
    simpa [dottedFront] using hprinted
theorem strtoul0_decimal {n : Nat} (hn : n < 256) {rest : CStr} (hrest : ∀ c ∈ rest.head?, c = '.') :
    strtoul0 (decimal n ++ rest) = (n, rest) := by
  have hnot : rest.head?.any Char.isDigit = false := by
    cases rest with
    | nil => rfl
    | cons c rest => rw [hrest c rfl]; rfl
  by_cases hzero : n = 0
  · subst hzero
    cases rest with
    | nil => rfl
    | cons c rest =>
      rw [hrest c rfl]
      rfl
  · obtain ⟨htake, hdrop⟩ := takeWhile_digits (fun _ => isDigit_of_mem_decimal) hnot
    have hhead : ∀ n : Fin 256, n.val ≠ 0 → (decimal n).head? ≠ some '0' := by decide +kernel
    obtain ⟨c, text, htext⟩ := List.exists_cons_of_ne_nil (decimal_ne_nil n)
    have hc : c ≠ '0' := by
      have h := hhead ⟨n, hn⟩ hzero
      rw [htext] at h
      simpa using h
    rw [htext, List.cons_append] at htake hdrop ⊢
    rw [strtoul0, htake, hdrop, ← htext, foldl_decimal]
    intro x rest' htext'
    exact hc (List.cons.inj htext').1

theorem decimal_head (n : Nat) (rest : CStr) :
    (decimal n ++ rest).head?.any Char.isDigit = true := by
  obtain ⟨c, text, htext⟩ := List.exists_cons_of_ne_nil (decimal_ne_nil n)
  have hc : c.isDigit = true := isDigit_of_mem_decimal (n := n) (by rw [htext]; exact .head _)
  rw [htext]
  exact hc

theorem inetAtonLoop_dot {fuel n : Nat} (hn : n < 256) (parts : List Nat) (rest : CStr) :
    inetAtonLoop (fuel + 1) parts (decimal n ++ '.' :: rest) =
      inetAtonLoop fuel (parts ++ [n]) rest := by
  rw [inetAtonLoop, if_pos (decimal_head n _), strtoul0_decimal hn (by simp)]
  simp only [List.head?_cons, List.tail_cons, ↓reduceIte]
  rw [if_neg (by omega)]

theorem inetAtonLoop_last {fuel n : Nat} (hn : n < 256) {parts : List Nat}
    (hparts : parts.length < 4) :
    inetAtonLoop (fuel + 1) parts (decimal n) =
      some (parts.foldl (fun n part => n * 256 + part) 0 * 256 ^ (4 - parts.length) + n) := by
  have hdigit : (decimal n).head?.any Char.isDigit = true := by
    have h := decimal_head n []
    rwa [List.append_nil] at h
  have hval : strtoul0 (decimal n) = (n, []) := by
    have h : strtoul0 (decimal n ++ []) = (n, []) := strtoul0_decimal hn (by simp)
    rwa [List.append_nil] at h
  have hfits : n < 256 ^ (4 - parts.length) :=
    Nat.lt_of_lt_of_le hn (Nat.le_self_pow (by omega) 256)
  rw [inetAtonLoop, if_pos hdigit, hval]
  simp [hfits]

theorem inetPton4_text {src : CStr} {bytes : List Nat} (h : inetPton4 src = some bytes) :
    src = dotted bytes ∧ bytes.length = 4 ∧ ∀ n ∈ bytes, n < 256 := by
  have htext := inetPton4Loop_text h (by simp) (by simp)
  simpa [dottedFront] using htext

/-- The address bytes in network order stand for. -/
def addrOf (a b c d : Nat) : Nat := ((a * 256 + b) * 256 + c) * 256 + d

theorem inetAton_dotted {a b c d : Nat} (ha : a < 256) (hb : b < 256) (hc : c < 256)
    (hd : d < 256) : inetAton (dotted [a, b, c, d]) = some (addrOf a b c d) := by
  have htext : dotted [a, b, c, d] =
      decimal a ++ '.' :: (decimal b ++ '.' :: (decimal c ++ '.' :: decimal d)) := by
    simp [dotted, List.intercalate]
  rw [htext, inetAton, inetAtonLoop_dot ha, inetAtonLoop_dot hb, inetAtonLoop_dot hc,
    inetAtonLoop_last hd (by simp)]
  simp [addrOf]

/-- A dotted address is the text of the address it is read as. -/
theorem inetPton4_addr {src : CStr} (h : (inetPton4 src).isSome) :
    ∃ addr, addr < 2 ^ 32 ∧ inetAddr src = addr ∧ addrText addr = src := by
  obtain ⟨bytes, hbytes⟩ := Option.isSome_iff_exists.mp h
  obtain ⟨htext, hlength, hlt⟩ := inetPton4_text hbytes
  obtain ⟨a, b, c, d, rfl⟩ : ∃ a b c d, bytes = [a, b, c, d] := by
    match bytes, hlength with
    | [a, b, c, d], _ => exact ⟨a, b, c, d, rfl⟩
  simp only [List.mem_cons, List.not_mem_nil, or_false, forall_eq_or_imp, forall_eq] at hlt
  obtain ⟨ha, hb, hc, hd⟩ := hlt
  have haddr : addrOf a b c d < 2 ^ 32 := by
    unfold addrOf
    omega
  have hoctets : octets (addrOf a b c d) = [a, b, c, d] := by
    simp only [octets, addrOf, List.cons.injEq, and_true]
    refine ⟨?_, ?_, ?_, ?_⟩ <;> omega
  refine ⟨addrOf a b c d, haddr, ?_, ?_⟩
  · rw [htext, inetAddr, inetAton_dotted ha hb hc hd, Option.getD_some]
  · rw [addrText_eq haddr, hoctets, htext]

/-! ## Packets -/

variable {hmac : HmacSha1} {engine peer : SyncEngine} {src : Nat}

/-- Both ends hold one key, the receiver passes entries on to its greylister, and a packet does
not come from the receiver's own address. -/
structure Peers (engine peer : SyncEngine) (src : Nat) : Prop where
  key : peer.key = engine.key
  greyEnabled : peer.greyEnabled = true
  other : src = 0 ∨ peer.addr ≠ src

theorem length_syncHdr {digest : List Char} (hdigest : digest.length = syncHmacLen) (n : Nat)
    (counter : Int) : (syncHdr n counter digest).length = syncHdrSize := by
  simp [syncHdr, be16, be32, hdigest, syncHmacLen, syncHdrSize]

section header

variable {digest : List Char} {n : Nat} {counter : Int} {rest : List Char}

theorem syncHdr_length_field (hn : n < 2 ^ 16) :
    field (syncHdr n counter digest ++ rest) 2 2 = n := by
  have hfield : field (syncHdr n counter digest ++ rest) 2 2 = ntoh (be16 n) := rfl
  rw [hfield, ntoh_be16, Nat.mod_eq_of_lt hn]

theorem drop_syncHdr :
    (syncHdr n counter digest ++ rest).drop 8 = digest ++ (List.replicate 4 nul ++ rest) := by
  rw [← List.append_assoc]
  rfl

theorem syncHdr_digest (hdigest : digest.length = syncHmacLen) :
    ((syncHdr n counter digest ++ rest).drop 8).take syncHmacLen = digest := by
  rw [drop_syncHdr, List.take_left' hdigest]

theorem drop_syncHdr_all (hdigest : digest.length = syncHmacLen) :
    (syncHdr n counter digest ++ rest).drop syncHdrSize = rest :=
  List.drop_left' (length_syncHdr hdigest n counter)

/-- The digest's own field is zero while the digest is taken. -/
theorem syncHdr_zeroed (hdigest : digest.length = syncHmacLen) :
    (syncHdr n counter digest ++ rest).take 8 ++ List.replicate syncHmacLen nul ++
        (syncHdr n counter digest ++ rest).drop 28 =
      syncHdr n counter (List.replicate syncHmacLen nul) ++ rest := by
  have hdrop : (syncHdr n counter digest ++ rest).drop 28 = List.replicate 4 nul ++ rest := by
    rw [show (28 : Nat) = 8 + syncHmacLen by rfl, ← List.drop_drop, drop_syncHdr,
      List.drop_left' hdigest]
  rw [hdrop, ← List.append_assoc]
  rfl

end header

/-- The receiver's checks let a packet through, and the loop begins behind the header. -/
theorem syncRecv_packet (hpeers : Peers engine peer src) {body : List Char}
    (hfits : syncHdrSize + body.length ≤ syncMaxsize) :
    ∃ zeros, syncRecv hmac peer src (syncPacket hmac engine (syncHdrSize + body.length) body) =
      syncEntries peer (addrText src) (syncHdrSize + body.length + 1) (syncHdrSize + body.length)
        false (body ++ zeros) := by
  generalize hn : syncHdrSize + body.length = n at hfits ⊢
  have hn16 : n < 2 ^ 16 := by
    simp only [syncMaxsize] at hfits
    omega
  obtain ⟨digest, hdigest⟩ : ∃ digest, digest = hmac.digest engine.key
    (syncHdr n engine.counter (List.replicate syncHmacLen nul) ++ body) := ⟨_, rfl⟩
  have hdlen : digest.length = syncHmacLen := by rw [hdigest, hmac.length]
  have hpacket : syncPacket hmac engine n body = syncHdr n engine.counter digest ++ body := by
    rw [syncPacket, hdigest]
  have hlength : (syncHdr n engine.counter digest ++ body).length = n := by
    rw [List.length_append, length_syncHdr hdlen, hn]
  refine ⟨List.replicate (syncMaxsize - n) nul, ?_⟩
  rw [hpacket, syncRecv]
  simp only [List.take_of_length_le (Nat.le_trans (Nat.le_of_eq hlength) hfits), hlength,
    Nat.min_eq_left hfits, List.append_assoc, syncHdr_zeroed hdlen, syncHdr_digest hdlen,
    drop_syncHdr_all hdlen, syncHdr_length_field hn16]
  have hversion (rest : List Char) :
      field (syncHdr n engine.counter digest ++ rest) 0 1 = syncVersion := rfl
  have hfamily (rest : List Char) :
      field (syncHdr n engine.counter digest ++ rest) 1 1 = afInet.toNat := rfl
  have htake (rest : List Char) : (syncHdr n engine.counter (List.replicate syncHmacLen nul) ++
      (body ++ rest)).take n = syncHdr n engine.counter (List.replicate syncHmacLen nul) ++ body := by
    rw [← List.append_assoc, List.take_left']
    rw [List.length_append, length_syncHdr List.length_replicate, hn]
  have hlong : ¬ n < syncHdrSize := by omega
  have hother : ¬ (n < 1 ∨ src ≠ 0 ∧ peer.addr = src) := by
    rintro (hshort | ⟨hsrc, haddr⟩)
    · exact hlong (Nat.lt_of_lt_of_le hshort (by decide))
    · exact hpeers.other.elim hsrc (fun h => h haddr)
  rw [if_neg hother, hversion, hfamily, if_neg (by simp [hlong]), htake, hpeers.key, ← hdigest,
    if_neg (by simp)]

/-! ## Entries -/

theorem syncString_short {s : CStr} (h : s.length + 1 < 2 ^ 16) : syncString s = s ++ [nul] := by
  rw [syncString, Nat.mod_eq_of_lt h, List.take_of_length_le (by simp)]

theorem syncEntries_end (fuel len : Nat) (delete : Bool) (srcIp : CStr) (rest : List Char) :
    syncEntries peer srcIp fuel len delete (syncEndMarker ++ rest) = [] := by
  cases fuel with
  | zero => rfl
  | succ fuel =>
    have htype : field (syncEndMarker ++ rest) 0 2 = syncEnd := rfl
    rw [syncEntries]
    simp only [htype]
    split
    · rfl
    · simp [syncEnd, syncGrey, syncDelWhite, syncWhiteType, syncDelTrapped, syncTrappedType]

theorem cstr_append_ended {s : List Char} (h : nul ∈ s) (rest : List Char) : cstr (s ++ rest) = cstr s := by
  obtain ⟨front, back, rfl, hfront⟩ := List.eq_append_cons_of_mem h
  rw [List.append_assoc, List.cons_append, cstr_append_nul hfront, cstr_append_nul hfront]

/-- One entry about an address: its message, and the loop goes on behind it. -/
theorem syncEntries_addrNext {fuel len type : Nat} {seen : Bool} {srcIp : CStr}
    {timestamp expire ip : Int} {rest : List Char} (hlen : syncTlvAddrSize ≤ len)
    (htype : type = syncDelWhite ∨ type = syncWhiteType ∨ type = syncDelTrapped ∨
      type = syncTrappedType) :
    syncEntries peer srcIp (fuel + 1) len seen
        (be16 type ++ be16 syncTlvAddrSize ++ be32 timestamp ++ be32 expire ++ be32 ip ++ rest) =
      (if peer.greyEnabled then [.addr (decide (type = syncDelTrapped ∨ type = syncTrappedType))
        (addrText (ip % 2 ^ 32).toNat) srcIp (expire % 2 ^ 32).toNat
        (seen || decide (type = syncDelWhite ∨ type = syncDelTrapped))] else []) ++
      syncEntries peer srcIp fuel (len - syncTlvAddrSize)
        (seen || decide (type = syncDelWhite ∨ type = syncDelTrapped)) rest := by
  generalize hp : be16 type ++ be16 syncTlvAddrSize ++ be32 timestamp ++ be32 expire ++ be32 ip ++
    rest = p
  have hfieldType : field p 0 2 = type := by
    rw [← hp, show field _ 0 2 = ntoh (be16 type) from rfl, ntoh_be16, Nat.mod_eq_of_lt]
    rcases htype with rfl | rfl | rfl | rfl <;> decide
  have hfieldLength : field p 2 2 = syncTlvAddrSize := by
    rw [← hp, show field _ 2 2 = ntoh (be16 syncTlvAddrSize) from rfl, ntoh_be16]
    rfl
  have hfieldExpire : field p 8 4 = (expire % 2 ^ 32).toNat := by
    rw [← hp, show field _ 8 4 = ntoh (be32 expire) from rfl, ntoh_be32]
  have hfieldAddr : field p 12 4 = (ip % 2 ^ 32).toNat := by
    rw [← hp, show field _ 12 4 = ntoh (be32 ip) from rfl, ntoh_be32]
  have hdrop : p.drop syncTlvAddrSize = rest := by
    rw [← hp]
    rfl
  have hnext : ¬ (len = 0 ∨ len < syncTlvHdrSize ∨ len < syncTlvAddrSize) := by
    simp only [syncTlvAddrSize, syncTlvHdrSize] at hlen ⊢
    omega
  have hnotGrey : type ≠ syncGrey := by
    rcases htype with rfl | rfl | rfl | rfl <;> decide
  rw [syncEntries]
  simp only [hfieldType, hfieldLength, hfieldExpire, hfieldAddr, hdrop]
  rw [if_neg hnext, if_neg hnotGrey, if_pos htype, if_neg (not_not.mpr rfl)]

/-- One greylisting entry, its strings one behind the other: its message, and the loop goes on
behind it. -/
theorem syncEntries_greyNext {fuel len length : Nat} {seen : Bool} {srcIp : CStr}
    {timestamp ip : Int} {from_ to_ helo pad rest : List Char} (hfrom : nul ∈ from_) (hto : nul ∈ to_)
    (hhelo : nul ∈ helo) (hlength : syncTlvGreySize + from_.length + to_.length + helo.length +
      pad.length = length) (hlen : length ≤ len) (hmax : len < 2 ^ 16) :
    syncEntries peer srcIp (fuel + 1) len seen
        (be16 syncGrey ++ be16 length ++ be32 timestamp ++ be32 ip ++ be16 from_.length ++
          be16 to_.length ++ be16 helo.length ++ (from_ ++ (to_ ++ (helo ++ (pad ++ rest))))) =
      (if peer.greyEnabled then
        [.grey (addrText (ip % 2 ^ 32).toNat) (cstr helo) (cstr from_) (cstr to_)] else []) ++
      syncEntries peer srcIp fuel (len - length) seen rest := by
  generalize htail : from_ ++ (to_ ++ (helo ++ (pad ++ rest))) = tail
  generalize hp : be16 syncGrey ++ be16 length ++ be32 timestamp ++ be32 ip ++ be16 from_.length ++
    be16 to_.length ++ be16 helo.length ++ tail = p
  have hfieldType : field p 0 2 = syncGrey := by
    rw [← hp, show field _ 0 2 = ntoh (be16 syncGrey) from rfl, ntoh_be16]
    rfl
  have hfieldLength : field p 2 2 = length := by
    rw [← hp, show field _ 2 2 = ntoh (be16 length) from rfl, ntoh_be16,
      Nat.mod_eq_of_lt (by omega)]
  have hfieldAddr : field p 8 4 = (ip % 2 ^ 32).toNat := by
    rw [← hp, show field _ 8 4 = ntoh (be32 ip) from rfl, ntoh_be32]
  have hfieldFrom : field p 12 2 = from_.length := by
    rw [← hp, show field _ 12 2 = ntoh (be16 from_.length) from rfl, ntoh_be16,
      Nat.mod_eq_of_lt (by omega)]
  have hfieldTo : field p 14 2 = to_.length := by
    rw [← hp, show field _ 14 2 = ntoh (be16 to_.length) from rfl, ntoh_be16,
      Nat.mod_eq_of_lt (by omega)]
  have hfieldHelo : field p 16 2 = helo.length := by
    rw [← hp, show field _ 16 2 = ntoh (be16 helo.length) from rfl, ntoh_be16,
      Nat.mod_eq_of_lt (by omega)]
  have hdrop (n : Nat) : p.drop (syncTlvGreySize + n) = tail.drop n := by
    rw [← List.drop_drop, ← hp]
    rfl
  have htextFrom : cstr (p.drop syncTlvGreySize) = cstr from_ := by
    rw [show p.drop syncTlvGreySize = tail from hdrop 0, ← htail, cstr_append_ended hfrom]
  have htextTo : cstr (p.drop (syncTlvGreySize + from_.length)) = cstr to_ := by
    rw [hdrop, ← htail, List.drop_left, cstr_append_ended hto]
  have htextHelo : cstr (p.drop (syncTlvGreySize + from_.length + to_.length)) = cstr helo := by
    rw [Nat.add_assoc, hdrop, ← List.drop_drop, ← htail, List.drop_left, List.drop_left,
      cstr_append_ended hhelo]
  have hend : p.drop length = rest := by
    rw [← hlength, Nat.add_assoc, Nat.add_assoc, Nat.add_assoc, hdrop, ← List.drop_drop, ← htail,
      List.drop_left, ← List.drop_drop, List.drop_left, ← List.drop_drop, List.drop_left,
      List.drop_left]
  rw [syncEntries]
  simp only [hfieldType, hfieldLength, hfieldAddr, hfieldFrom, hfieldTo, hfieldHelo, htextFrom,
    htextTo, htextHelo, hend]
  have hnext : ¬ (len = 0 ∨ len < syncTlvHdrSize ∨ len < length) := by
    simp only [syncTlvGreySize, syncTlvHdrSize] at hlength ⊢
    omega
  rw [if_neg hnext, if_pos trivial, if_neg (by omega)]

theorem addr_toNat {addr : Nat} (h : addr < 2 ^ 32) : ((addr : Int) % 2 ^ 32).toNat = addr := by
  omega

/-- One entry about an address, and the end of the packet. -/
theorem syncEntries_addr (hgrey : peer.greyEnabled = true) {fuel len type addr : Nat} {now expire : Int}
    {srcIp : CStr} {rest : List Char} (hlen : syncTlvAddrSize ≤ len)
    (htype : type = syncDelWhite ∨ type = syncWhiteType ∨ type = syncDelTrapped ∨
      type = syncTrappedType)
    (haddr : addr < 2 ^ 32) :
    syncEntries peer srcIp (fuel + 1) len false
        (be16 type ++ be16 syncTlvAddrSize ++ be32 now ++ be32 expire ++ be32 addr ++
          (syncEndMarker ++ rest)) =
      [.addr (decide (type = syncDelTrapped ∨ type = syncTrappedType)) (addrText addr) srcIp
        (expire % 2 ^ 32).toNat (decide (type = syncDelWhite ∨ type = syncDelTrapped))] := by
  rw [syncEntries_addrNext hlen htype, syncEntries_end, if_pos hgrey, addr_toNat haddr, Bool.false_or,
    List.append_nil]

/-- One greylisting entry, and the end of the packet. -/
theorem syncEntries_grey (hgrey : peer.greyEnabled = true) {fuel len length addr : Nat} {now : Int}
    {srcIp helo from_ to_ : CStr} {pad rest : List Char} (hlen : length ≤ len)
    (hlength : syncTlvGreySize + (from_.length + 1) + (to_.length + 1) + (helo.length + 1) +
      pad.length = length) (hmax : len < 2 ^ 16) (haddr : addr < 2 ^ 32) (hhelo : nul ∉ helo)
    (hfrom : nul ∉ from_) (hto : nul ∉ to_) :
    syncEntries peer srcIp (fuel + 1) len false
        (be16 syncGrey ++ be16 length ++ be32 now ++ be32 addr ++ be16 (from_.length + 1) ++
          be16 (to_.length + 1) ++ be16 (helo.length + 1) ++ (from_ ++ nul :: (to_ ++ nul ::
            (helo ++ nul :: (pad ++ (syncEndMarker ++ rest)))))) =
      [.grey (addrText addr) helo from_ to_] := by
  have hended (s : CStr) : nul ∈ s ++ [nul] := List.mem_append_right s List.mem_cons_self
  have hone (s : CStr) : (s ++ [nul]).length = s.length + 1 := List.length_append
  have htext {s : CStr} (hs : nul ∉ s) : cstr (s ++ [nul]) = s := cstr_append_nul hs []
  have hnext := @syncEntries_greyNext peer fuel len length false srcIp now addr _ _ _ pad
    (syncEndMarker ++ rest) (hended from_) (hended to_) (hended helo)
    (by rw [hone, hone, hone]; exact hlength) hlen hmax
  rw [syncEntries_end, if_pos hgrey, addr_toNat haddr, htext hhelo, htext hfrom, htext hto,
    List.append_nil, hone, hone, hone] at hnext
  simpa only [List.append_assoc, List.cons_append, List.nil_append] using hnext

/-! ## Round trips -/

/-- The bytes of a packet with the tuple's three strings and their terminators in it. -/
def syncUpdateSize (gt : GreyTuple) : Nat :=
  syncHdrSize + syncAlign (syncTlvGreySize + (gt.from_.length + 1) + (gt.to_.length + 1) +
    (gt.helo.length + 1)) + syncTlvHdrSize

theorem syncRecv_syncUpdate (hpeers : Peers engine peer src) {gt : GreyTuple} {now : Int}
    {addr : Nat} (hread : inetAddr gt.ip = addr) (haddr : addr < 2 ^ 32)
    (hhelo : nul ∉ gt.helo) (hfrom : nul ∉ gt.from_) (hto : nul ∉ gt.to_)
    (hsize : syncUpdateSize gt ≤ syncMaxsize) :
    syncRecv hmac peer src (syncUpdate hmac engine gt now) =
      [.grey (addrText addr) gt.helo gt.from_ gt.to_] := by
  unfold syncUpdateSize at hsize
  generalize hsglen : syncTlvGreySize + (gt.from_.length + 1) + (gt.to_.length + 1) +
    (gt.helo.length + 1) = sglen at hsize
  have hsmall : syncAlign sglen < 1408 := by
    simp only [syncHdrSize, syncTlvHdrSize, syncMaxsize] at hsize
    omega
  have halign : sglen ≤ syncAlign sglen := by
    simp only [syncAlign]
    omega
  have hfromLen : gt.from_.length + 1 < 2 ^ 16 := by omega
  have htoLen : gt.to_.length + 1 < 2 ^ 16 := by omega
  have hheloLen : gt.helo.length + 1 < 2 ^ 16 := by omega
  unfold syncUpdate
  simp only [syncStringLen, Nat.mod_eq_of_lt hfromLen, Nat.mod_eq_of_lt htoLen,
    Nat.mod_eq_of_lt hheloLen, hsglen, syncString_short hfromLen, syncString_short htoLen,
    syncString_short hheloLen, hread]
  rw [Nat.mod_eq_of_lt (show sglen < 2 ^ 16 by omega),
    Nat.mod_eq_of_lt (show syncAlign sglen - sglen < 2 ^ 16 by omega)]
  generalize hpad : List.replicate (syncAlign sglen - sglen) nul = pad
  have hpadLen : pad.length = syncAlign sglen - sglen := by rw [← hpad, List.length_replicate]
  generalize hbody : be16 syncGrey ++ be16 (sglen + (syncAlign sglen - sglen)) ++ be32 now ++
    be32 addr ++ be16 (gt.from_.length + 1) ++ be16 (gt.to_.length + 1) ++
    be16 (gt.helo.length + 1) ++ (gt.from_ ++ [nul]) ++ (gt.to_ ++ [nul]) ++ (gt.helo ++ [nul]) ++
    pad ++ syncEndMarker = body
  have hlength : sglen + (syncAlign sglen - sglen) + syncTlvHdrSize = body.length := by
    simp only [syncTlvGreySize] at hsglen
    rw [← hbody]
    simp only [List.length_append, List.length_cons, List.length_nil, be16, be32, hpadLen,
      syncEndMarker, syncTlvHdrSize]
    omega
  have hfits : syncHdrSize + body.length ≤ syncMaxsize := by omega
  have hpacket : syncHdrSize + sglen + (syncAlign sglen - sglen) + syncTlvHdrSize =
      syncHdrSize + body.length := by omega
  have hshort : syncHdrSize + body.length < 2 ^ 16 := Nat.lt_of_le_of_lt hfits (by decide)
  obtain ⟨zeros, hrecv⟩ := @syncRecv_packet hmac engine peer src hpeers body hfits
  rw [hpacket, hrecv, ← @syncEntries_grey peer hpeers.greyEnabled (syncHdrSize + body.length)
    (syncHdrSize + body.length) (sglen + (syncAlign sglen - sglen)) addr now (addrText src) gt.helo
    gt.from_ gt.to_ pad zeros (by omega) (by omega) hshort haddr hhelo hfrom hto, ← hbody]
  simp only [List.append_assoc, List.cons_append, List.nil_append]

theorem syncRecv_sendAddress (hpeers : Peers engine peer src) {ip : CStr} {now expire : Int}
    {type addr : Nat} (haddr : addr < 2 ^ 32) (hread : inetAddr ip = addr)
    (htype : type = syncDelWhite ∨ type = syncWhiteType ∨ type = syncDelTrapped ∨
      type = syncTrappedType) :
    syncRecv hmac peer src (sendAddress hmac engine ip now expire type) =
      [.addr (decide (type = syncDelTrapped ∨ type = syncTrappedType)) (addrText addr)
        (addrText src) (expire % 2 ^ 32).toNat
        (decide (type = syncDelWhite ∨ type = syncDelTrapped))] := by
  generalize hbody : be16 type ++ be16 syncTlvAddrSize ++ be32 now ++ be32 expire ++
    be32 addr ++ syncEndMarker = body
  have hlength : body.length = syncTlvAddrSize + syncTlvHdrSize := by
    rw [← hbody]
    rfl
  obtain ⟨zeros, hrecv⟩ := @syncRecv_packet hmac engine peer src hpeers body (by
    rw [hlength]
    decide)
  rw [sendAddress, hread, hbody, Nat.add_assoc, ← hlength, hrecv,
    ← @syncEntries_addr peer hpeers.greyEnabled (syncHdrSize + body.length)
      (syncHdrSize + body.length) type addr now expire (addrText src) zeros (by rw [hlength]; decide)
      htype haddr, ← hbody]
  simp only [List.append_assoc]

theorem syncRecv_syncWhite (hpeers : Peers engine peer src) {ip : CStr} {now expire : Int}
    {addr : Nat} {delete : Bool} (haddr : addr < 2 ^ 32) (hread : inetAddr ip = addr) :
    syncRecv hmac peer src (syncWhite hmac engine ip now expire delete) =
      [.addr false (addrText addr) (addrText src) (expire % 2 ^ 32).toNat delete] := by
  cases delete with
  | false => exact syncRecv_sendAddress hpeers haddr hread (.inr (.inl rfl))
  | true => exact syncRecv_sendAddress hpeers haddr hread (.inl rfl)

theorem syncRecv_syncTrapped (hpeers : Peers engine peer src) {ip : CStr} {now expire : Int}
    {addr : Nat} {delete : Bool} (haddr : addr < 2 ^ 32) (hread : inetAddr ip = addr) :
    syncRecv hmac peer src (syncTrapped hmac engine ip now expire delete) =
      [.addr true (addrText addr) (addrText src) (expire % 2 ^ 32).toNat delete] := by
  cases delete with
  | false => exact syncRecv_sendAddress hpeers haddr hread (.inr (.inr (.inr rfl)))
  | true => exact syncRecv_sendAddress hpeers haddr hread (.inr (.inr (.inl rfl)))

/-- A digest known for one packet. -/
def knownDigest (digest : List Nat) (h : digest.length = syncHmacLen) : HmacSha1 where
  digest _ _ := digest.map byte
  length _ _ := by rw [List.length_map, h]

/-- The greylister at 10.0.0.1, with the key of an empty key file. -/
def syncSender : SyncEngine where
  key := "da39a3ee5e6b4b0d3255bfef95601890afd80709".toList ++ [nul]
  counter := 7
  addr := 0x0a000001
  greyEnabled := true

def syncReceiver : SyncEngine := { syncSender with counter := 0, addr := 0x0a000002 }

theorem syncReceiver_peers : Peers syncSender syncReceiver 0x0a000001 :=
  ⟨rfl, rfl, .inr (by decide)⟩

def syncTuple : GreyTuple where
  ip := "10.1.2.3".toList
  helo := "mail".toList
  from_ := "a@example.org".toList
  to_ := "b@example.com".toList

/-- The HMAC of the packet the tuple is sent in. -/
def syncTupleHmac : HmacSha1 :=
  knownDigest [7, 17, 151, 198, 149, 240, 232, 76, 129, 138, 226, 71, 231, 134, 28, 45, 84, 28, 123, 50]
    rfl

/-- A peer with the same key writes the message of the entry a packet was built from. -/
theorem sync_round_trip (hpeers : Peers engine peer src) :
    (∀ gt now, (inetPton4 gt.ip).isSome → nul ∉ gt.helo → nul ∉ gt.from_ → nul ∉ gt.to_ →
      syncUpdateSize gt ≤ syncMaxsize →
      syncRecv hmac peer src (syncUpdate hmac engine gt now) =
        [.grey gt.ip gt.helo gt.from_ gt.to_]) ∧
    ∀ ip now expire delete, (inetPton4 ip).isSome →
      syncRecv hmac peer src (syncWhite hmac engine ip now expire delete) =
        [.addr false ip (addrText src) (expire % 2 ^ 32).toNat delete] ∧
      syncRecv hmac peer src (syncTrapped hmac engine ip now expire delete) =
        [.addr true ip (addrText src) (expire % 2 ^ 32).toNat delete] := by
  constructor
  · intro gt now hip hhelo hfrom hto hsize
    obtain ⟨addr, hlt, hread, htext⟩ := inetPton4_addr hip
    rw [syncRecv_syncUpdate hpeers hread hlt hhelo hfrom hto hsize, htext]
  · intro ip now expire delete hip
    obtain ⟨addr, hlt, hread, htext⟩ := inetPton4_addr hip
    constructor
    · rw [syncRecv_syncWhite hpeers hlt hread, htext]
    · rw [syncRecv_syncTrapped hpeers hlt hread, htext]

theorem sync_round_trip_tuple :
    syncRecv syncTupleHmac syncReceiver 0x0a000001
        (syncUpdate syncTupleHmac syncSender syncTuple 1700000000) =
      [.grey "10.1.2.3".toList "mail".toList "a@example.org".toList "b@example.com".toList] :=
  (sync_round_trip syncReceiver_peers).1 syncTuple 1700000000 (by decide +kernel)
    (by decide +kernel) (by decide +kernel) (by decide +kernel) (by decide +kernel)

/-! ## The address of an entry -/

/-- The bytes of the address a text names; one with a colon is an IPv6 address, with a scope
behind a percent sign. -/
def namedAddr (ip : CStr) : Option (List Nat) :=
  if ':' ∈ ip then inetPton6 (ip.takeWhile (· ≠ '%')) else (inetAton ip).map octets

theorem inetPton6Finish_length {out bytes : List Nat} {colonp : Option Nat}
    (h : inetPton6Finish out colonp = some bytes) (hout : out.length ≤ 16) : bytes.length = 16 := by
  cases colonp with
  | none =>
    simp only [inetPton6Finish, Option.ite_none_right_eq_some, Option.some.injEq] at h
    exact h.2 ▸ h.1
  | some n =>
    simp only [inetPton6Finish, Option.ite_none_left_eq_some, Option.some.injEq] at h
    rw [← h.2]
    simp only [List.length_append, List.length_take, List.length_drop, List.length_replicate]
    omega

theorem inetPton6Loop_length {src curtok : CStr} {out bytes : List Nat} {colonp val : Option Nat}
    (h : inetPton6Loop src out colonp curtok val = some bytes) (hout : out.length ≤ 16) :
    bytes.length = 16 := by
  fun_induction inetPton6Loop src out colonp curtok val with
  | case1 => exact inetPton6Finish_length h hout
  | case3 out colonp curtok v hroom =>
    exact inetPton6Finish_length h (by
      simp only [List.length_append, List.length_cons, List.length_nil]
      omega)
  | case5 _ _ _ _ _ _ _ _ _ _ ih => exact ih h hout
  | case7 _ _ _ _ _ _ ih => exact ih h hout
  | case9 _ _ _ _ _ v hroom ih =>
    exact ih h (by
      simp only [List.length_append, List.length_cons, List.length_nil]
      omega)
  | case10 _ _ _ _ _ _ _ _ hdot quad hquad =>
    exact inetPton6Finish_length h (by
      rw [List.length_append, (inetPton4_text hquad).2.1]
      exact hdot.2)
  | _ => cases h

theorem namedAddr_v6 {ip : CStr} {bytes : List Nat} (hcolon : ':' ∈ ip)
    (h : namedAddr ip = some bytes) : bytes.length = 16 := by
  rw [namedAddr, if_pos hcolon] at h
  generalize ip.takeWhile (· ≠ '%') = src at h
  unfold inetPton6 at h
  split at h
  · exact inetPton6Loop_length h (by simp)
  · cases h
  · exact inetPton6Loop_length h (by simp)

theorem inetAtonLoop_lt {fuel : Nat} {parts : List Nat} {cp : CStr} {addr : Nat}
    (h : inetAtonLoop fuel parts cp = some addr) (hlen : parts.length + fuel = 4)
    (hparts : parts.foldl (fun n part => n * 256 + part) 0 < 256 ^ parts.length) :
    addr < 2 ^ 32 := by
  induction fuel generalizing parts cp with
  | zero => cases h
  | succ fuel ih =>
    rw [inetAtonLoop] at h
    generalize strtoul0 cp = number at h
    obtain ⟨val, rest⟩ := number
    simp only at h
    split_ifs at h with hdigit hdot hlarge hlast
    · refine ih h (by rw [List.length_append, List.length_singleton]; omega) ?_
      rw [List.foldl_append, List.length_append, List.length_singleton, Nat.pow_succ]
      simp only [List.foldl_cons, List.foldl_nil]
      omega
    · rw [Option.some.injEq] at h
      have htotal : 256 ^ parts.length * 256 ^ (4 - parts.length) = 2 ^ 32 := by
        rw [← Nat.pow_add, show parts.length + (4 - parts.length) = 4 by omega]
        rfl
      rw [← h, ← htotal]
      calc _ < (parts.foldl (fun n part => n * 256 + part) 0 + 1) * 256 ^ (4 - parts.length) := by
            rw [Nat.add_mul, Nat.one_mul]
            exact Nat.add_lt_add_left hlast.2 _
        _ ≤ _ := Nat.mul_le_mul_right _ hparts

theorem namedAddr_addrText {addr : Nat} (h : addr < 2 ^ 32) :
    namedAddr (addrText addr) = some (octets addr) := by
  have htext := addrText_eq h
  have hread : inetAton (addrText addr) = some addr := by
    rw [htext, octets, inetAton_dotted (by omega) (by omega) (by omega) (by omega)]
    simp only [addrOf, Option.some.injEq]
    omega
  have hcolon : ':' ∉ addrText addr := by
    have hdigit (n : Nat) : ':' ∉ decimal n := fun hmem => by
      simpa using isDigit_of_mem_decimal hmem
    rw [htext]
    simp [dotted, octets, List.intercalate, hdigit]
  rw [namedAddr, if_neg hcolon, hread, Option.map_some]

/-- A message names the address of the text its packet was made from where that is IPv4. -/
theorem namedAddr_inetAddr {ip : CStr} (hip : (namedAddr ip).isSome) :
    inetAddr ip < 2 ^ 32 ∧ (namedAddr (addrText (inetAddr ip)) = namedAddr ip ↔ ':' ∉ ip) := by
  have hlt : inetAddr ip < 2 ^ 32 := by
    unfold inetAddr
    cases hread : inetAton ip with
    | none => decide
    | some addr => exact inetAtonLoop_lt hread rfl (by decide)
  refine ⟨hlt, ?_⟩
  rw [namedAddr_addrText hlt]
  obtain ⟨bytes, hbytes⟩ := Option.isSome_iff_exists.mp hip
  constructor
  · intro hsame hcolon
    have hlength := namedAddr_v6 hcolon hsame.symm
    exact absurd hlength (by simp [octets])
  · intro hcolon
    rw [namedAddr, if_neg hcolon] at hip ⊢
    cases hread : inetAton ip with
    | none =>
      rw [hread] at hip
      cases hip
    | some addr => rw [inetAddr, hread, Option.getD_some, Option.map_some]

/-- Synchronisation keeps the address of an entry exactly where that is an IPv4 address. -/
theorem sync_keeps_addr (hpeers : Peers engine peer src) {ip : CStr}
    (hip : (namedAddr ip).isSome) :
    (∀ gt now, gt.ip = ip → nul ∉ gt.helo → nul ∉ gt.from_ → nul ∉ gt.to_ →
      gt.helo.length ≤ maxToken → gt.from_.length ≤ maxToken → gt.to_.length ≤ maxToken →
      ((∀ m ∈ syncRecv hmac peer src (syncUpdate hmac engine gt now),
        namedAddr m.ip = namedAddr ip) ↔ ':' ∉ ip)) ∧
    ∀ now expire delete,
      ((∀ m ∈ syncRecv hmac peer src (syncWhite hmac engine ip now expire delete),
        namedAddr m.ip = namedAddr ip) ↔ ':' ∉ ip) ∧
      ((∀ m ∈ syncRecv hmac peer src (syncTrapped hmac engine ip now expire delete),
        namedAddr m.ip = namedAddr ip) ↔ ':' ∉ ip) := by
  obtain ⟨hlt, hsame⟩ := namedAddr_inetAddr hip
  refine ⟨?_, fun now expire delete => ⟨?_, ?_⟩⟩
  · rintro gt now rfl hhelo hfrom hto hheloLen hfromLen htoLen
    have hsize : syncUpdateSize gt ≤ syncMaxsize := by
      simp only [maxToken, lexerMaxStrLen] at hheloLen hfromLen htoLen
      simp only [syncUpdateSize, syncAlign, syncTlvGreySize, syncHdrSize, syncTlvHdrSize, syncMaxsize]
      omega
    rw [syncRecv_syncUpdate hpeers rfl hlt hhelo hfrom hto hsize]
    simpa [SyncMessage.ip] using hsame
  · rw [syncRecv_syncWhite hpeers hlt rfl]
    simpa [SyncMessage.ip] using hsame
  · rw [syncRecv_syncTrapped hpeers hlt rfl]
    simpa [SyncMessage.ip] using hsame

theorem sync_keeps_addr_tuple :
    (∀ m ∈ syncRecv syncTupleHmac syncReceiver 0x0a000001
        (syncUpdate syncTupleHmac syncSender syncTuple 1700000000),
      namedAddr m.ip = namedAddr "10.1.2.3".toList) ↔ ':' ∉ "10.1.2.3".toList :=
  (sync_keeps_addr syncReceiver_peers (by decide +kernel)).1 syncTuple 1700000000 rfl
    (by decide +kernel) (by decide +kernel) (by decide +kernel) (by decide +kernel)
    (by decide +kernel) (by decide +kernel)

/-- The HMAC of the packet a trapped IPv6 address is sent in. -/
def syncTrapHmac : HmacSha1 :=
  knownDigest [170, 163, 2, 29, 107, 34, 218, 77, 159, 38, 52, 249, 99, 246, 66, 246, 219, 230, 103, 87]
    rfl

/-- Trapping an IPv6 address has the peer trap 255.255.255.255. -/
theorem sync_traps_broadcast :
    syncRecv syncTrapHmac syncReceiver 0x0a000001
        (syncTrapped syncTrapHmac syncSender "2001:db8::1".toList 1700000000 1700086400 false) =
      [.addr true "255.255.255.255".toList "10.0.0.1".toList 1700086400 false] ∧
    namedAddr "255.255.255.255".toList ≠ namedAddr "2001:db8::1".toList := by
  decide +kernel

end Greyd
