import Mathlib.Tactic
import Greyd.EntryRanges
import Greyd.BlacklistRuns

/-!
# The two readers of blocks (ip.c, spamd_parser.c)

A line `a/n` as the feed parser and the collapsed list see it, and the same text added to a
list as the matching sees it. The feed parser adds the size of the block to the address in
host order, the other reader masks both addresses in network order.
-/
namespace Greyd

/-! ## The text of a block -/

/-- Numbers by their decimal digits, from the left. -/
theorem decimal_induction {P : Nat → Prop} (digit : ∀ c : Char, c.isDigit = true → P (digitVal c))
    (more : ∀ n (c : Char), n ≠ 0 → c.isDigit = true → P n → P (n * 10 + digitVal c)) (n : Nat) :
    P n := by
  have hchar (d : Nat) (hd : d < 10) : ∃ c : Char, c.isDigit = true ∧ digitVal c = d := by
    have hall : ∀ d : Fin 10, (Char.ofNat (48 + d)).isDigit = true ∧
        digitVal (Char.ofNat (48 + d)) = d := by decide
    exact ⟨_, hall ⟨d, hd⟩⟩
  induction n using Nat.strongRecOn with
  | ind n ih =>
    by_cases hn : n < 10
    · obtain ⟨c, hc, rfl⟩ := hchar n hn
      exact digit c hc
    · obtain ⟨c, hc, hval⟩ := hchar (n % 10) (Nat.mod_lt n (by decide))
      have hsplit : n / 10 * 10 + digitVal c = n := by omega
      rw [← hsplit]
      exact more (n / 10) c (by omega) hc (ih (n / 10) (by omega))

/-- The lexer's loop reads a number that fits, digit by digit. -/
theorem spamdDigits_decimal (n : Nat) (hn : n ≤ spamdLexerMaxInt8) (rest : List Char) :
    spamdDigits 0 (decimal n ++ rest) = spamdDigits n rest := by
  induction n using decimal_induction generalizing rest with
  | digit c hc =>
    obtain ⟨htext, -⟩ := decimal_digitVal hc
    rw [htext, List.singleton_append, spamdDigits, if_pos hc, Nat.zero_mul, Nat.zero_add,
      if_neg (Nat.not_lt.mpr hn)]
  | more n c hne hc ih =>
    obtain ⟨htext, hlt⟩ := decimal_digitVal hc
    rw [decimal_append_digit hne hlt, htext, List.append_assoc, ih (by omega),
      List.singleton_append, spamdDigits, if_pos hc, if_neg (Nat.not_lt.mpr hn)]

private theorem skipBlanks_digit {d : Char} (hd : d.isDigit = true) (cs : List Char) :
    skipBlanks false (d :: cs) = ⟨d :: cs, false⟩ := by
  have hne (c : Char) (hc : c.isDigit = false) : d ≠ c := by
    intro he
    rw [he, hc] at hd
    cases hd
  have hblank : ¬ (d = ' ' ∨ d = '\t' ∨ d = '\r') := by
    simp only [not_or]
    exact ⟨hne ' ' rfl, hne '\t' rfl, hne '\r' rfl⟩
  rw [skipBlanks, if_neg (by decide), if_neg hblank, if_neg (hne '#' rfl)]

theorem next_decimal {n : Nat} (hn : n ≤ spamdLexerMaxInt8) {c : Char} (hc : c.isDigit = false)
    (rest : List Char) :
    spamdLexerNextToken ⟨decimal n ++ c :: rest, false⟩ = (spamdInt n, ⟨c :: rest, false⟩) := by
  obtain ⟨d, ds, hds⟩ := List.exists_cons_of_ne_nil (decimal_ne_nil n)
  have hd : d.isDigit = true := isDigit_of_mem_decimal (hds ▸ List.mem_cons_self)
  have hsmall : ¬ digitVal d > spamdLexerMaxInt8 := by
    have hlt := (decimal_digitVal hd).2
    simp only [spamdLexerMaxInt8]
    omega
  have hdigits : spamdDigits (digitVal d) (ds ++ c :: rest) = (n, c :: rest) := by
    have hread := spamdDigits_decimal n hn (c :: rest)
    rw [hds, List.cons_append, spamdDigits, if_pos hd, Nat.zero_mul, Nat.zero_add, if_neg hsmall] at hread
    rw [hread, spamdDigits, if_neg (by rw [hc]; decide)]
  have hskip : (skipBlanks false (decimal n ++ c :: rest)).source = d :: (ds ++ c :: rest) := by
    rw [hds, List.cons_append, skipBlanks_digit hd]
  rw [next_cons rfl hskip, if_pos hd, hdigits]
  rfl

theorem inetNtoa_htonl (a : BitVec 32) : inetNtoa (htonl a) = dotted (octets a.toNat) := by
  rw [← addrText_eq a.isLt, addrText, BitVec.ofNat_toNat, BitVec.setWidth_eq]

/-- The line of a block gives the tokens of one entry. -/
theorem feeds_block (c : IpCidr) (hbits : c.bits ≤ 32) :
    Feeds spamdLexerNextToken (spamdLexerCreate (ipCidrToStr c ++ ['\n'])) (entryFeed (blockTokens c) 1) := by
  have hint (n : Nat) : spamdInt n ≠ .eof := by
    unfold spamdInt
    split <;> nofun
  have hnumber {n : Nat} (hn : n ≤ 255) {ch : Char} (hch : ch.isDigit = false) {rest : List Char}
      {ts : List SpamdTok} (h : Feeds spamdLexerNextToken ⟨ch :: rest, false⟩ ts) :
      Feeds spamdLexerNextToken ⟨decimal n ++ ch :: rest, false⟩ (spamdInt n :: ts) :=
    .step (next_decimal hn hch rest) (hint n) h
  have hoctet (n : Nat) : n % 256 ≤ 255 := Nat.le_of_lt_succ (Nat.mod_lt n (by decide))
  have hbits6 : spamdInt c.bits = .int6 c.bits := if_pos hbits
  have htext : ipCidrToStr c ++ ['\n'] = decimal (c.addr.toNat / 2 ^ 24 % 256) ++ '.' ::
      (decimal (c.addr.toNat / 2 ^ 16 % 256) ++ '.' :: (decimal (c.addr.toNat / 2 ^ 8 % 256) ++ '.' ::
        (decimal (c.addr.toNat % 256) ++ '/' :: (decimal c.bits ++ ['\n'])))) := by
    rw [ipCidrToStr, inetNtoa_htonl, dotted, octets]
    simp [List.intercalate]
  rw [spamdLexerCreate, htext]
  refine hnumber (hoctet _) rfl (.step rfl (by decide) ?_)
  refine hnumber (hoctet _) rfl (.step rfl (by decide) ?_)
  refine hnumber (hoctet _) rfl (.step rfl (by decide) ?_)
  refine hnumber (hoctet _) rfl (.step rfl (by decide) ?_)
  rw [← hbits6]
  exact hnumber (by omega) rfl (.step rfl (by decide) (.done rfl))

/-! ## The other reader -/

theorem inetPton4Loop_decimal {n : Nat} (hn : n ≤ 255) {done : List Nat} (hdone : done.length ≤ 3)
    (rest : List Char) :
    inetPton4Loop (decimal n ++ rest) done none = inetPton4Loop rest done (some n) := by
  induction n using decimal_induction generalizing rest with
  | digit c hc =>
    obtain ⟨htext, -⟩ := decimal_digitVal hc
    rw [htext, List.singleton_append, inetPton4Loop, if_pos hc, if_pos hdone]
  | more n c hne hc ih =>
    obtain ⟨htext, hlt⟩ := decimal_digitVal hc
    have hvalid : ¬ (n = 0 ∨ n * 10 + digitVal c > 255) := by omega
    rw [decimal_append_digit hne hlt, htext, List.append_assoc, ih (by omega),
      List.singleton_append, inetPton4Loop, if_pos hc, if_neg hvalid]

theorem inetPton4_octets (addr : Nat) : inetPton4 (dotted (octets addr)) = some (octets addr) := by
  have hoctet (n : Nat) : n % 256 ≤ 255 := Nat.le_of_lt_succ (Nat.mod_lt n (by decide))
  have hdot {rest : List Char} {done : List Nat} {n : Nat} (hdone : done.length ≠ 3) :
      inetPton4Loop ('.' :: rest) done (some n) = inetPton4Loop rest (done ++ [n]) none := by
    rw [inetPton4Loop, if_neg (by decide), if_pos rfl, if_neg hdone]
  have htext : dotted (octets addr) = decimal (addr / 2 ^ 24 % 256) ++ '.' ::
      (decimal (addr / 2 ^ 16 % 256) ++ '.' :: (decimal (addr / 2 ^ 8 % 256) ++ '.' ::
        (decimal (addr % 256) ++ []))) := by
    simp [dotted, octets, List.intercalate]
  rw [inetPton4, htext, inetPton4Loop_decimal (hoctet _) (by decide), hdot (by decide),
    inetPton4Loop_decimal (hoctet _) (by simp), hdot (by simp),
    inetPton4Loop_decimal (hoctet _) (by simp), hdot (by simp),
    inetPton4Loop_decimal (hoctet _) (by simp)]
  rfl

example : inetPton4 "192.168.0.1".toList = some [192, 168, 0, 1] := by decide +kernel

theorem addrOfBytes_octets (a : BitVec 32) : (addrOfBytes (octets a.toNat)).w0 = htonl a := by
  have hbyte (k : Nat) : BitVec.ofNat 8 (a.toNat / 2 ^ k % 256) = (a >>> k).setWidth 8 := by
    refine BitVec.eq_of_toNat_eq ?_
    rw [BitVec.toNat_ofNat, BitVec.toNat_setWidth, BitVec.toNat_ushiftRight, Nat.shiftRight_eq_div_pow]
    exact Nat.mod_mod _ _
  have hlast : BitVec.ofNat 8 (a.toNat % 256) = a.setWidth 8 := by
    refine BitVec.eq_of_toNat_eq ?_
    rw [BitVec.toNat_ofNat, BitVec.toNat_setWidth]
    exact Nat.mod_mod _ _
  have hword : (addrOfBytes (octets a.toNat)).w0 = wordOfBytes (BitVec.ofNat 8 (a.toNat / 2 ^ 24 % 256))
      (BitVec.ofNat 8 (a.toNat / 2 ^ 16 % 256)) (BitVec.ofNat 8 (a.toNat / 2 ^ 8 % 256))
      (BitVec.ofNat 8 (a.toNat % 256)) := rfl
  rw [hword, hbyte, hbyte, hbyte, hlast, htonl]

theorem htonl_and (a b : BitVec 32) : htonl (a &&& b) = htonl a &&& htonl b := by
  refine BitVec.eq_of_getLsbD_eq fun i hi => ?_
  simp [htonl, wordOfBytes, hi]
  grind

theorem maskOf_htonl {bits : Nat} (hbits : bits ≤ 32) : (maskOf bits).w0 = htonl (imask bits) := by
  have hall : ∀ b : Fin 33, (maskOf b).w0 = htonl (imask b) := by decide +kernel
  exact hall ⟨bits, Nat.lt_succ_of_le hbits⟩

example : (maskOf 8).w0 = htonl 0xff000000 := by decide +kernel

/-- A list that the block's text was added to matches the addresses with its prefix. -/
theorem blacklistAdd_block (name message : CStr) {c : IpCidr} (hpos : 1 ≤ c.bits) (hle : c.bits ≤ 32) :
    ∃ l, blacklistAdd (blacklistCreate name message .list) (ipCidrToStr c) = some (l, 0) ∧
      ∀ source : IpAddr, blacklistMatch l source afInet = true ↔
        (htonl source.w0).toNat / 2 ^ (32 - c.bits) = c.addr.toNat / 2 ^ (32 - c.bits) := by
  have hparsed : ipStrToAddrMask (ipCidrToStr c) afUnspec =
      ⟨0, (addrOfBytes (octets c.addr.toNat)).and (maskOf c.bits), maskOf c.bits, afInet⟩ := by
    rw [ipCidrToStr, inetNtoa_htonl]
    exact ipStrToAddrMask_printed4 afUnspec (inetPton4_octets _) hpos hle
  have haccepted : (ipStrToAddrMask (ipCidrToStr c) afUnspec).ret = 0 := by rw [hparsed]
  obtain ⟨l, hadd, hl⟩ := (firstAlloc_create name message).add ⟨ipCidrToStr c, haccepted⟩ (by decide)
  refine ⟨l, hadd, fun source => ?_⟩
  have haddr : (⟨ipCidrToStr c, haccepted⟩ : Cidr).listEntry.address.w0 =
      htonl c.addr &&& htonl (imask c.bits) := by
    rw [Cidr.listEntry, Cidr.entry, hparsed, IpAddr.and, addrOfBytes_octets, maskOf_htonl hle]
  have hmask : (⟨ipCidrToStr c, haccepted⟩ : Cidr).listEntry.mask.w0 = htonl (imask c.bits) := by
    rw [Cidr.listEntry, Cidr.entry, hparsed, maskOf_htonl hle]
  rw [blacklistMatch, hl.type]
  simp only [hl.entries, List.nil_append, List.any_cons, List.any_nil, Bool.or_false, decide_eq_true_eq,
    ipMatchAddr, if_true, haddr, hmask]
  have hmasked : htonl c.addr &&& htonl (imask c.bits) = source.w0 &&& htonl (imask c.bits) ↔
      (htonl source.w0) &&& imask c.bits = c.addr &&& imask c.bits := by
    rw [← htonl_and, eq_comm]
    constructor
    · intro h
      refine htonl_inj ?_
      rw [htonl_and, htonl_htonl, h]
    · intro h
      rw [← h, htonl_and, htonl_htonl]
  rw [← and_imask_eq_iff _ _ hle, ← hmasked]
  split_ifs with h <;> simp [h]

/-! ## Agreement -/

/-- The addresses behind `a` up to the wrapped end of its block are those with its prefix,
exactly if `a` begins the block and the block does not end with the last address. -/
theorem sameBlock_iff {a size : Nat} (ha : a < 2 ^ 32) (hsize : 0 < size) (hmax : size < 2 ^ 32) :
    (∀ x < 2 ^ 32, x / size = a / size ↔ a ≤ x ∧ x < (a + size) % 2 ^ 32) ↔
      size ∣ a ∧ a + size < 2 ^ 32 := by
  constructor
  · intro h
    have hself := (h a ha).mp rfl
    have hover : a + size < 2 ^ 32 := by
      by_contra hover
      have hwrap : (a + size) % 2 ^ 32 = a + size - 2 ^ 32 := by
        rw [Nat.mod_eq_sub_mod (Nat.not_lt.mp hover)]
        exact Nat.mod_eq_of_lt (by omega)
      omega
    refine ⟨?_, hover⟩
    have hbase : a / size * size ≤ a := Nat.div_mul_le_self a size
    have hfirst := (h (a / size * size) (by omega)).mp (Nat.mul_div_cancel _ hsize)
    exact ⟨a / size, by rw [Nat.mul_comm]; exact Nat.le_antisymm hfirst.1 hbase⟩
  · intro ⟨hdvd, hover⟩ x hx
    obtain ⟨q, rfl⟩ := hdvd
    rw [Nat.mod_eq_of_lt hover, Nat.mul_div_cancel_left q hsize, Nat.div_eq_iff hsize]
    rw [Nat.mul_comm size q]
    omega

/-- What the line of a block adds to an empty list collapses to the addresses up to the
wrapped end. -/
theorem collapsesTo_block_iff (qsort : Qsort BlacklistEntry cmpIpv4Entry) {name message : CStr}
    {c : IpCidr} (hpos : 1 ≤ c.bits) (hle : c.bits ≤ 32) {b : Blacklist}
    (hb : addCalls (blacklistCreate name message .list) [(blockPair c, .black)] = some b) (S : Set Nat) :
    CollapsesTo qsort b S ↔ S = Set.Ico c.addr.toNat (c.stop % 2 ^ 32) := by
  have hmax : 2 ^ (32 - c.bits) < 2 ^ 32 := Nat.pow_lt_pow_right (by decide) (by omega)
  have hend : (blockPair c).2.toNat = c.stop % 2 ^ 32 := blockPair_end c (Nat.ne_of_gt hpos) hle
  rw [collapsesTo_iff qsort hb, callsListed_single, hend]
  refine and_iff_right ?_
  by_cases hkept : AddCall.kept (blockPair c, .black) = true
  · refine .inr ⟨(blockPair c, .black), ?_, fun hzero => ?_⟩
    · rw [List.filter_cons_of_pos hkept]
      exact List.mem_cons_self
    · have hstart : c.addr.toNat ≤ (blockPair c).2.toNat := BitVec.le_def.mp (of_decide_eq_true hkept)
      have hsize : 0 < 2 ^ (32 - c.bits) := Nat.two_pow_pos _
      have hword : (blockPair c).2.toNat = 0 := congrArg BitVec.toNat hzero
      rw [hword] at hstart hend
      rw [IpCidr.stop, Nat.le_zero.mp hstart, Nat.zero_add, Nat.mod_eq_of_lt hmax] at hend
      omega
  · exact .inl (List.filter_cons_of_neg hkept)

/-- The feed parser's set for a line and the matching's set for its text are one, exactly
for blocks that begin at their address and end short of the last address. -/
theorem cidr_readers_agree_iff (qsort : Qsort BlacklistEntry cmpIpv4Entry) (name message : CStr)
    (c : IpCidr) (hpos : 1 ≤ c.bits) (hle : c.bits ≤ 32) {fuel : Nat}
    (hfuel : (entryFeed (blockTokens c) 1).length < fuel) :
    (∃ (parser : SpamdParser Lexer) (l : Blacklist) (S : Set Nat),
      spamdParserStart spamdLexerNextToken fuel (spamdLexerCreate (ipCidrToStr c ++ ['\n']))
          (blacklistCreate name message .list) .black = some (true, parser) ∧
        blacklistAdd (blacklistCreate name message .list) (ipCidrToStr c) = some (l, 0) ∧
        CollapsesTo qsort parser.blacklist S ∧
        ∀ source : IpAddr, blacklistMatch l source afInet = true ↔ (htonl source.w0).toNat ∈ S) ↔
      2 ^ (32 - c.bits) ∣ c.addr.toNat ∧ c.addr.toNat + 2 ^ (32 - c.bits) < 2 ^ 32 := by
  obtain ⟨parser, hrun, hcalls⟩ :=
    spamdParserStart_entry (entryReads_block c) (feeds_block c hle) hfuel name message
  obtain ⟨l, hadd, hmatch⟩ := blacklistAdd_block name message hpos hle
  have hmax : 2 ^ (32 - c.bits) < 2 ^ 32 := Nat.pow_lt_pow_right (by decide) (by omega)
  rw [← sameBlock_iff c.addr.isLt (Nat.two_pow_pos _) hmax]
  constructor
  · intro ⟨parser', l', S, hrun', hadd', hset, hmatch'⟩ x hx
    rw [hrun, Option.some.injEq, Prod.mk.injEq] at hrun'
    rw [hadd, Option.some.injEq, Prod.mk.injEq] at hadd'
    rw [← hrun'.2, collapsesTo_block_iff qsort hpos hle hcalls] at hset
    have hword : (htonl (htonl (BitVec.ofNat 32 x))).toNat = x := by
      rw [htonl_htonl, BitVec.toNat_ofNat, Nat.mod_eq_of_lt hx]
    have hquery := hmatch (.ofSAddr (htonl (BitVec.ofNat 32 x)))
    have hquery' := hmatch' (.ofSAddr (htonl (BitVec.ofNat 32 x)))
    rw [← hadd'.1, hquery, hset] at hquery'
    rw [IpAddr.ofSAddr, hword] at hquery'
    exact hquery'
  · intro h
    refine ⟨parser, l, _, hrun, hadd, (collapsesTo_block_iff qsort hpos hle hcalls _).mpr rfl, ?_⟩
    intro source
    rw [hmatch source]
    exact h _ (htonl source.w0).isLt

theorem cidr_readers_agree_private :
    (∃ (parser : SpamdParser Lexer) (l : Blacklist) (S : Set Nat),
      spamdParserStart spamdLexerNextToken 20 (spamdLexerCreate (ipCidrToStr ⟨0x0a000000, 8⟩ ++ ['\n']))
          (blacklistCreate [] [] .list) .black = some (true, parser) ∧
        blacklistAdd (blacklistCreate [] [] .list) (ipCidrToStr ⟨0x0a000000, 8⟩) = some (l, 0) ∧
        CollapsesTo Qsort.merge parser.blacklist S ∧
        ∀ source : IpAddr, blacklistMatch l source afInet = true ↔ (htonl source.w0).toNat ∈ S) ↔
      2 ^ 24 ∣ (0x0a000000#32).toNat ∧ (0x0a000000#32).toNat + 2 ^ 24 < 2 ^ 32 :=
  cidr_readers_agree_iff Qsort.merge [] [] ⟨0x0a000000, 8⟩ (by decide) (by decide) (by decide +kernel)

/-- The line `10.0.0.1/8`: the parser's range begins at 10.0.0.1, the mask at 10.0.0.0. -/
theorem cidr_readers_differ :
    ¬ ∃ (parser : SpamdParser Lexer) (l : Blacklist) (S : Set Nat),
      spamdParserStart spamdLexerNextToken 20 (spamdLexerCreate (ipCidrToStr ⟨0x0a000001, 8⟩ ++ ['\n']))
          (blacklistCreate [] [] .list) .black = some (true, parser) ∧
        blacklistAdd (blacklistCreate [] [] .list) (ipCidrToStr ⟨0x0a000001, 8⟩) = some (l, 0) ∧
        CollapsesTo Qsort.merge parser.blacklist S ∧
        ∀ source : IpAddr, blacklistMatch l source afInet = true ↔ (htonl source.w0).toNat ∈ S := by
  intro ⟨parser, l, S, hrun, hadd, hset, hmatch⟩
  have hfuel : (entryFeed (blockTokens ⟨0x0a000001, 8⟩) 1).length < 20 := by decide +kernel
  have hle : (⟨0x0a000001, 8⟩ : IpCidr).bits ≤ 32 := by decide
  have hpos : 1 ≤ (⟨0x0a000001, 8⟩ : IpCidr).bits := by decide
  obtain ⟨parser', hrun', hcalls⟩ :=
    spamdParserStart_entry (entryReads_block _) (feeds_block _ hle) hfuel [] []
  rw [hrun', Option.some.injEq, Prod.mk.injEq] at hrun
  rw [← hrun.2, collapsesTo_block_iff Qsort.merge hpos hle hcalls] at hset
  obtain ⟨l', hadd', hmatch'⟩ := blacklistAdd_block [] [] hpos hle
  rw [hadd', Option.some.injEq, Prod.mk.injEq] at hadd
  have hfirst := (hmatch (.ofSAddr (htonl 0x0a000000#32))).mp (by
    rw [← hadd.1, hmatch', IpAddr.ofSAddr, htonl_htonl]
    decide)
  rw [hset, IpAddr.ofSAddr, htonl_htonl] at hfirst
  exact absurd hfirst.1 (by decide)

end Greyd
