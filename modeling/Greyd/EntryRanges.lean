import Mathlib.Tactic
import Greyd.FeedGrammar
import Greyd.FeedLines
import Greyd.RangeCalls
import Greyd.SyncRoundTrip

/-!
# The ranges of feed entries (spamd_parser.c, ip.c, blacklist.c)

Which addresses an entry of a feed stands for, the pair that the parser passes on for it,
and what is left of it once the list is collapsed. The end of a pair is the address behind
the last one, which has no representation in 32 bits behind 255.255.255.255.
-/
namespace Greyd

open List (replicate)

/-! ## Addresses as quads -/

theorem quadAddr_step {w : BitVec 32} {v q : Nat} (hw : w.toNat = v) (hv : v < 2 ^ 24) (hq : q < 256) :
    (w <<< 8 ||| BitVec.ofNat 32 q).toNat = v * 256 + q := by
  have hshift : (w <<< 8).toNat = 2 ^ 8 * v := by
    rw [BitVec.toNat_shiftLeft, Nat.shiftLeft_eq, hw, Nat.mod_eq_of_lt (by omega), Nat.mul_comm]
  have hq32 : (BitVec.ofNat 32 q).toNat = q := by
    rw [BitVec.toNat_ofNat, Nat.mod_eq_of_lt (by omega)]
  rw [BitVec.toNat_or, hshift, hq32, ← Nat.two_pow_add_eq_or_of_lt hq]
  omega

theorem quadAddr_octets (a : BitVec 32) : quadAddr (octets a.toNat) = a := by
  have ha := a.isLt
  have hbyte (n : Nat) : n % 256 < 256 := Nat.mod_lt n (by decide)
  have h0 : (0 : BitVec 32).toNat = 0 := rfl
  have h1 := quadAddr_step h0 (by decide) (hbyte (a.toNat / 2 ^ 24))
  have h2 := quadAddr_step h1 (by omega) (hbyte (a.toNat / 2 ^ 16))
  have h3 := quadAddr_step h2 (by omega) (hbyte (a.toNat / 2 ^ 8))
  have h4 := quadAddr_step h3 (by omega) (hbyte a.toNat)
  exact BitVec.eq_of_toNat_eq (h4.trans (by omega))

/-- The tokens of a dotted quad. -/
def quadTokens (a : BitVec 32) : List SpamdTok := ((octets a.toNat).map spamdInt).intersperse .dot

theorem number_spamdInt (n : Nat) : number? (spamdInt n) = some n := by
  unfold spamdInt
  split <;> rfl

theorem readAddress_quadTokens (a : BitVec 32) (rest : List SpamdTok) :
    readAddress spamdParserIpv4Quads (quadTokens a ++ rest) = (some (octets a.toNat), rest) := by
  simp [quadTokens, octets, readAddress, spamdParserIpv4Quads, number_spamdInt]

/-! ## Entries -/

/-- The tokens of one whole entry, and the pair that `grammar_entry` passes on for it. -/
structure EntryReads (ts : List SpamdTok) (r : FeedRange) : Prop where
  number : ∃ q more, ts = spamdInt q :: more
  reads : ∀ rest, EndsLine rest → readEntry (ts ++ rest) = (some r, rest)

/-- A feed that holds only the entry, with ends of line behind it. -/
def entryFeed (ts : List SpamdTok) (eols : Nat) : List SpamdTok := ts ++ replicate eols .eol

theorem EntryReads.feed {ts : List SpamdTok} {r : FeedRange} (h : EntryReads ts r) (eols : Nat) :
    (readFeed (entryFeed ts eols)).1 = [r] ∧ (readFeed (entryFeed ts eols)).2.ok = true := by
  have hread : readEntry (entryFeed ts eols) = (some r, replicate eols .eol) := by
    rw [entryFeed]
    cases eols with
    | zero => exact h.reads _ (.inl rfl)
    | succ eols => exact h.reads _ (.inr ⟨_, rfl⟩)
  have hfirst : (entryFeed ts eols).dropWhile (fun t => decide (t = SpamdTok.eol)) =
      entryFeed ts eols := by
    obtain ⟨q, more, hq⟩ := h.number
    have hne : spamdInt q ≠ SpamdTok.eol := by
      unfold spamdInt
      split <;> nofun
    rw [entryFeed, hq, List.cons_append, List.dropWhile_cons_of_neg (by simpa using hne)]
  rw [readFeed, readEntries, hfirst, hread]
  cases eols with
  | zero => exact ⟨rfl, rfl⟩
  | succ eols =>
    have hdrop : (replicate eols SpamdTok.eol).dropWhile (fun t => decide (t = SpamdTok.eol)) = [] := by
      simp
    simp only [List.replicate_succ]
    rw [readEntries]
    simp only [hdrop]
    exact ⟨rfl, rfl⟩

/-- The tokens of `address / bits`. -/
def blockTokens (c : IpCidr) : List SpamdTok := quadTokens c.addr ++ [.slash, .int6 c.bits]

def blockPair (c : IpCidr) : FeedRange := ((ipCidrToRange c).1, (ipCidrToRange c).2 + 1)

theorem entryReads_block (c : IpCidr) : EntryReads (blockTokens c) (blockPair c) where
  number := ⟨_, _, rfl⟩
  reads rest _ := by
    rw [readEntry, blockTokens, List.append_assoc, readAddress_quadTokens]
    simp only [List.cons_append, List.nil_append, quadAddr_octets]
    rfl

/-- An entry of a feed: an address, a range, or a block with no address bit behind its
prefix. -/
inductive FeedEntry
  | address (a : BitVec 32)
  | range (a b : BitVec 32) (h : a ≤ b)
  | block (c : IpCidr) (h : c.Aligned)

namespace FeedEntry

def tokens : FeedEntry → List SpamdTok
  | address a => quadTokens a
  | range a b _ => quadTokens a ++ .dash :: quadTokens b
  | block c _ => blockTokens c

/-- The addresses that the entry denotes. -/
def addresses : FeedEntry → Set Nat
  | address a => {a.toNat}
  | range a b _ => Set.Icc a.toNat b.toNat
  | block c _ => c.points

def pair : FeedEntry → FeedRange
  | address a => (a, a + 1)
  | range a b _ => (a, b + 1)
  | block c _ => blockPair c

theorem entryReads (e : FeedEntry) : EntryReads e.tokens e.pair := by
  cases e with
  | address a =>
    refine ⟨⟨_, _, rfl⟩, fun rest hrest => ?_⟩
    rw [readEntry, tokens, readAddress_quadTokens]
    rcases hrest with rfl | ⟨more, rfl⟩ <;> simp only [quadAddr_octets] <;> rfl
  | range a b h =>
    refine ⟨⟨_, _, rfl⟩, fun rest _ => ?_⟩
    rw [readEntry, tokens, List.append_assoc, readAddress_quadTokens]
    simp only [List.cons_append, readAddress_quadTokens, Option.map_some, quadAddr_octets]
    rfl
  | block c h => exact entryReads_block c

end FeedEntry

/-! ## What a collapsed list stands for -/

/-- `Blacklist_collapse` returns blocks that hold exactly these addresses; no list stands
for no block. -/
def CollapsesTo (qsort : Qsort BlacklistEntry cmpIpv4Entry) (b : Blacklist) (S : Set Nat) : Prop :=
  ∃ b' r, blacklistCollapse qsort b = some (b', r) ∧ ∃ cidrs : List IpCidr,
    r.getD [] = cidrs.map ipCidrToStr ∧ (∀ c ∈ cidrs, c.Aligned) ∧
      ∀ x, (∃ c ∈ cidrs, x ∈ c.points) ↔ x ∈ S

theorem collapsesTo_iff (qsort : Qsort BlacklistEntry cmpIpv4Entry) {name message : CStr}
    {calls : List AddCall} {b : Blacklist}
    (hb : addCalls (blacklistCreate name message .list) calls = some b) (S : Set Nat) :
    CollapsesTo qsort b S ↔
      (calls.filter AddCall.kept = [] ∨ ∃ c ∈ calls.filter AddCall.kept, c.1.2 ≠ 0) ∧
        S = callsListed calls := by
  rcases collapse_calls qsort hb with ⟨hnone, hnull⟩ | ⟨hne, hzero, hlost⟩ |
    ⟨hsome, b', cidrs, hlist, hcidrs⟩
  · have hempty : callsListed calls = ∅ := by
      rw [Set.eq_empty_iff_forall_notMem]
      intro x ⟨⟨c, hc, _, hcovers⟩, _⟩
      exact absurd (List.mem_filter.mpr ⟨hc, hcovers.kept⟩) (by rw [hnone]; exact List.not_mem_nil)
    rw [hempty]
    constructor
    · intro ⟨b', r, hcollapse, cidrs, hr, _, hpoints⟩
      obtain ⟨-, rfl⟩ := Prod.mk.inj (Option.some.inj (hnull.symm.trans hcollapse))
      obtain rfl : cidrs = [] := List.map_eq_nil_iff.mp hr.symm
      refine ⟨.inl hnone, Set.eq_empty_of_forall_notMem fun x hx => ?_⟩
      obtain ⟨c, hc, -⟩ := (hpoints x).mpr hx
      cases hc
    · intro ⟨_, hS⟩
      exact ⟨b, none, hnull, [], rfl, by simp, by simp [hS]⟩
  · refine iff_of_false ?_ ?_
    · intro ⟨b', r, hcollapse, _⟩
      rw [hlost] at hcollapse
      cases hcollapse
    · intro ⟨hends, _⟩
      rcases hends with hnone | ⟨c, hc, hend⟩
      · exact hne hnone
      · exact hend (hzero c hc)
  · constructor
    · intro ⟨_, r, hcollapse, cidrs', hr, _, hpoints⟩
      obtain ⟨-, rfl⟩ := Prod.mk.inj (Option.some.inj (hlist.symm.trans hcollapse))
      obtain rfl : cidrs = cidrs' := List.map_injective_iff.mpr (fun _ _ => ipCidrToStr_inj) hr
      exact ⟨.inr hsome, Set.ext fun x => (hpoints x).symm.trans (hcidrs.2 x)⟩
    · intro ⟨_, hS⟩
      exact ⟨b', _, hlist, cidrs, rfl, hcidrs.1, by rw [hS]; exact hcidrs.2⟩

/-- The pair of one call. -/
theorem callsListed_single (r : FeedRange) :
    callsListed [(r, .black)] = Set.Ico r.1.toNat r.2.toNat := by
  ext x
  simp [callsListed, AddCall.Covers]

/-- The last address is in no range. -/
theorem last_not_listed (calls : List AddCall) : 4294967295 ∉ callsListed calls := by
  intro ⟨⟨c, _, _, hcovers⟩, _⟩
  have hend := hcovers.2
  have hlt := c.1.2.isLt
  omega

theorem blockPair_end (c : IpCidr) (hbits : c.bits ≠ 0) (hle : c.bits ≤ 32) :
    (blockPair c).2.toNat = c.stop % 2 ^ 32 := by
  have hshift : (1#32 <<< ((32 - c.bits) % 32)) = BitVec.ofNat 32 (2 ^ (32 - c.bits)) := by
    rw [Nat.mod_eq_of_lt (by omega), ← BitVec.twoPow_eq]
    exact BitVec.eq_of_toNat_eq (BitVec.toNat_twoPow _ _)
  rw [blockPair, ipCidrToRange, hshift, BitVec.sub_add_cancel, BitVec.toNat_add, BitVec.toNat_ofNat,
    Nat.add_mod_mod]
  rfl

namespace FeedEntry

/-- Short of the last address nothing wraps around. -/
theorem pair_of_not_last {e : FeedEntry} (h : 4294967295 ∉ e.addresses) :
    e.pair.1 ≤ e.pair.2 ∧ e.pair.2 ≠ 0 ∧ Set.Ico e.pair.1.toNat e.pair.2.toNat = e.addresses := by
  have hnext {a : BitVec 32} (ha : a.toNat ≠ 4294967295) : (a + 1).toNat = a.toNat + 1 := by
    have hlt := a.isLt
    rw [BitVec.toNat_add]
    exact Nat.mod_eq_of_lt (by show a.toNat + 1 < 2 ^ 32; omega)
  have hends {a b : BitVec 32} {stop : Nat} (hb : b.toNat = stop) (hlt : a.toNat < stop) :
      a ≤ b ∧ b ≠ 0 ∧ Set.Ico a.toNat b.toNat = Set.Ico a.toNat stop := by
    refine ⟨BitVec.le_def.mpr (by omega), ?_, by rw [hb]⟩
    intro hzero
    rw [hzero] at hb
    exact absurd (hb ▸ hlt) (Nat.not_lt_zero _)
  cases e with
  | address a =>
    obtain ⟨hle, hne, hset⟩ := hends (hnext fun ha => h ha.symm) (Nat.lt_succ_self _)
    refine ⟨hle, hne, hset.trans ?_⟩
    ext x
    simp only [addresses, Set.mem_Ico, Set.mem_singleton_iff]
    omega
  | range a b hab =>
    have hlt := b.isLt
    have hab' := BitVec.le_def.mp hab
    have hb : b.toNat ≠ 4294967295 := fun hb => h ⟨by omega, hb.ge⟩
    obtain ⟨hle, hne, hset⟩ := hends (hnext hb) (Nat.lt_succ_of_le hab')
    refine ⟨hle, hne, hset.trans ?_⟩
    ext x
    simp only [addresses, Set.mem_Ico, Set.mem_Icc]
    omega
  | block c hc =>
    have hlt := c.addr.isLt
    have hsize : 0 < 2 ^ (32 - c.bits) := Nat.two_pow_pos _
    have hstop : c.addr.toNat + 2 ^ (32 - c.bits) < 2 ^ 32 := by
      by_contra hover
      exact h ⟨by omega, by rw [IpCidr.stop]; omega⟩
    have hbits : c.bits ≠ 0 := by
      intro hzero
      rw [hzero] at hstop
      omega
    have hend : (blockPair c).2.toNat = c.stop := by
      rw [blockPair_end c hbits hc.1]
      exact Nat.mod_eq_of_lt hstop
    exact hends hend (Nat.lt_add_of_pos_right hsize)

end FeedEntry

/-! ## An entry through the parser and the list -/

/-- The parser accepts an entry and adds its pair. -/
theorem spamdParserStart_entry {σ : Type} {next : σ → SpamdTok × σ} {lexer : σ} {fuel eols : Nat}
    {ts : List SpamdTok} {r : FeedRange} (hts : EntryReads ts r)
    (h : Feeds next lexer (entryFeed ts eols))
    (hfuel : (entryFeed ts eols).length < fuel) (name message : CStr) :
    ∃ parser : SpamdParser σ, spamdParserStart next fuel lexer (blacklistCreate name message .list)
        .black = some (true, parser) ∧
      addCalls (blacklistCreate name message .list) [(r, .black)] = some parser.blacklist := by
  obtain ⟨hranges, hok⟩ := hts.feed eols
  obtain ⟨parser, hrun⟩ := spamdParserStart_reads h hfuel (blacklistCreate name message .list) .black
  have hfits : (callEvents [(r, .black)]).length ≤ listRoom := by
    have hkept := List.length_filter_le AddCall.kept [(r, .black)]
    rw [List.length_singleton] at hkept
    have hroom : 2 ≤ listRoom := by decide
    rw [callEvents_length]
    omega
  obtain ⟨b, hadd⟩ := (addCalls_create_iff name message _).mpr hfits
  have hsingle : addRanges (blacklistCreate name message .list) .black [r] = some b := by
    rw [addRanges_eq_addCalls]
    exact hadd
  refine ⟨{ parser with blacklist := b }, ?_, hadd⟩
  rw [hrun, hranges, hok, hsingle]
  rfl

/-- A list with one range of an entry collapses to the entry's addresses, exactly if the
last address of all is not one of them. -/
theorem collapsesTo_pair_iff (qsort : Qsort BlacklistEntry cmpIpv4Entry) {name message : CStr}
    {e : FeedEntry} {b : Blacklist}
    (hb : addCalls (blacklistCreate name message .list) [(e.pair, .black)] = some b) :
    CollapsesTo qsort b e.addresses ↔ 4294967295 ∉ e.addresses := by
  rw [collapsesTo_iff qsort hb]
  constructor
  · intro ⟨_, hS⟩
    rw [hS]
    exact last_not_listed _
  · intro h
    obtain ⟨hle, hne, hset⟩ := FeedEntry.pair_of_not_last h
    have hkept : AddCall.kept (e.pair, .black) = true := decide_eq_true hle
    refine ⟨.inr ⟨(e.pair, .black), ?_, hne⟩, by rw [callsListed_single, hset]⟩
    rw [List.filter_cons_of_pos hkept]
    exact List.mem_cons_self

/-- An entry that the parser reads is listed with exactly its addresses, unless it contains
255.255.255.255. -/
theorem entry_listed_iff (qsort : Qsort BlacklistEntry cmpIpv4Entry) {σ : Type}
    {next : σ → SpamdTok × σ} {lexer : σ} {fuel eols : Nat} {e : FeedEntry}
    (h : Feeds next lexer (entryFeed e.tokens eols))
    (hfuel : (entryFeed e.tokens eols).length < fuel) (name message : CStr) :
    (∃ parser : SpamdParser σ, spamdParserStart next fuel lexer (blacklistCreate name message .list)
        .black = some (true, parser) ∧ CollapsesTo qsort parser.blacklist e.addresses) ↔
      4294967295 ∉ e.addresses := by
  obtain ⟨parser, hrun, hadd⟩ := spamdParserStart_entry e.entryReads h hfuel name message
  rw [← collapsesTo_pair_iff qsort hadd]
  constructor
  · intro ⟨parser', hrun', hlist⟩
    rw [hrun, Option.some.injEq, Prod.mk.injEq] at hrun'
    rwa [← hrun'.2] at hlist
  · exact fun hlist => ⟨parser, hrun, hlist⟩

def privateBlock : FeedEntry := .block ⟨0x0a000000, 8⟩ ⟨by decide, by decide⟩

theorem entry_listed_private :
    (∃ parser : SpamdParser Lexer, spamdParserStart spamdLexerNextToken 20
        (spamdLexerCreate "10.0.0.0/8\n".toList) (blacklistCreate [] [] .list) .black =
          some (true, parser) ∧ CollapsesTo Qsort.merge parser.blacklist privateBlock.addresses) ↔
      4294967295 ∉ privateBlock.addresses := by
  have hfeeds := feeds_lexFeed (spamdLexerCreate "10.0.0.0/8\n".toList)
  have htokens : (lexFeed (spamdLexerCreate "10.0.0.0/8\n".toList)).1 =
      entryFeed privateBlock.tokens 1 := by decide +kernel
  rw [htokens] at hfeeds
  exact entry_listed_iff Qsort.merge hfeeds (by decide +kernel) [] []

def wholeSpace : FeedEntry := .block ⟨0, 0⟩ ⟨by decide, by decide⟩

/-- The block of all addresses: the shift by 32 leaves a pair that holds the first of them. -/
theorem whole_space_lost :
    ∃ parser : SpamdParser Lexer, spamdParserStart spamdLexerNextToken 20
        (spamdLexerCreate "0.0.0.0/0\n".toList) (blacklistCreate [] [] .list) .black =
          some (true, parser) ∧ ¬ CollapsesTo Qsort.merge parser.blacklist wholeSpace.addresses := by
  have hfeeds := feeds_lexFeed (spamdLexerCreate "0.0.0.0/0\n".toList)
  have htokens : (lexFeed (spamdLexerCreate "0.0.0.0/0\n".toList)).1 =
      entryFeed wholeSpace.tokens 1 := by decide +kernel
  rw [htokens] at hfeeds
  have hfuel : (entryFeed wholeSpace.tokens 1).length < 20 := by decide +kernel
  obtain ⟨parser, hrun, hadd⟩ := spamdParserStart_entry wholeSpace.entryReads hfeeds hfuel [] []
  refine ⟨parser, hrun, ?_⟩
  rw [collapsesTo_pair_iff Qsort.merge hadd, not_not]
  exact ⟨Nat.zero_le _, by decide⟩

end Greyd
