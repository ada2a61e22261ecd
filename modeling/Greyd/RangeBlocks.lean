import Greyd.Collapse

/-!
# The blocks of a range (ip.c)

`IP_range_to_cidr_list` appends the maximal blocks of the range, in their order, and counts
them.
-/
namespace Greyd

open AlignedBlocks (Block Greedy)

/-- `IP_range_to_cidr_list`, with the list it appends to and the number of blocks added so
far. -/
def ipRangeToCidrListFrom : Nat → List CStr → Nat → BitVec 32 → BitVec 32 → Option (List CStr × Nat)
  | 0, _, _, _, _ => none
  | fuel + 1, cidrs, nadded, start, end_ =>
    if end_ ≥ start then
      let maxsize := maxBlock start 32
      let diff := maxDiff start end_
      let maxsize := if maxsize > diff then maxsize else diff
      ipRangeToCidrListFrom fuel (cidrs ++ [ipCidrToStr ⟨start, maxsize⟩]) (nadded + 1)
        (start + (1#32 <<< (32 - maxsize))) end_
    else some (cidrs, nadded)

theorem ipRangeToCidrListFrom_eq (fuel : Nat) (cidrs : List CStr) (nadded : Nat)
    (start end_ : BitVec 32) : ipRangeToCidrListFrom fuel cidrs nadded start end_ =
      (ipRangeToCidrList fuel start end_).map fun blocks =>
        (cidrs ++ blocks.map ipCidrToStr, nadded + blocks.length) := by
  induction fuel generalizing cidrs nadded start with
  | zero => rfl
  | succ fuel ih =>
    rw [ipRangeToCidrListFrom, ipRangeToCidrList]
    split
    · dsimp only
      rw [ih, Option.map_map]
      congr 1
      funext blocks
      rw [Function.comp_apply, List.map_cons, List.length_cons, List.append_assoc,
        List.singleton_append, Nat.add_assoc, Nat.add_comm 1]
    · rw [Option.map_some, List.map_nil, List.append_nil, List.length_nil, Nat.add_zero]

/-- With enough fuel the walk ends with the same blocks. -/
theorem exists_greedy {start end_ : BitVec 32} (hle : start ≤ end_) (hend : end_.toNat + 1 < 2 ^ 32) :
    ∃ bs, Greedy start.toNat (end_.toNat + 1) bs ∧ ∀ fuel, end_.toNat + 1 - start.toNat < fuel →
      ipRangeToCidrList fuel start end_ = some (bs.map IpCidr.ofBlock) := by
  have hstart : start.toNat ≤ end_.toNat + 1 := (BitVec.le_def.mp hle).trans (Nat.le_succ _)
  obtain ⟨bs, -, hgreedy⟩ := ipRangeToCidrList_greedy _ start end_ hend hstart (Nat.lt_succ_self _)
  refine ⟨bs, hgreedy, fun fuel hfuel => ?_⟩
  obtain ⟨bs', hlist, hgreedy'⟩ := ipRangeToCidrList_greedy fuel start end_ hend hstart hfuel
  rw [hlist, hgreedy'.canonical.unique hgreedy.canonical]

/-- The walk over a range ends and appends aligned blocks, one behind the other, that make
up the range; no list of aligned blocks that do so is shorter; and it returns how many there
are. -/
theorem range_decomposition (cidrs : List CStr) {start end_ : BitVec 32} (hle : start ≤ end_)
    (hend : end_.toNat < 2 ^ 32 - 1) :
    ∃ blocks : List IpCidr,
      (∀ fuel, end_.toNat + 1 - start.toNat < fuel →
        ipRangeToCidrListFrom fuel cidrs 0 start end_ =
          some (cidrs ++ blocks.map ipCidrToStr, blocks.length)) ∧
      (∀ c ∈ blocks, c.Aligned) ∧
      blocks.Pairwise (fun c d => c.stop ≤ d.addr.toNat) ∧
      (∀ x, (∃ c ∈ blocks, x ∈ c.points) ↔ start.toNat ≤ x ∧ x ≤ end_.toNat) ∧
      ∀ ds : List IpCidr, (∀ d ∈ ds, d.Aligned) →
        (∀ x, (∃ d ∈ ds, x ∈ d.points) ↔ start.toNat ≤ x ∧ x ≤ end_.toNat) →
        blocks.length ≤ ds.length := by
  obtain ⟨bs, hgreedy, hlist⟩ := exists_greedy hle (by omega)
  have hcanon := hgreedy.canonical
  have hlast : ∀ b ∈ bs, ∀ x ∈ b.points, x + 1 < 2 ^ 32 := by
    intro b hb x hx
    have := (hcanon.inside b hb hx).2
    omega
  have hblock := fun b hb => ofBlock_of_lt (hlast b hb)
  have hminimal : MinimalOn (bs.map IpCidr.ofBlock) start.toNat (end_.toNat + 1) :=
    minimalOn_of_canonical hcanon (List.length_map _) (exists_points_ofBlock hlast)
  refine ⟨bs.map IpCidr.ofBlock, fun fuel hfuel => ?_, fun c hc => ?_, ?_, fun x => ?_,
    fun ds hds hcover => hminimal.minimal ds hds fun x => ?_⟩
  · rw [ipRangeToCidrListFrom_eq, hlist fuel hfuel, Option.map_some, Nat.zero_add]
  · obtain ⟨b, hb, rfl⟩ := List.mem_map.mp hc
    exact (hblock b hb).1
  · rw [List.pairwise_map]
    refine hcanon.ordered.imp_of_mem fun {c d} hc hd hcd => ?_
    rw [(hblock c hc).2.2, (hblock d hd).2.1]
    exact hcd
  · rw [hminimal.covers, Nat.lt_succ_iff]
  · rw [hcover, Nat.lt_succ_iff]

theorem range_decomposition_ten : ∃ blocks : List IpCidr,
    ipRangeToCidrListFrom 7 [] 0 0x0a000001 0x0a000006 =
      some (blocks.map ipCidrToStr, blocks.length) ∧
    ∀ x, (∃ c ∈ blocks, x ∈ c.points) ↔ 0x0a000001 ≤ x ∧ x ≤ 0x0a000006 := by
  obtain ⟨blocks, hlist, -, -, hcovers, -⟩ :=
    range_decomposition [] (show (0x0a000001 : BitVec 32) ≤ 0x0a000006 by decide) (by decide)
  exact ⟨blocks, hlist 7 (by decide), hcovers⟩

end Greyd
