import Greyd.BlacklistRuns
import Greyd.RejectedEntry

/-!
# Additions of arbitrary strings to a trie

A string from which no block can be scanned is stored under a key without a family. Such a
key matches nothing, itself included, so the second one splits the leaf of the first where no
bit differs.
-/
namespace Greyd

open BitCells (Cell place firstDiff)
open Trie (keyBit)

/-! ## Nodes that the walk stops at -/

namespace Trie

variable {κ : Type}

/-- Every internal node branches on a bit below `width`. -/
def BranchesBelow (width : Nat) : Trie κ → Prop
  | null => True
  | node _ branch kid0 kid1 =>
    (isLeaf kid0 kid1 = false → branch < width) ∧ BranchesBelow width kid0 ∧ BranchesBelow width kid1

variable [KeyBytes κ]

theorem Full.branchesBelow {width : Nat} {t : Trie κ} (h : Full width t) : BranchesBelow width t := by
  induction h with
  | leaf k branch => exact ⟨nofun, trivial, trivial⟩
  | branch hb _ _ _ _ ih0 ih1 => exact ⟨fun _ => hb, ih0, ih1⟩

theorem Realises.branchesBelow {width : Nat} {t : Trie κ} {cs : List (Cell κ)}
    (h : Realises width t cs) (hpos : 0 < width) : BranchesBelow width t := by
  have hside : ∀ {b : Bool} {kid : Trie κ}, Side width b kid → BranchesBelow width kid := by
    rintro b kid (rfl | ⟨hfull, -⟩)
    · trivial
    · exact hfull.branchesBelow
  obtain ⟨kid0, kid1, rfl, h0, h1⟩ := h.root
  exact ⟨fun _ => hpos, hside h0, hside h1⟩

/-- In a full subtree a key comes to the leaf whose cell it falls into. -/
theorem walk_full {key : κ} {t : Trie κ} (h : Full (kbits key) t) :
    ∃ c ∈ cells t, c.Agrees keyBit key ∧ ∃ branch, (walk key t).2 = node (some c.key) branch null null := by
  induction h with
  | leaf k branch => exact ⟨⟨k, []⟩, by simp [cells, isLeaf], by simp [Cell.Agrees], branch, rfl⟩
  | @branch branch kid0 kid1 hb h0 h1 hk0 hk1 ih0 ih1 =>
    have hleaf := isLeaf_of_ne_left (u := kid1) h0.ne_null
    have hstop : ¬ (isLeaf kid0 kid1 = true ∨ branch ≥ kbits key) := by
      rw [hleaf]
      exact not_or.mpr ⟨Bool.false_ne_true, Nat.not_le.mpr hb⟩
    rw [walk, if_neg hstop]
    cases hbit : keyBit key branch with
    | true =>
      obtain ⟨c, hc, hag, hend⟩ := ih1
      exact ⟨push branch c, (mem_cells_branch hleaf).mpr ⟨c, .inr hc, rfl⟩,
        push_agrees.mpr ⟨hbit.trans (hk1 c hc).symm, hag⟩, hend⟩
    | false =>
      obtain ⟨c, hc, hag, hend⟩ := ih0
      exact ⟨push branch c, (mem_cells_branch hleaf).mpr ⟨c, .inl hc, rfl⟩,
        push_agrees.mpr ⟨hbit.trans (hk0 c hc).symm, hag⟩, hend⟩

theorem BranchesBelow.of_graft {width : Nat} {key : κ} {new t : Trie κ}
    (h : BranchesBelow width (graft key new t)) : BranchesBelow width new := by
  induction t with
  | null => exact h
  | node nkey branch kid0 kid1 ih0 ih1 =>
    rw [graft] at h
    split_ifs at h
    · exact h
    · exact ih1 h.2.2
    · exact ih0 h.2.1

theorem not_branchesBelow_split {old key : κ} (h : firstDiff keyBit (kbits key) old key = none) :
    ¬ BranchesBelow (kbits key) (split old key) := by
  obtain ⟨key0, key1, hsplit⟩ := split_same h
  rw [hsplit]
  exact fun hbelow => absurd (hbelow.1 rfl) (Nat.lt_irrefl _)

/-- A key that is stored already, but does not match itself, leaves a node that branches
behind the last bit. -/
theorem Realises.insert_unmatched (cmp : κ → κ → Int) {key : κ} {t t' : Trie κ} {cs : List (Cell κ)}
    (h : Realises (kbits key) t cs) (hpos : 0 < kbits key) (hstored : ∃ c ∈ cs, c.key = key)
    (hself : cmp key key ≠ 0) (hins : Trie.insert cmp t key = some t') : ¬ BranchesBelow (kbits key) t' := by
  obtain ⟨d, hd, hkey⟩ := hstored
  obtain ⟨kid0, kid1, rfl, h0, h1⟩ := h.root
  obtain ⟨d', hside', rfl⟩ := cells_root.mp ((h.cells_iff d).mpr hd)
  have hsides : ∀ {b : Bool} {kid : Trie κ}, Side (kbits key) b kid →
      (∃ c, c ∈ cells kid ∧ c.key = key) → keyBit key 0 = b ∧ Full (kbits key) kid := by
    rintro b kid (rfl | ⟨hfull, hbits⟩) ⟨c, hc, rfl⟩
    · cases hc
    · exact ⟨hbits c hc, hfull⟩
  have hfull : Full (kbits key) (side key kid0 kid1) := by
    rcases hside' with hin | hin
    · obtain ⟨hbit, hfull⟩ := hsides h0 ⟨d', hin, hkey⟩
      rwa [side, hbit, if_neg Bool.false_ne_true]
    · obtain ⟨hbit, hfull⟩ := hsides h1 ⟨d', hin, hkey⟩
      rwa [side, hbit, if_pos rfl]
  -- the walk ends at the leaf of the same key
  obtain ⟨c, hc, hag, branch, hend⟩ := walk_full hfull
  have hckey : c.key = key := by
    have hin : push 0 c ∈ cs := by
      refine (h.cells_iff _).mp (cells_root.mpr ⟨c, ?_, rfl⟩)
      rw [side] at hc
      split at hc
      · exact .inr hc
      · exact .inl hc
    have hcag : (push 0 c).Agrees keyBit key := by
      refine push_agrees.mpr ⟨?_, hag⟩
      obtain hside0 | hside1 := Bool.eq_false_or_eq_true (keyBit key 0) |>.symm
      · rw [side, hside0, if_neg Bool.false_ne_true] at hc
        rw [hside0]
        exact (h0.bits c hc).symm
      · rw [side, hside1, if_pos rfl] at hc
        rw [hside1]
        exact (h1.bits c hc).symm
    have hdag : (push 0 d').Agrees keyBit key := fun i _ => by rw [hkey]
    have hsame := h.tiling.apart _ hin _ hd key hcag hdag
    exact (congrArg Cell.key hsame).trans hkey
  have hnone : firstDiff keyBit (kbits key) key key = none := by simp [firstDiff]
  rw [insert_root cmp hpos, hend, hckey, land, if_neg hself, Option.map_some, Option.some.injEq] at hins
  intro hbelow
  rw [← hins] at hbelow
  split_ifs at hbelow
  · exact not_branchesBelow_split hnone hbelow.2.2.of_graft
  · exact not_branchesBelow_split hnone hbelow.2.1.of_graft

end Trie

/-! ## Keys of arbitrary strings -/

/-- The key that `Blacklist_add` stores for a string. -/
def stringEntry (address : CStr) : BlacklistTrieEntry :=
  let parsed := ipStrToAddrMask address afUnspec
  ⟨parsed.af, parsed.n, parsed.m⟩

/-- The scan fails, or the number of bits is out of range: the family is not stored. -/
def unscanned (address : CStr) : Bool :=
  match scanCidr address with
  | none => true
  | some (_, maskbits) => maskbits = 0 ∨ maskbits > ipMaxMaskbits

theorem stringEntry_unscanned {address : CStr} (h : unscanned address = true) :
    stringEntry address = ⟨afUnspec, .zero, .zero⟩ := by
  unfold unscanned at h
  unfold stringEntry ipStrToAddrMask
  cases hscan : scanCidr address with
  | none => rfl
  | some r =>
    rw [hscan] at h
    dsimp only at h ⊢
    rw [if_pos (of_decide_eq_true h)]

theorem cmp_unspec (e key : BlacklistTrieEntry) (hkey : key.af = afUnspec) : cmpTrieEntry e key ≠ 0 := by
  rw [ne_eq, cmpTrieEntry_eq_zero, ipMatchAddr, hkey, if_neg (by decide), if_neg (by decide)]
  exact Nat.lt_irrefl 0

/-- A key with a family matches itself. -/
theorem cmp_stringEntry {address : CStr} (h : unscanned address = false) :
    cmpTrieEntry (stringEntry address) (stringEntry address) = 0 := by
  by_cases hret : (ipStrToAddrMask address afUnspec).ret = 0
  · exact Cidr.cmp_self ⟨address, hret⟩
  · obtain ⟨hn, hm⟩ := ipStrToAddrMask_rejected hret
    have haf : IpFamily (ipStrToAddrMask address afUnspec).af := by
      revert h
      unfold unscanned ipStrToAddrMask
      cases scanCidr address with
      | none => exact nofun
      | some r =>
        dsimp only
        intro h
        rw [if_neg (of_decide_eq_false h)]
        generalize hfam : (if ':' ∈ r.1 then afInet6 else afInet) = fam
        have hip : IpFamily fam := by
          rw [← hfam]
          split_ifs
          · exact .inr rfl
          · exact .inl rfl
        split_ifs
        · exact hip
        · cases inetPton fam r.1 <;> exact hip
    have hentry : stringEntry address = rejectedEntry (ipStrToAddrMask address afUnspec).af := by
      rw [stringEntry, hn, hm]
      rfl
    rw [hentry]
    exact cmp_rejected haf

/-! ## Sequences of additions -/

/-- The cells of the strings added so far. -/
def placeString (cells : List (Cell BlacklistTrieEntry)) (address : CStr) :
    List (Cell BlacklistTrieEntry) :=
  place keyBit (fun a b => cmpTrieEntry a b = 0) 288 cells (stringEntry address)

/-- The keys of the cells are those of strings that were added; the key without a family is
there once a string had none. -/
structure StringCells (done : List CStr) (cells : List (Cell BlacklistTrieEntry)) : Prop where
  key_mem : ∀ c ∈ cells, ∃ address ∈ done, c.key = stringEntry address
  unspec_mem : ∀ address ∈ done, unscanned address = true → ∃ c ∈ cells, c.key = rejectedEntry afUnspec

theorem stringEntry_af {address : CStr} (h : (stringEntry address).af = afUnspec) :
    unscanned address = true := by
  cases hun : unscanned address with
  | true => rfl
  | false => exact absurd (cmp_stringEntry hun) (cmp_unspec _ _ h)

/-- Keys that are told apart differ, unless the new one has no family and is there already. -/
theorem StringCells.firstDiff {done : List CStr} {cells : List (Cell BlacklistTrieEntry)}
    (h : StringCells done cells) {address : CStr}
    (hfirst : unscanned address = true → ∀ a ∈ done, unscanned a = false)
    {c : Cell BlacklistTrieEntry} (hc : c ∈ cells)
    (hcmp : cmpTrieEntry c.key (stringEntry address) ≠ 0) :
    ∃ i, BitCells.firstDiff keyBit 288 c.key (stringEntry address) = some i := by
  cases hdiff : BitCells.firstDiff keyBit 288 c.key (stringEntry address) with
  | some i => exact ⟨i, rfl⟩
  | none =>
    have hsame := entry_eq_of_keyBit (BitCells.firstDiff_none hdiff)
    obtain ⟨a, ha, hkey⟩ := h.key_mem c hc
    rw [hsame] at hcmp
    cases hun : unscanned address with
    | false => exact absurd (cmp_stringEntry hun) hcmp
    | true =>
      have haf : (stringEntry a).af = afUnspec := by
        rw [← hkey, hsame, stringEntry_unscanned hun]
      exact absurd (stringEntry_af haf) (by rw [hfirst hun a ha]; exact Bool.false_ne_true)

theorem StringCells.place {done : List CStr} {cells : List (Cell BlacklistTrieEntry)}
    (h : StringCells done cells) {address : CStr}
    (hfirst : unscanned address = true → ∀ a ∈ done, unscanned a = false) :
    StringCells (done ++ [address]) (placeString cells address) := by
  constructor
  · intro c' hc'
    have hold : ∀ c ∈ cells, ∃ a ∈ done ++ [address], c.key = stringEntry a := by
      intro c hc
      obtain ⟨a, ha, hkey⟩ := h.key_mem c hc
      exact ⟨a, List.mem_append_left _ ha, hkey⟩
    rcases BitCells.mem_place hc' with hc | rfl | ⟨c, hc, -, i, -, hcut⟩
    · exact hold c' hc
    · exact ⟨address, by simp, rfl⟩
    · rcases (BitCells.mem_cut.mp hcut).2 with hkey | hkey
      · rw [hkey]
        exact hold c hc
      · exact ⟨address, by simp, hkey⟩
  · intro a ha hun
    rcases List.mem_append.mp ha with ha | ha
    · exact BitCells.exists_key_place_of_mem (h.unspec_mem a ha hun) _
    · obtain rfl := List.mem_singleton.mp ha
      have hkey : stringEntry a = rejectedEntry afUnspec := stringEntry_unscanned hun
      rw [← hkey]
      refine (BitCells.exists_key_place (fun c _ hcov => ?_) (fun c hc hcov => ?_) _).mpr (.inr rfl)
      · exact absurd (of_decide_eq_true hcov) (cmp_unspec c.key _ (by rw [hkey]; rfl))
      · exact h.firstDiff hfirst hc (of_decide_eq_false hcov)

/-- As long as one string at most has no family, no addition reads a NULL key. -/
theorem addAll_strings {b : Blacklist} (hb : b.type = .trie) {done : List CStr}
    (addresses : List CStr) {cells : List (Cell BlacklistTrieEntry)}
    (ht : Trie.Realises 288 b.trie cells) (hc : StringCells done cells)
    (hcount : (done ++ addresses).countP unscanned ≤ 1) :
    ∃ t cells', blacklistAddAll b addresses = some t ∧ t.type = .trie ∧
      Trie.Realises 288 t.trie cells' ∧ StringCells (done ++ addresses) cells' := by
  induction addresses generalizing b done cells with
  | nil => exact ⟨b, cells, rfl, hb, ht, by rwa [List.append_nil]⟩
  | cons address rest ih =>
    have hfirst : unscanned address = true → ∀ a ∈ done, unscanned a = false := by
      intro hun a ha
      rw [List.countP_append, List.countP_cons_of_pos hun] at hcount
      have hzero : done.countP unscanned = 0 := by omega
      exact Bool.eq_false_iff.mpr (List.countP_eq_zero.mp hzero a ha)
    obtain ⟨trie, hins, hreal⟩ := ht.insert cmpTrieEntry (kbits_trieEntry (stringEntry address))
      (by decide) fun c hc' hne => hc.firstDiff hfirst hc' hne
    have hadd : blacklistAdd b address =
        some ({ b with count := b.count + 1, trie := trie }, (ipStrToAddrMask address afUnspec).ret) := by
      simp only [stringEntry] at hins
      simp [blacklistAdd, hb, hins]
    rw [List.append_cons] at hcount ⊢
    obtain ⟨t, cells', hall, ht'⟩ :=
      @ih { b with count := b.count + 1, trie := trie } hb (done ++ [address]) _ hreal (hc.place hfirst) hcount
    refine ⟨t, cells', ?_, ht'⟩
    rw [blacklistAddAll, hadd]
    exact hall

theorem blacklistAddAll_append (b : Blacklist) (xs ys : List CStr) :
    blacklistAddAll b (xs ++ ys) = (blacklistAddAll b xs).bind fun b => blacklistAddAll b ys := by
  induction xs generalizing b with
  | nil => rfl
  | cons x xs ih => simp [blacklistAddAll, ih, Option.bind_assoc]

/-- The second string without a family is added without a fault, and leaves a node that
branches behind the last bit. -/
theorem addAll_unscanned_twice {b b' : Blacklist} (hb : b.type = .trie) {done : List CStr}
    {cells : List (Cell BlacklistTrieEntry)} (ht : Trie.Realises 288 b.trie cells)
    (hc : StringCells done cells) (hseen : ∃ a ∈ done, unscanned a = true) {address : CStr}
    (hun : unscanned address = true) (hadd : blacklistAddAll b [address] = some b') :
    ¬ b'.trie.BranchesBelow 288 := by
  obtain ⟨a, ha, hseen⟩ := hseen
  have hkey : stringEntry address = rejectedEntry afUnspec := stringEntry_unscanned hun
  have hbits : Trie.kbits (stringEntry address) = 288 := kbits_trieEntry _
  rw [blacklistAddAll, blacklistAdd, hb] at hadd
  obtain ⟨r, hr, hnil⟩ := Option.bind_eq_some_iff.mp hadd
  obtain ⟨trie, hins, rfl⟩ := Option.map_eq_some_iff.mp hr
  obtain rfl := Option.some.inj hnil
  rw [← hbits] at ht ⊢
  refine ht.insert_unmatched cmpTrieEntry (by rw [hbits]; decide) ?_ ?_ hins
  · rw [hkey]
    exact hc.unspec_mem a ha hseen
  · exact cmp_unspec _ _ (by rw [hkey]; rfl)

/-- Every initial part of a sequence of strings is added without reading a NULL key, and its
internal nodes branch on bits of the key, exactly when at most one of the strings has no scan
of an address and a number of bits up to 128. -/
theorem trie_safe_iff (name message : CStr) (addresses : List CStr) :
    (∀ done, done <+: addresses → ∃ b, blacklistAddAll (blacklistCreate name message .trie) done =
        some b ∧ b.trie.BranchesBelow 288) ↔
      addresses.countP unscanned ≤ 1 := by
  have hfew : ∀ done : List CStr, done.countP unscanned ≤ 1 → ∃ b cells,
      blacklistAddAll (blacklistCreate name message .trie) done = some b ∧ b.type = .trie ∧
        Trie.Realises 288 b.trie cells ∧ StringCells done cells := by
    intro done hcount
    have hnew : StringCells [] [] := ⟨by simp, by simp⟩
    exact addAll_strings rfl done (Trie.realises_create 288) hnew hcount
  constructor
  · intro h
    induction addresses using List.reverseRecOn with
    | nil => exact Nat.zero_le _
    | append_singleton done address ih =>
      have hcount := ih fun d hd => h d (hd.trans (List.prefix_append _ _))
      by_contra hmore
      obtain ⟨b, cells, hall, htype, hreal, hcells⟩ := hfew done hcount
      obtain ⟨b', hall', hbelow⟩ := h (done ++ [address]) (List.prefix_refl _)
      have hun : unscanned address = true := by
        by_contra hscan
        rw [List.countP_append, List.countP_singleton, if_neg hscan] at hmore
        exact hmore hcount
      have hseen : ∃ a ∈ done, unscanned a = true := by
        rw [← List.countP_pos_iff]
        rw [List.countP_append, List.countP_singleton, if_pos hun] at hmore
        omega
      have hstep : blacklistAddAll b [address] = some b' := by
        rw [blacklistAddAll_append, hall] at hall'
        exact hall'
      exact addAll_unscanned_twice htype hreal hcells hseen hun hstep hbelow
  · intro hcount done hdone
    obtain ⟨b, cells, hall, -, hreal, -⟩ := hfew done ((hdone.sublist.countP_le).trans hcount)
    exact ⟨b, hall, hreal.branchesBelow (by decide)⟩

/-- A name in the place of an address, three times: the second addition splits a leaf behind
the last bit, the third reads the NULL key of that node. -/
theorem names_break_trie :
    (∀ b, blacklistAddAll (blacklistCreate [] [] .trie) ["x".toList, "x".toList] = some b →
        ¬ b.trie.BranchesBelow 288) ∧
      blacklistAddAll (blacklistCreate [] [] .trie) ["x".toList, "x".toList, "x".toList] = none := by
  refine ⟨fun b hb => ?_, by decide +kernel⟩
  have htrie : (blacklistAddAll (blacklistCreate [] [] .trie) ["x".toList, "x".toList]).map (·.trie) =
      some (.node none 0 (.node none 288 (.create (some (rejectedEntry afUnspec)))
        (.create (some (rejectedEntry afUnspec)))) .null) := by decide +kernel
  rw [hb, Option.map_some, Option.some.injEq] at htrie
  rw [htrie]
  exact fun hbelow => absurd (hbelow.2.1.1 rfl) (by decide)

end Greyd
