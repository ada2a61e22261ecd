import Greyd.Blacklist
import Greyd.TrieWalk

/-!
# Rejected entries

`Blacklist_add` stores an entry before its caller sees the return value. A rejected text
leaves the zero address under the zero mask, which answers every query of both families:
in an array all of them see it, in a trie those that join its walk. `Undisturbed` is the
condition on the list before the call under which no answer changes.
-/
namespace Greyd

open BitCells (firstDiff)
open Trie (keyBit Joins Rooted side walk land)

/-- The blacklists that `Blacklist_create` and calls of `Blacklist_add` lead to. -/
inductive AddReachable : Blacklist → Prop
  | create (name message : CStr) (flags : BlStorage) :
      AddReachable (blacklistCreate name message flags)
  | add {b b' : Blacklist} {address : CStr} {ret : Int} (hb : AddReachable b)
      (h : blacklistAdd b address = some (b', ret)) : AddReachable b'

theorem blacklistAdd_trie {b b' : Blacklist} {address : CStr} {ret : Int} (ht : b.type = .trie)
    (h : blacklistAdd b address = some (b', ret)) :
    ret = (ipStrToAddrMask address afUnspec).ret ∧ b'.type = .trie ∧
      b.trie.insert cmpTrieEntry ⟨(ipStrToAddrMask address afUnspec).af,
        (ipStrToAddrMask address afUnspec).n, (ipStrToAddrMask address afUnspec).m⟩ =
        some b'.trie := by
  simp only [blacklistAdd, ht, Option.map_eq_some_iff] at h
  obtain ⟨trie, hins, heq⟩ := h
  obtain ⟨rfl, rfl⟩ := Prod.mk.inj heq
  exact ⟨rfl, rfl, hins⟩

theorem blacklistAdd_list {b b' : Blacklist} {address : CStr} {ret : Int} (ht : b.type = .list)
    (h : blacklistAdd b address = some (b', ret)) :
    ret = (ipStrToAddrMask address afUnspec).ret ∧ b'.type = .list ∧
      b'.entries = (growEntries b).entries ++ [⟨(ipStrToAddrMask address afUnspec).n,
        (ipStrToAddrMask address afUnspec).m, 0, 0⟩] := by
  simp only [blacklistAdd, ht, Option.map_eq_some_iff] at h
  obtain ⟨l, hstore, heq⟩ := h
  obtain ⟨rfl, rfl⟩ := Prod.mk.inj heq
  obtain ⟨htype, hentries⟩ := Blacklist.store_eq_some hstore
  exact ⟨rfl, htype.trans ((growEntries_type b).trans ht), hentries⟩

/-- Every reachable trie hangs from a root without a key. -/
theorem AddReachable.rooted {b : Blacklist} (hb : AddReachable b) (ht : b.type = .trie) :
    ∃ kid0 kid1, Rooted b.trie kid0 kid1 := by
  induction hb with
  | create name message flags =>
    cases flags with
    | list => exact absurd ht (by simp [blacklistCreate])
    | trie => exact ⟨.null, .null, rfl, trivial, trivial⟩
  | @add b b' address ret _ h ih =>
    cases hty : b.type with
    | list => exact absurd ht (by rw [(blacklistAdd_list hty h).2.1]; simp)
    | trie =>
      obtain ⟨kid0, kid1, hroot⟩ := ih hty
      obtain ⟨-, -, hins⟩ := blacklistAdd_trie hty h
      exact (Trie.insert_spec cmpTrieEntry hroot (by simp) hins).choose_spec.2.1

/-- What a rejected text adds. -/
def rejectedEntry (af : SaFamily) : BlacklistTrieEntry := ⟨af, .zero, .zero⟩

/-- The query that `Blacklist_match` builds. -/
def matchEntry (source : IpAddr) (af : SaFamily) : BlacklistTrieEntry := ⟨af, source, .zero⟩

def IpFamily (af : SaFamily) : Prop := af = afInet ∨ af = afInet6

/-- The zero address under the zero mask answers both families. -/
theorem rejected_answers {source : IpAddr} {af : SaFamily} (haf : IpFamily af) :
    ipMatchAddr .zero .zero source af = 1 := by
  rcases haf with rfl | rfl <;> simp [ipMatchAddr, IpAddr.zero, afInet, afInet6]

theorem ipMatchAddr_other {a m b : IpAddr} {af : SaFamily} (haf : ¬ IpFamily af) :
    ipMatchAddr a m b af = 0 := by
  simp only [IpFamily, not_or] at haf
  simp [ipMatchAddr, haf.1, haf.2]

theorem blacklistMatch_trie {b : Blacklist} (ht : b.type = .trie) (source : IpAddr) (af : SaFamily) :
    blacklistMatch b source af = b.trie.contains cmpTrieEntry (matchEntry source af) := by
  rw [blacklistMatch, ht]
  rfl

theorem contains_other {t : Trie BlacklistTrieEntry} {source : IpAddr} {af : SaFamily}
    (haf : ¬ IpFamily af) : t.contains cmpTrieEntry (matchEntry source af) = false := by
  have hcmp : ∀ k, cmpTrieEntry k (matchEntry source af) ≠ 0 := by
    intro k h
    rw [cmpTrieEntry_eq_zero] at h
    simp [matchEntry, ipMatchAddr_other haf] at h
  induction t with
  | null => rfl
  | node nkey branch kid0 kid1 ih0 ih1 =>
    rw [Trie.contains.eq_def]
    simp only
    split_ifs
    · cases nkey with
      | none => rfl
      | some k => simpa using hcmp k
    · rfl
    · exact ih1
    · exact ih0

/-- The leaf at the end of the rejected key's walk still answers as before. Where it is
split, the rejected key takes over the queries that carry its bit at the split; where it
holds the very same key, the split leaves a node that answers nothing. -/
def Spared (old rejected q : BlacklistTrieEntry) : Prop :=
  match firstDiff keyBit 288 old rejected with
  | some i => keyBit q i = keyBit rejected i → cmpTrieEntry old q = 0
  | none => cmpTrieEntry old q ≠ 0

/-- No query sees the entry that a rejected text with this family is about to add. -/
def Undisturbed (b : Blacklist) (af : SaFamily) : Prop :=
  match b.type, b.trie with
  | .list, _ => ∀ source fam, IpFamily fam → blacklistMatch b source fam = true
  | .trie, .null => True
  | .trie, .node _ _ kid0 kid1 =>
    match (walk (rejectedEntry af) (side (rejectedEntry af) kid0 kid1)).2 with
    | .node (some old) _ _ _ => cmpTrieEntry old (rejectedEntry af) = 0 ∨
        ∀ source fam, IpFamily fam → Joins (rejectedEntry af) (matchEntry source fam) kid0 kid1 →
          Spared old (rejectedEntry af) (matchEntry source fam)
    | _ => ∀ source fam, IpFamily fam →
        ¬ Joins (rejectedEntry af) (matchEntry source fam) kid0 kid1

theorem cmp_rejected {af fam : SaFamily} {source : IpAddr} (hfam : IpFamily fam) :
    cmpTrieEntry (rejectedEntry af) (matchEntry source fam) = 0 :=
  cmpTrieEntry_eq_zero.mpr (by simp [rejectedEntry, matchEntry, rejected_answers hfam])

/-- A split leaf answers one query as the leaf did. -/
theorem split_spared_iff {old : BlacklistTrieEntry} {branch : Nat} {af fam : SaFamily}
    {source : IpAddr} (hfam : IpFamily fam) :
    (Trie.split old (rejectedEntry af)).contains cmpTrieEntry (matchEntry source fam) =
        (Trie.node (some old) branch .null .null).contains cmpTrieEntry (matchEntry source fam) ↔
      Spared old (rejectedEntry af) (matchEntry source fam) := by
  have hleaf : (Trie.node (some old) branch .null .null).contains cmpTrieEntry
      (matchEntry source fam) = decide (cmpTrieEntry old (matchEntry source fam) = 0) := by
    simp [Trie.contains, Trie.isLeaf]
  rw [hleaf, Spared]
  cases hf : firstDiff keyBit 288 old (rejectedEntry af) with
  | none =>
    rw [Trie.contains_split_self cmpTrieEntry (by simp) (by simpa using hf)]
    simp
  | some i =>
    rw [Trie.contains_split cmpTrieEntry (by simp) (by simpa using hf)]
    by_cases hi : keyBit (matchEntry source fam) i = keyBit (rejectedEntry af) i
    · simp [hi, cmp_rejected hfam]
    · simp [hi]

private theorem trie_unchanged_iff {b b' : Blacklist} (hb : AddReachable b) (ht : b.type = .trie)
    {af : SaFamily} (htype : b'.type = .trie)
    (hins : b.trie.insert cmpTrieEntry (rejectedEntry af) = some b'.trie) :
    (∀ source fam, blacklistMatch b' source fam = blacklistMatch b source fam) ↔
      Undisturbed b af := by
  obtain ⟨kid0, kid1, hroot⟩ := hb.rooted ht
  obtain ⟨new, hland, -, hseen⟩ := Trie.insert_spec cmpTrieEntry hroot (by simp) hins
  have hjoined : (∀ source fam, blacklistMatch b' source fam = blacklistMatch b source fam) ↔
      ∀ source fam, IpFamily fam → Joins (rejectedEntry af) (matchEntry source fam) kid0 kid1 →
        new.contains cmpTrieEntry (matchEntry source fam) =
          (walk (rejectedEntry af) (side (rejectedEntry af) kid0 kid1)).2.contains cmpTrieEntry
            (matchEntry source fam) := by
    refine forall_congr' fun source => forall_congr' fun fam => ?_
    rw [blacklistMatch_trie ht, blacklistMatch_trie htype]
    by_cases hfam : IpFamily fam
    case neg => simp [hfam, contains_other hfam]
    have hs := hseen (matchEntry source fam) (by simp)
    by_cases hj : Joins (rejectedEntry af) (matchEntry source fam) kid0 kid1
    · have hside : side (matchEntry source fam) kid0 kid1 = side (rejectedEntry af) kid0 kid1 := by
        rw [side, side, hj.1]
      rw [if_pos hj] at hs
      have hold := Trie.contains_of_follows cmpTrieEntry (by simp) hj.2
      rw [← hside, ← Trie.contains_root cmpTrieEntry (by simp), ← hroot.root, hside] at hold
      simp only [hfam, hj, forall_const]
      rw [← hs, ← hold]
    · simpa [hfam, hj] using hs
  rw [hjoined, Undisturbed, ht, hroot.root]
  simp only
  have hkeys := Trie.keysAtLeaves_walk (rejectedEntry af) (t := side (rejectedEntry af) kid0 kid1)
    (by rw [side]; split; exacts [hroot.keys1, hroot.keys0])
  revert hland hkeys
  generalize (walk (rejectedEntry af) (side (rejectedEntry af) kid0 kid1)).2 = stop
  rcases stop with _ | ⟨_ | old, branch, k0, k1⟩
  · rintro hland -
    obtain rfl := Option.some.inj hland
    refine forall_congr' fun source => forall_congr' fun fam => imp_congr_right fun hfam => ?_
    simp [Trie.create, Trie.contains, Trie.isLeaf, cmp_rejected hfam]
  · simp [land]
  · intro hland hkeys
    have hnull : k0 = .null ∧ k1 = .null := by
      have := hkeys.1 rfl
      cases k0 <;> cases k1 <;> simp_all [Trie.isLeaf]
    obtain ⟨rfl, rfl⟩ := hnull
    simp only [land] at hland
    by_cases hcmp : cmpTrieEntry old (rejectedEntry af) = 0
    · rw [if_pos hcmp] at hland
      simp [hcmp, Option.some.inj hland]
    · rw [if_neg hcmp] at hland
      simp only [hcmp, false_or, ← Option.some.inj hland]
      exact forall_congr' fun source => forall_congr' fun fam => imp_congr_right fun hfam =>
        imp_congr_right fun _ => split_spared_iff hfam

/-- A call that returns -1 leaves every answer as it was exactly when the list was
undisturbed by the entry it adds all the same. -/
theorem rejected_unchanged_iff {b b' : Blacklist} {address : CStr} (hb : AddReachable b)
    (h : blacklistAdd b address = some (b', -1)) :
    (∀ source af, blacklistMatch b' source af = blacklistMatch b source af) ↔
      Undisturbed b (ipStrToAddrMask address afUnspec).af := by
  have hzero : (ipStrToAddrMask address afUnspec).ret = -1 →
      (ipStrToAddrMask address afUnspec).n = .zero ∧ (ipStrToAddrMask address afUnspec).m = .zero :=
    fun hret => ipStrToAddrMask_rejected (by simp [hret])
  cases ht : b.type with
  | trie =>
    obtain ⟨hret, htype, hins⟩ := blacklistAdd_trie ht h
    obtain ⟨hn, hm⟩ := hzero hret.symm
    rw [hn, hm] at hins
    exact trie_unchanged_iff hb ht htype hins
  | list =>
    obtain ⟨hret, htype, hentries⟩ := blacklistAdd_list ht h
    obtain ⟨hn, hm⟩ := hzero hret.symm
    have hafter : ∀ source fam, IpFamily fam → blacklistMatch b' source fam = true := by
      intro source fam hfam
      simp [blacklistMatch, htype, hentries, hn, hm, rejected_answers hfam]
    have hother : ∀ l : Blacklist, l.type = .list → ∀ source fam, ¬ IpFamily fam →
        blacklistMatch l source fam = false := by
      intro l hl source fam hfam
      simp [blacklistMatch, hl, ipMatchAddr_other hfam]
    simp only [Undisturbed, ht]
    constructor
    · intro hsame source fam hfam
      rw [← hsame, hafter source fam hfam]
    · intro hall source fam
      by_cases hfam : IpFamily fam
      · rw [hafter source fam hfam, hall source fam hfam]
      · rw [hother b' htype source fam hfam, hother b ht source fam hfam]

private def permittedProxies : Blacklist :=
  blacklistCreate "permitted-proxies".toList "permitted upstream proxies".toList .list

private theorem add_localhost :
    ∃ b', blacklistAdd permittedProxies "localhost".toList = some (b', -1) ∧
      blacklistMatch b' (addrOfBytes [192, 0, 2, 1]) afInet = true := by
  have h : (blacklistAdd permittedProxies "localhost".toList).map
      (fun r => (r.2, blacklistMatch r.1 (addrOfBytes [192, 0, 2, 1]) afInet)) =
      some (-1, true) := by decide +kernel
  obtain ⟨⟨b', ret⟩, hadd, hr⟩ := Option.map_eq_some_iff.mp h
  obtain ⟨rfl, hm⟩ := Prod.mk.inj hr
  exact ⟨b', hadd, hm⟩

/-- A host name among the permitted proxies, for instance, disturbs an empty list. -/
theorem rejected_hostname :
    ∃ b', blacklistAdd permittedProxies "localhost".toList = some (b', -1) ∧
      ((∀ source af, blacklistMatch b' source af = blacklistMatch permittedProxies source af) ↔
        Undisturbed permittedProxies (ipStrToAddrMask "localhost".toList afUnspec).af) := by
  obtain ⟨b', hadd, -⟩ := add_localhost
  exact ⟨b', hadd, rejected_unchanged_iff (.create _ _ _) hadd⟩

/-- From then on every address is a permitted proxy. -/
theorem rejected_permits_everyone :
    ¬ ∀ b b' address, AddReachable b → blacklistAdd b address = some (b', -1) →
      ∀ source af, blacklistMatch b' source af = blacklistMatch b source af := by
  intro h
  obtain ⟨b', hadd, hm⟩ := add_localhost
  have hsame := h _ b' _ (.create _ _ _) hadd (addrOfBytes [192, 0, 2, 1]) afInet
  have hbefore : blacklistMatch permittedProxies (addrOfBytes [192, 0, 2, 1]) afInet = false := by
    decide +kernel
  rw [hm] at hsame
  exact absurd (hsame.trans hbefore) (by decide)

end Greyd
