import Greyd.ConStutter
import Greyd.FeedClients
import Greyd.ListedClients

/-!
# Trapped clients (grey.c, greyd.c, con.c)

A scan sends the trapped addresses to the daemon, which looks a client up among them when it
connects. The keys of single addresses differ in their families or addresses, so the masks of
the keys, which a lookup lacks, never decide its way through the trie.
-/
namespace Greyd

open BitCells (Cell firstDiff)
open Trie (keyBit)

/-! ## Single addresses in a trie -/

section Hosts

variable {e k : BlacklistTrieEntry} {i : Nat} {cidrs : List Cidr} {cells : List (Cell BlacklistTrieEntry)}

/-- Bits of the family and the address. -/
theorem keyBit_front (haf : e.af = k.af) (haddr : e.address = k.address) (hi : i < 160) :
    keyBit e i = keyBit k i := by
  have hlen (a : IpAddr) : a.bytes.length = 16 := rfl
  rw [keyBit, keyBit, bytesBit_eq, bytesBit_eq]
  congr 1
  simp only [KeyBytes.bytes, haf, haddr]
  rw [List.getD_append (_ ++ _) _ _ _ (by simp [hlen]; omega),
    List.getD_append (_ ++ _) _ _ _ (by simp [hlen]; omega)]

/-- Bits of the mask. -/
theorem keyBit_mask (hmask : e.mask = k.mask) (hi : 160 ≤ i) : keyBit e i = keyBit k i := by
  have hlen (a : IpAddr) : a.bytes.length = 16 := rfl
  rw [keyBit, keyBit, bytesBit_eq, bytesBit_eq]
  congr 1
  simp only [KeyBytes.bytes, hmask]
  rw [List.getD_append_right _ _ _ _ (by simp [hlen]; omega),
    List.getD_append_right _ _ _ _ (by simp [hlen]; omega)]
  simp [hlen]

theorem HostKey.mask_eq (he : HostKey e) (hk : HostKey k) (haf : e.af = k.af) : e.mask = k.mask := by
  rcases he with ⟨he, hmask, -⟩ | ⟨he, hmask⟩ <;> rcases hk with ⟨hk, hmask', -⟩ | ⟨hk, hmask'⟩
  · rw [hmask, hmask']
  · exact absurd (he.symm.trans (haf.trans hk)) (by decide)
  · exact absurd (he.symm.trans (haf.trans hk)) (by decide)
  · rw [hmask, hmask']

/-- The first difference of two addresses is not one of their masks. -/
theorem HostKey.firstDiff_lt (he : HostKey e) (hk : HostKey k)
    (h : firstDiff keyBit 288 e k = some i) : i < 160 := by
  by_contra hlate
  obtain ⟨-, hdiff, hbefore⟩ := BitCells.firstDiff_some h
  -- a key with the front of the one and the mask of the other is the other
  have hsame : (⟨k.af, k.address, e.mask⟩ : BlacklistTrieEntry) = e := by
    refine entry_eq_of_keyBit fun j hj => ?_
    by_cases hfront : j < 160
    · rw [hbefore j (by omega)]
      exact keyBit_front rfl rfl hfront
    · exact keyBit_mask rfl (not_lt.mp hfront)
  have haf : e.af = k.af := (congrArg BlacklistTrieEntry.af hsame).symm
  exact hdiff (keyBit_mask (he.mask_eq hk haf) (not_lt.mp hlate))

/-- Cells of single addresses. -/
structure HostCells (cells : List (Cell BlacklistTrieEntry)) : Prop where
  key : ∀ c ∈ cells, HostKey c.key
  tested : ∀ c ∈ cells, ∀ i ∈ c.tested, i < 160

theorem HostCells.place {c : Cidr} (h : HostCells cells) (hc : HostKey c.entry) :
    HostCells (placeEntry cells c) := by
  refine ⟨fun c' hc' => ?_, fun c' hc' => ?_⟩
  · rcases BitCells.mem_place hc' with hold | rfl | ⟨d, hd, -, i, -, hcut⟩
    · exact h.key c' hold
    · exact hc
    · rcases (BitCells.mem_cut.mp hcut).2 with hkey | hkey
      · exact hkey ▸ h.key d hd
      · exact hkey ▸ hc
  · rcases BitCells.mem_place hc' with hold | rfl | ⟨d, hd, -, i, hi, hcut⟩
    · exact h.tested c' hold
    · intro j hj
      rw [List.mem_singleton.mp hj]
      decide
    · intro j hj
      rw [(BitCells.mem_cut.mp hcut).1] at hj
      rcases List.mem_append.mp hj with hj | hj
      · exact h.tested d hd j hj
      · rw [List.mem_singleton.mp hj]
        exact (h.key d hd).firstDiff_lt hc hi

theorem HostCells.foldl (h : HostCells cells) (hc : ∀ c ∈ cidrs, HostKey c.entry) :
    HostCells (cidrs.foldl placeEntry cells) := by
  induction cidrs generalizing cells with
  | nil => exact h
  | cons c cidrs ih =>
    exact ih (h.place (hc c List.mem_cons_self)) fun d hd => hc d (List.mem_cons_of_mem _ hd)

end Hosts

/-! ## From a scan to the clients -/

section Clients

variable {g : Greylister} {names : ScanNames} {first p next : Published} {t : GreyTick}
  {ts : List GreyTick} {lists : ScanLists} {ip : CStr} {src : Sockaddr} {env : ConEnv}
  {state : GreydState}

end Clients

end Greyd
