import Greyd.CidrReaders
import Greyd.ConRuns
import Greyd.ConSteps
import Greyd.HashRuns
import Greyd.PublishedLists
import Greyd.SetupLists
import Greyd.TrieMembership

/-!
# From the feeds to the clients (main_greyd_setup.c, greyd.c, con.c)

A run of greyd-setup sends the daemon its blacklists, over a connection each. In the daemon a
new list takes the place of the one of its name, and the address of a client is looked up in
all of them when it connects. An empty list is not sent, so the one before it stays.
-/
namespace Greyd

open BitCells (InNet Safe)
open Trie (keyBit)

/-- A run of greyd-setup to its end that sends what it prepares. -/
structure SetupRun where
  env : SetupEnv
  flags : SetupFlags
  lists : List ConfigValue
  out : SetupOutput
  sends : flags.dryrun = false
  ran : setup env flags lists = some out

def SetupRun.preparations (r : SetupRun) : List Preparation :=
  Greyd.preparations (listItems r.env 0 r.lists)

/-- The blacklist that a message makes. -/
def ListConfig.installed (c : ListConfig) : Option Blacklist :=
  blacklistAddAll (blacklistCreate c.name c.message .trie) c.ips

/-- The address of a client, in host order. -/
def Sockaddr.host (src : Sockaddr) : Nat := (htonl src.addr.w0).toNat

/-- No cell of the trie loses addresses of one of the blocks. -/
def ListConfig.Kept (c : ListConfig) : Prop :=
  ∃ cidrs : List Ipv4Cidr, cidrs.map (·.text) = c.ips ∧
    ∀ e ∈ cidrs, ∀ cell ∈ kept cidrs, Safe fixes keyBit e.entry cell

/-! ## What is sent -/

/-- The message for a blacklist has the blocks of what the blacklist lists. -/
structure Preparation.SentAs (p : Preparation) (c : ListConfig) : Prop where
  name : c.name = p.name
  message : c.message = p.message
  blocks : ∃ cidrs : List IpCidr, c.ips = cidrs.map ipCidrToStr ∧ (∀ d ∈ cidrs, d.Aligned) ∧
    ∀ x, (∃ d ∈ cidrs, x ∈ d.points) ↔ x ∈ callsListed p.calls

section Sent

variable {env : SetupEnv} {flags : SetupFlags} {p : Preparation} {out out' : SetupOutput}

theorem prepare_sends (hdry : flags.dryrun = false) {finalList : Bool}
    (h : prepare env flags finalList p out = some out') :
    ∃ c, p.SentAs c ∧ out'.sent = out.sent ++ [c] := by
  obtain ⟨b, hb, hsend⟩ := Option.bind_eq_some_iff.mp h
  obtain ⟨hname, hmessage⟩ : b.name = p.name ∧ b.message = p.message := addCalls_name hb
  rw [sendCurrent, hdry, if_neg Bool.false_ne_true] at hsend
  obtain ⟨⟨b', ips⟩, hcollapse, hout⟩ := Option.bind_eq_some_iff.mp hsend
  have hsent : out'.sent = out.sent ++ [⟨b.name, b.message, ips.getD []⟩] := by
    cases hgrey : flags.greyonly with
    | true =>
      rw [hgrey] at hout
      cases hout
      rfl
    | false =>
      rw [hgrey] at hout
      obtain ⟨ips', hips, hout'⟩ := Option.map_eq_some_iff.mp hout
      cases hips
      cases hout'
      rfl
  refine ⟨_, ⟨hname, hmessage, ?_⟩, hsent⟩
  rcases collapse_calls env.qsort hb with ⟨hnone, hcol⟩ | ⟨-, -, hcol⟩ |
    ⟨-, b'', cidrs, hcol, haligned, hpoints⟩
  · cases hcol.symm.trans hcollapse
    refine ⟨[], rfl, by simp, fun x => ⟨by simp, ?_⟩⟩
    rintro ⟨⟨c, hc, -, hcov⟩, -⟩
    have hmem := List.mem_filter.mpr ⟨hc, hcov.kept⟩
    rw [hnone] at hmem
    cases hmem
  · rw [hcol] at hcollapse
    cases hcollapse
  · cases hcol.symm.trans hcollapse
    exact ⟨cidrs, rfl, haligned, hpoints⟩

theorem prepareAll_sends (hdry : flags.dryrun = false) {ps : List Preparation}
    (h : prepareAll env flags ps out = some out') :
    ∃ sent, out'.sent = out.sent ++ sent ∧ List.Forall₂ Preparation.SentAs ps sent := by
  induction ps generalizing out with
  | nil =>
    cases h
    exact ⟨[], (List.append_nil _).symm, .nil⟩
  | cons p ps ih =>
    obtain ⟨out₁, hprep, hrest⟩ := Option.bind_eq_some_iff.mp h
    obtain ⟨c, hc, hfirst⟩ := prepare_sends hdry hprep
    obtain ⟨sent, hsent, hall⟩ := ih hrest
    exact ⟨c :: sent, by rw [hsent, hfirst, List.append_assoc, List.singleton_append], .cons hc hall⟩

theorem SetupRun.sent (r : SetupRun) : List.Forall₂ Preparation.SentAs r.preparations r.out.sent := by
  obtain ⟨sent, hsent, hall⟩ := prepareAll_sends r.sends ((setup_eq r.lists).symm.trans r.ran)
  rw [hsent, List.nil_append]
  exact hall

end Sent

/-! ## Blocks in a trie -/

section Block

variable {c : IpCidr}

/-- The text of a block is one address behind the other reader, and its mask. -/
theorem ipStrToAddrMask_block (hpos : 1 ≤ c.bits) (hle : c.bits ≤ 32) :
    ipStrToAddrMask (ipCidrToStr c) afUnspec =
      ⟨0, (addrOfBytes (octets c.addr.toNat)).and (maskOf c.bits), maskOf c.bits, afInet⟩ := by
  rw [ipCidrToStr, inetNtoa_htonl]
  exact ipStrToAddrMask_printed4 afUnspec (inetPton4_octets _) hpos hle

def IpCidr.ipv4 (c : IpCidr) (hpos : 1 ≤ c.bits) (hle : c.bits ≤ 32) : Ipv4Cidr where
  text := ipCidrToStr c
  accepted := by rw [ipStrToAddrMask_block hpos hle]
  inet := by rw [ipStrToAddrMask_block hpos hle]

theorem IpCidr.mem_points_iff (haligned : c.Aligned) {x : Nat} :
    x ∈ c.points ↔ x / 2 ^ (32 - c.bits) = c.addr.toNat / 2 ^ (32 - c.bits) := by
  obtain ⟨q, hq⟩ := haligned.2
  have hsize : 0 < 2 ^ (32 - c.bits) := Nat.two_pow_pos _
  rw [IpCidr.points, IpCidr.stop, Set.mem_Ico, hq, Nat.mul_div_cancel_left q hsize,
    Nat.div_eq_iff hsize, Nat.mul_comm q]
  omega

/-- The networks of the key of a block are its addresses. -/
theorem IpCidr.inNet_iff (haligned : c.Aligned) (hpos : 1 ≤ c.bits) (hle : c.bits ≤ 32)
    (source : IpAddr) : InNet fixes keyBit (c.ipv4 hpos hle).entry (query source) ↔
      (htonl source.w0).toNat ∈ c.points := by
  have hentry : (c.ipv4 hpos hle).entry =
      ⟨afInet, (addrOfBytes (octets c.addr.toNat)).and (maskOf c.bits), maskOf c.bits⟩ := by
    rw [Ipv4Cidr.entry, IpCidr.ipv4, ipStrToAddrMask_block hpos hle]
  have haddr : (c.ipv4 hpos hle).entry.address.w0 = htonl (c.addr &&& imask c.bits) := by
    rw [hentry, IpAddr.and, addrOfBytes_octets, maskOf_htonl hle, htonl_and]
  have hmask : (c.ipv4 hpos hle).entry.mask.w0 = htonl (imask c.bits) := by
    rw [hentry, maskOf_htonl hle]
  have hmasked : htonl (c.addr &&& imask c.bits) = source.w0 &&& htonl (imask c.bits) ↔
      htonl source.w0 &&& imask c.bits = c.addr &&& imask c.bits := by
    constructor
    · intro h
      refine htonl_inj ?_
      rw [htonl_and, htonl_htonl, h]
    · intro h
      rw [← h, htonl_and, htonl_htonl]
  rw [IpCidr.mem_points_iff haligned, ← and_imask_eq_iff _ _ hle, ← hmasked, ← haddr, ← hmask,
    ← cmpTrieEntry_iff _ rfl, cmpTrieEntry_eq_zero]
  show 0 < (if _ = source.w0 &&& _ then 1 else 0) ↔ _
  split_ifs with h <;> simp [h]

/-- What a trie holds of blocks that are added to it. -/
theorem trie_of_blocks (name message : CStr) (cidrs : List Ipv4Cidr) :
    ∃ t, blacklistAddAll (blacklistCreate name message .trie) (cidrs.map (·.text)) = some t ∧
      (∀ source, blacklistMatch t source afInet = true →
        ∃ e ∈ cidrs.map Ipv4Cidr.entry, InNet fixes keyBit e (query source)) ∧
      ((∀ source, (∃ e ∈ cidrs.map Ipv4Cidr.entry, InNet fixes keyBit e (query source)) →
          blacklistMatch t source afInet = true) ↔
        ∀ e ∈ cidrs, ∀ cell ∈ kept cidrs, Safe fixes keyBit e.entry cell) := by
  have htexts : cidrs.map (·.text) = (cidrs.map Ipv4Cidr.toCidr).map (·.text) := by
    rw [List.map_map]
    rfl
  obtain ⟨t, ht, htype, hreal, -⟩ := @addAll_trie (blacklistCreate name message .trie) rfl []
    (cidrs.map Ipv4Cidr.toCidr) [] (Trie.realises_create 288) (by simp [Keyed])
  rw [kept_eq] at hreal
  have hcells := ipv4Cells_kept cidrs
  have hmasked : ∀ c ∈ kept cidrs, c.key.address.w0 &&& c.key.mask.w0 = c.key.address.w0 := by
    intro c hc
    obtain ⟨d, -, hd⟩ := hcells.key_mem c hc
    obtain ⟨-, -, -, -, ha⟩ := d.entry_mask
    rw [hd, ha]
  refine ⟨t, htexts ▸ ht, fun source hmatch => ?_, ?_⟩
  · obtain ⟨cell, hcell, -, hin⟩ := (match_trie_iff htype hreal hmasked source).mp hmatch
    obtain ⟨d, hd, hkey⟩ := hcells.key_mem cell hcell
    exact ⟨d.entry, List.mem_map_of_mem hd, hkey ▸ hin⟩
  · rw [← covered_iff_safe hreal.tiling hcells]
    exact forall_congr' fun source => by rw [match_trie_iff htype hreal hmasked]

end Block

/-! ## What is installed -/

section Installed

variable {p : Preparation} {c : ListConfig}

theorem lt_of_mem_callsListed {calls : List AddCall} {x : Nat} (h : x ∈ callsListed calls) :
    x + 1 < 2 ^ 32 := by
  obtain ⟨⟨r, -, -, hcov⟩, -⟩ := h
  have hlt := r.1.2.isLt
  have hx := hcov.2
  omega

/-- The texts of a message are those of IPv4 blocks, which cover what the blacklist lists. -/
theorem Preparation.SentAs.ipv4 (h : p.SentAs c) : ∃ cidrs : List Ipv4Cidr,
    cidrs.map (·.text) = c.ips ∧ ∀ source : IpAddr,
      (∃ e ∈ cidrs.map Ipv4Cidr.entry, InNet fixes keyBit e (query source)) ↔
        (htonl source.w0).toNat ∈ callsListed p.calls := by
  obtain ⟨cidrs, hips, haligned, hpoints⟩ := h.blocks
  have hpos : ∀ d ∈ cidrs, 1 ≤ d.bits := by
    intro d hd
    by_contra hzero
    have hbits : d.bits = 0 := by omega
    have hstop : d.stop = d.addr.toNat + 2 ^ 32 := by rw [IpCidr.stop, hbits]
    have hlast : 2 ^ 32 - 1 + d.addr.toNat ∈ d.points := by
      constructor
      · exact Nat.le_add_left ..
      · rw [hstop]
        omega
    have hlt := lt_of_mem_callsListed ((hpoints _).mp ⟨d, hd, hlast⟩)
    omega
  refine ⟨cidrs.attach.map fun d => d.1.ipv4 (hpos d.1 d.2) (haligned d.1 d.2).1, ?_, fun source => ?_⟩
  · rw [List.map_map, hips]
    show cidrs.attach.map (fun d => ipCidrToStr d.1) = _
    rw [List.attach_map_val]
  · rw [← hpoints]
    constructor
    · rintro ⟨e, he, hin⟩
      obtain ⟨_, hd', rfl⟩ := List.mem_map.mp he
      obtain ⟨d, -, rfl⟩ := List.mem_map.mp hd'
      exact ⟨d.1, d.2, (IpCidr.inNet_iff (haligned d.1 d.2) (hpos d.1 d.2) _ source).mp hin⟩
    · rintro ⟨d, hd, hx⟩
      exact ⟨_, List.mem_map_of_mem (List.mem_map_of_mem (List.mem_attach _ ⟨d, hd⟩)),
        (IpCidr.inNet_iff (haligned d hd) (hpos d hd) _ source).mpr hx⟩

/-- The list that a message makes matches what the blacklist lists and nothing else, and all of
it exactly where no cell of the trie loses addresses. -/
theorem Preparation.SentAs.installed (h : p.SentAs c) : ∃ t, c.installed = some t ∧
    (∀ source, blacklistMatch t source afInet = true → (htonl source.w0).toNat ∈ callsListed p.calls) ∧
    ((∀ source : IpAddr, (htonl source.w0).toNat ∈ callsListed p.calls →
      blacklistMatch t source afInet = true) ↔ c.Kept) := by
  obtain ⟨cidrs, htexts, hcover⟩ := h.ipv4
  obtain ⟨t, ht, hsound, hsafe⟩ := trie_of_blocks c.name c.message cidrs
  rw [htexts] at ht
  refine ⟨t, ht, fun source hmatch => (hcover source).mp (hsound source hmatch), ?_⟩
  have hkept : c.Kept ↔ ∀ e ∈ cidrs, ∀ cell ∈ kept cidrs, Safe fixes keyBit e.entry cell := by
    constructor
    · intro ⟨cidrs', htexts', hkept⟩
      have hinj : Function.Injective Ipv4Cidr.text := by
        intro a b hab
        cases a
        cases b
        cases hab
        rfl
      rwa [List.map_injective_iff.mpr hinj (htexts'.trans htexts.symm)] at hkept
    · exact fun hall => ⟨cidrs, htexts, hall⟩
  rw [hkept, ← hsafe]
  exact forall_congr' fun source => by rw [hcover]

theorem quotableText_block {d : IpCidr} (hle : d.bits ≤ 32) : QuotableText (ipCidrToStr d) := by
  obtain ⟨hchars, hlen, -⟩ := inetPton4_shape (inetPton4_octets d.addr.toNat)
  have hbits : ∀ n : Fin 33, (decimal n).length ≤ 2 := by decide +kernel
  have hshort := hbits ⟨d.bits, Nat.lt_succ_of_le hle⟩
  rw [ipCidrToStr, inetNtoa_htonl]
  have hplain : ∀ ch ∈ dotted (octets d.addr.toNat) ++ '/' :: decimal d.bits,
      ch.isDigit = true ∨ ch = '.' ∨ ch = '/' := by
    intro ch hch
    rcases List.mem_append.mp hch with haddr | hmask
    · exact (hchars ch haddr).imp_right .inl
    · rcases List.mem_cons.mp hmask with hslash | hdigit
      · exact .inr (.inr hslash)
      · exact .inl (isDigit_of_mem_decimal hdigit)
  have hno : ∀ ch, ch.isDigit = false → ch ≠ '.' → ch ≠ '/' →
      ch ∉ dotted (octets d.addr.toNat) ++ '/' :: decimal d.bits := by
    intro ch hdigit hdot hslash hmem
    rcases hplain ch hmem with hd | hd | hd
    · rw [hdigit] at hd
      cases hd
    · exact hdot hd
    · exact hslash hd
  refine ⟨?_, hno _ rfl (by decide) (by decide), hno _ rfl (by decide) (by decide),
    hno _ rfl (by decide) (by decide)⟩
  rw [List.length_append, List.length_cons]
  simp only [lexerMaxStrLen]
  exact Nat.le_trans (Nat.add_le_add hlen (Nat.succ_le_succ hshort)) (by decide)

/-- The texts of a blacklist can be put between quotes, and its name is a key. -/
structure Preparation.Sendable (p : Preparation) : Prop where
  name : QuotableText p.name
  message : QuotableText p.message
  key : p.name.length ≤ maxKeyLen

/-- A message whose texts can be put between quotes, with blocks that are accepted, is read as
it was meant. -/
theorem daemonReads_sent {checkAddr : CStr → Option SaFamily} {name message : CStr} {ips : List CStr}
    (hname : QuotableText name) (hmessage : QuotableText message) (hne : ips ≠ [])
    (hquotable : ∀ ip ∈ ips, QuotableText (sentAddress checkAddr ip))
    (haccepted : ∀ ip ∈ ips, (ipStrToAddrMask (sentAddress checkAddr ip) afUnspec).ret = 0)
    (blacklists : Hash Blacklist) :
    daemonReads (greydSendConfig checkAddr name message ips) blacklists =
      (blacklistAddAll (blacklistCreate name message .trie) (ips.map (sentAddress checkAddr))).map
        (hashInsert blacklists name) := by
  obtain ⟨strs, hstrs⟩ := exists_quotedStrs (List.forall_mem_map.mpr hquotable)
  cases strs with
  | nil => exact absurd (List.map_eq_nil_iff.mp hstrs.symm) hne
  | cons first others =>
    have hrets : ∀ s ∈ first :: others, (ipStrToAddrMask s.text afUnspec).ret = 0 := by
      intro s hs
      have hmem : s.text ∈ ips.map (sentAddress checkAddr) := hstrs ▸ List.mem_map_of_mem hs
      obtain ⟨ip, hip, heq⟩ := List.mem_map.mp hmem
      rw [← heq]
      exact haccepted ip hip
    let m : ConfigMessage := ⟨hname.str, hmessage.str, first, others, hrets⟩
    have htext : greydSendConfig checkAddr name message ips = m.text := m.greydSendConfig_eq hstrs.symm
    have htextne : m.text ≠ [] := by
      rw [m.text_eq]
      exact List.cons_ne_nil _ _
    have hconfig : m.config = ⟨name, message, ips.map (sentAddress checkAddr)⟩ := by
      show ListConfig.mk name message ((first :: others).map QuotedStr.text) = _
      rw [hstrs]
    obtain ⟨-, blacklists', happly, hcall⟩ := @greydProcessConfig_text (fun _ => [])
      ⟨m.text, blacklists, []⟩ m [] (List.append_nil _).symm m.text.length
    rw [hconfig] at happly
    rw [htext, daemonReads, if_neg htextne, hcall]
    exact happly.symm

/-- What the daemon does with a connection: nothing for an empty list, which is not sent. -/
theorem Preparation.SentAs.daemonReads (h : p.SentAs c) (hsend : p.Sendable)
    (checkAddr : CStr → Option SaFamily) (blacklists : Hash Blacklist) :
    Greyd.daemonReads (greydSendConfig checkAddr c.name c.message c.ips) blacklists =
      if c.ips = [] then some blacklists else c.installed.map (hashInsert blacklists c.name) := by
  by_cases hne : c.ips = []
  · rw [if_pos hne, hne]
    rfl
  · rw [if_neg hne]
    obtain ⟨cidrs, hips, haligned, -⟩ := h.blocks
    obtain ⟨ipv4, htexts, -⟩ := h.ipv4
    have hsame : ∀ ip ∈ c.ips, sentAddress checkAddr ip = ip := by
      intro ip hip
      rw [hips] at hip
      obtain ⟨d, -, rfl⟩ := List.mem_map.mp hip
      have hmem : '/' ∈ ipCidrToStr d := List.mem_append_right _ List.mem_cons_self
      rw [sentAddress, if_pos hmem]
    have hquotable : ∀ ip ∈ c.ips, QuotableText (sentAddress checkAddr ip) := by
      intro ip hip
      rw [hsame ip hip]
      rw [hips] at hip
      obtain ⟨d, hd, rfl⟩ := List.mem_map.mp hip
      exact quotableText_block (haligned d hd).1
    have haccepted : ∀ ip ∈ c.ips, (ipStrToAddrMask (sentAddress checkAddr ip) afUnspec).ret = 0 := by
      intro ip hip
      rw [hsame ip hip]
      rw [← htexts] at hip
      obtain ⟨e, -, rfl⟩ := List.mem_map.mp hip
      exact e.accepted
    rw [daemonReads_sent (h.name ▸ hsend.name) (h.message ▸ hsend.message) hne hquotable haccepted,
      (List.map_congr_left hsame).trans (List.map_id _)]
    rfl

end Installed

/-! ## Any number of runs -/

end Greyd
