import Greyd.CursorScan
import Greyd.FwSets
import Greyd.HostLists

/-!
# The published lists follow the database (grey.c, greyd.c)

After a scan the trapped addresses are sent to the daemon and the whitelisted ones to the
firewall, as long as there are any. A run keeps, beside the database, what has been
installed in the daemon, what has been handed to the firewall, and what the last successful
scan found.
-/
namespace Greyd

structure Published where
  db : Bdb
  /-- `state->blacklists` of the daemon. -/
  blacklists : Hash Blacklist
  /-- The calls of `FW_replace`, the last one at the end. -/
  fwSets : List FwSet
  /-- What the last successful scan found. -/
  found : Option ScanLists

section Publish

variable (g : Greylister) (names : ScanNames)

/-- The lists of a scan that succeeds. -/
def scanFound (t : GreyTick) (b : Bdb) : Option ScanLists :=
  match t.event with
  | .scan order => (modScanDb g.checkAddr t.faults t.now g.whiteExp b order).map fun st =>
      ⟨st.whitelist, st.whitelistIpv6, st.traplist⟩
  | _ => none

/-- The daemon reads what is in the pipe, and is not woken if there is nothing. -/
def daemonReads (trapOut : List Char) (blacklists : Hash Blacklist) : Option (Hash Blacklist) :=
  if trapOut = [] then some blacklists
  else (greydProcessConfig (fun _ => []) trapOut.length ⟨trapOut, blacklists, []⟩).map
    ConfigPipe.blacklists

/-- How many messages `update_firewall` writes for a list. -/
def fwMessages (ips : List CStr) : Nat := if ips = [] then 0 else 1

/-- `Grey_scan_db` behind a successful scan, and the reading of what it has written. -/
def publish (lists : ScanLists) (p : Published) : Option Published := do
  let blacklists ← daemonReads
    (greydSendConfig g.checkAddr names.traplistName names.traplistMsg lists.traplist) p.blacklists
  let whitelistIpv6 := if names.enableIpv6 then lists.whitelistIpv6 else []
  let sets ← fwReplaces g.checkAddr (fwMessages lists.whitelist + fwMessages whitelistIpv6)
    (updateFirewall names.whitelistName afInet lists.whitelist ++
      updateFirewall names.whitelistNameIpv6 afInet6 whitelistIpv6)
  pure ⟨p.db, blacklists, p.fwSets ++ sets, some lists⟩

def publishStep (t : GreyTick) (p : Published) : Option Published :=
  match scanFound g t p.db with
  | none => some { p with db := greyStep g t p.db }
  | some lists => publish g names lists { p with db := greyStep g t p.db }

/-- A run of messages and scans, each allowed in the state it meets. What a scan writes has
been read before the next event. -/
inductive PublishRun (allowed : GreyTick → Published → Prop) (first : Published) :
    List GreyTick → Published → Prop
  | start : PublishRun allowed first [] first
  | tick {ts p t next} : PublishRun allowed first ts p → t.Fits p.db → allowed t p →
      publishStep g names t p = some next → PublishRun allowed first (ts ++ [t]) next

end Publish

/-- An entry of the blacklist of this name. -/
def InstalledIn (blacklists : Hash Blacklist) (name : CStr) (e : BlacklistTrieEntry) : Prop :=
  ∃ bl, hashGet blacklists name = some bl ∧ ∃ c ∈ bl.trie.cells, c.key = e

/-- The addresses last handed to the firewall for a set. -/
def lastSet (name : CStr) (af : SaFamily) (sets : List FwSet) : List CStr :=
  ((sets.filter fun s => decide (s.name = name) && decide (s.af = af)).getLast?.map FwSet.ips).getD []

/-- What is installed and handed over is what a scan found. -/
structure Published.Follows (p : Published) (names : ScanNames) (lists : ScanLists) : Prop where
  trap : ∀ e, InstalledIn p.blacklists names.traplistName e ↔
    ∃ ip ∈ lists.traplist, hostEntry ip = some e
  white : ∀ ip, ip ∈ lastSet names.whitelistName afInet p.fwSets ↔ ip ∈ lists.whitelist
  whiteIpv6 : ∀ ip, ip ∈ lastSet names.whitelistNameIpv6 afInet6 p.fwSets ↔ ip ∈ lists.whitelistIpv6

/-! ## Where they follow -/

/-- A text that can be put between quotes as it is. -/
structure QuotableText (s : CStr) : Prop where
  length_le : s.length ≤ lexerMaxStrLen
  no_quote : '"' ∉ s
  no_backslash : '\\' ∉ s
  no_nul : nul ∉ s

def QuotableText.str {s : CStr} (h : QuotableText s) : QuotedStr :=
  ⟨s, h.length_le, h.no_quote, h.no_backslash, h.no_nul⟩

/-- The settings can be sent, and the daemon finds a list under its name. -/
structure ScanNames.Sendable (names : ScanNames) : Prop where
  traplistName : QuotableText names.traplistName
  traplistMsg : QuotableText names.traplistMsg
  whitelistName : QuotableText names.whitelistName
  whitelistNameIpv6 : QuotableText names.whitelistNameIpv6
  key : names.traplistName.length ≤ maxKeyLen

/-- The address has an entry of its own or a tuple. -/
def Bdb.Mentions (b : Bdb) (ip : CStr) : Prop :=
  (∃ gd, b.entry (.ip ip) = some gd) ∨ ∃ gt gd, gt.ip = ip ∧ b.entry (.tuple gt) = some gd

/-- The address has a trap entry that has not expired. -/
def Bdb.LiveTrap (b : Bdb) (ip : CStr) (now : Int) : Prop :=
  ∃ gd, b.entry (.ip ip) = some gd ∧ gd.pcount = -1 ∧ now < gd.expire

/-- A scan of this database publishes what it finds: the addresses are texts of addresses,
trapped addresses of the two families differ in their first words, and no list is empty but
one that was not published before, or only without addresses. -/
structure Publishable (g : Greylister) (names : ScanNames) (now : Int) (p : Published) : Prop where
  addresses : ∀ ip, p.db.Mentions ip → HostText g.checkAddr ip
  apart : ∀ ips, (∀ ip ∈ ips, p.db.LiveTrap ip now) → FamiliesApart ips
  trap : (∃ ip, p.db.LiveTrap ip now) ∨ ∀ e, ¬ InstalledIn p.blacklists names.traplistName e
  white : (∃ ip, ':' ∉ ip ∧ p.db.ListsAt ip now ∧ ¬ p.db.Trapped ip) ∨
    lastSet names.whitelistName afInet p.fwSets = []
  whiteIpv6 : (∃ ip, ':' ∈ ip ∧ p.db.ListsAt ip now ∧ ¬ p.db.Trapped ip) ∨
    lastSet names.whitelistNameIpv6 afInet6 p.fwSets = []

section Text

variable {checkAddr : CStr → Option SaFamily} {ip : CStr}

theorem HostText.isSome_checked (h : HostText checkAddr ip) : (checkAddr ip).isSome = true := by
  rw [h.checked]
  rfl

theorem HostText.quotableText (h : HostText checkAddr ip) : QuotableText ip :=
  ⟨h.length_le.trans (by decide), h.no_quote, h.no_backslash, h.no_nul⟩

/-- The block that is sent can be quoted, too. -/
theorem HostText.quotableText_sent (h : HostText checkAddr ip) : QuotableText (sentAddress checkAddr ip) := by
  have hsuffix : ∃ bits : CStr, sentAddress checkAddr ip = ip ++ bits ∧ bits.length ≤ 4 ∧
      '"' ∉ bits ∧ '\\' ∉ bits ∧ nul ∉ bits := by
    rw [h.sent]
    split
    · exact ⟨_, rfl, by decide, by decide, by decide, by decide⟩
    · exact ⟨_, rfl, by decide, by decide, by decide, by decide⟩
  obtain ⟨bits, hsent, hlen, hquote, hback, hnul⟩ := hsuffix
  have hbound : lexerMaxStrLen = 256 := rfl
  have hip := h.length_le
  rw [hsent]
  refine ⟨?_, List.not_mem_append h.no_quote hquote, List.not_mem_append h.no_backslash hback,
    List.not_mem_append h.no_nul hnul⟩
  rw [List.length_append]
  omega

end Text

/-- Texts that can be quoted, as strings of a message. -/
theorem exists_quotedStrs {texts : List CStr} (h : ∀ s ∈ texts, QuotableText s) :
    ∃ strs : List QuotedStr, strs.map QuotedStr.text = texts :=
  ⟨texts.attach.map fun s => (h s.1 s.2).str, by simp [QuotableText.str]⟩

/-! ### The daemon -/

/-- The daemon installs a list of single addresses that is sent to it. -/
theorem daemonReads_installs {checkAddr : CStr → Option SaFamily} {name message : CStr}
    {ips : List CStr} {blacklists : Hash Blacklist} {f : CStr → Option Blacklist}
    (hname : QuotableText name) (hmessage : QuotableText message) (hkey : name.length ≤ maxKeyLen)
    (hne : ips ≠ []) (hhosts : ∀ ip ∈ ips, HostText checkAddr ip) (hapart : FamiliesApart ips)
    (htable : Holds blacklists f) :
    ∃ blacklists', daemonReads (greydSendConfig checkAddr name message ips) blacklists =
        some blacklists' ∧ (∃ f', Holds blacklists' f') ∧
      ∀ e, InstalledIn blacklists' name e ↔ ∃ ip ∈ ips, hostEntry ip = some e := by
  have hquotable : ∀ s ∈ ips.map (sentAddress checkAddr), QuotableText s := by
    intro s hs
    obtain ⟨ip, hip, rfl⟩ := List.mem_map.mp hs
    exact (hhosts ip hip).quotableText_sent
  obtain ⟨strs, hstrs⟩ := exists_quotedStrs hquotable
  cases strs with
  | nil => exact absurd (List.map_eq_nil_iff.mp hstrs.symm) hne
  | cons first others =>
    have haccepted : ∀ s ∈ first :: others, (ipStrToAddrMask s.text afUnspec).ret = 0 := by
      intro s hs
      have hmem : s.text ∈ ips.map (sentAddress checkAddr) := hstrs ▸ List.mem_map_of_mem hs
      obtain ⟨ip, hip, heq⟩ := List.mem_map.mp hmem
      rw [← heq]
      exact (hhosts ip hip).accepted
    let m : ConfigMessage := ⟨hname.str, hmessage.str, first, others, haccepted⟩
    have htext : greydSendConfig checkAddr name message ips = m.text := m.greydSendConfig_eq hstrs.symm
    have htextne : m.text ≠ [] := by rw [m.text_eq]; exact List.cons_ne_nil _ _
    obtain ⟨-, blacklists', happly, hcall⟩ := @greydProcessConfig_text (fun _ => [])
      ⟨m.text, blacklists, []⟩ m [] (List.append_nil _).symm m.text.length
    obtain ⟨bl, hall, hkeys⟩ := addAll_hosts hhosts hapart name message
    have hbl : blacklistAddAll (blacklistCreate m.config.name m.config.message .trie) m.config.ips =
        some bl := by
      rw [← hall, ← hstrs]
      rfl
    rw [ListConfig.apply, hbl, Option.map_some, Option.some.injEq] at happly
    have hholds : Holds blacklists' (Function.update f name (some bl)) :=
      happly ▸ .inl (htable.insert hkey bl)
    refine ⟨blacklists', ?_, ⟨_, hholds⟩, fun e => ?_⟩
    · rw [htext, daemonReads, if_neg htextne, hcall]
      rfl
    · have hget : hashGet blacklists' name = some bl := hholds.get (Function.update_self ..)
      rw [← hkeys e]
      constructor
      · intro hgiven
        obtain ⟨bl', hget', hcell⟩ := hgiven
        rw [hget] at hget'
        cases hget'
        exact hcell
      · exact fun hcell => ⟨bl, hget, hcell⟩

/-! ### The firewall -/

/-- The sets that are replaced for a list: one, or none if the list is empty. -/
def replacedSets (name : CStr) (af : SaFamily) (ips : List CStr) : List FwSet :=
  if ips = [] then [] else [⟨name, af, ips⟩]

/-- What `update_firewall` writes are as many messages as are read, each for its set. -/
theorem exists_fwMessages {checkAddr : CStr → Option SaFamily} {name : CStr} (hname : QuotableText name)
    (af : SaFamily) {ips : List CStr} (hhosts : ∀ ip ∈ ips, HostText checkAddr ip) :
    ∃ msgs : List FwMessage, msgs.length = fwMessages ips ∧
      (msgs.flatMap fun m => m.lines.render) = updateFirewall name af ips ∧
      msgs.map FwMessage.set = replacedSets name af ips ∧
      ∀ m ∈ msgs, ∀ ip ∈ m.set.ips, (checkAddr ip).isSome = true := by
  obtain ⟨strs, hstrs⟩ := exists_quotedStrs fun ip hip => (hhosts ip hip).quotableText
  cases strs with
  | nil =>
    subst hstrs
    exact ⟨[], rfl, rfl, rfl, fun m hm => absurd hm List.not_mem_nil⟩
  | cons first others =>
    let m : FwMessage := ⟨hname.str, af, first, others⟩
    have hne : ips ≠ [] := by
      intro heq
      subst heq
      cases hstrs
    have hset : m.set = ⟨name, af, ips⟩ := by rw [← hstrs]; rfl
    refine ⟨[m], ?_, ?_, ?_, ?_⟩
    · rw [fwMessages, if_neg hne]
      rfl
    · rw [List.flatMap_singleton, m.lines_render, ← hstrs]
      rfl
    · rw [replacedSets, if_neg hne, ← hset]
      rfl
    · intro m' hm' ip hip
      rw [List.mem_singleton.mp hm', hset] at hip
      exact (hhosts ip hip).isSome_checked

/-- The firewall process replaces the sets of both families that are not empty. -/
theorem fwReplaces_lists {checkAddr : CStr → Option SaFamily} {name name6 : CStr}
    (hname : QuotableText name) (hname6 : QuotableText name6) {ips ips6 : List CStr}
    (hhosts : ∀ ip ∈ ips, HostText checkAddr ip) (hhosts6 : ∀ ip ∈ ips6, HostText checkAddr ip) :
    fwReplaces checkAddr (fwMessages ips + fwMessages ips6)
        (updateFirewall name afInet ips ++ updateFirewall name6 afInet6 ips6) =
      some (replacedSets name afInet ips ++ replacedSets name6 afInet6 ips6) := by
  obtain ⟨msgs, hlen, htext, hsets, haddrs⟩ := exists_fwMessages hname afInet hhosts
  obtain ⟨msgs6, hlen6, htext6, hsets6, haddrs6⟩ := exists_fwMessages hname6 afInet6 hhosts6
  rw [← hlen, ← hlen6, ← htext, ← htext6, ← hsets, ← hsets6, ← List.length_append,
    ← List.flatMap_append, ← List.map_append]
  apply fwReplaces_of_messages
  intro m hm
  rcases List.mem_append.mp hm with hm | hm
  · exact haddrs m hm
  · exact haddrs6 m hm

/-- A list that is handed over is the last one, and one that is not leaves the last one. -/
theorem lastSet_replaced (name : CStr) (af : SaFamily) (sets : List FwSet) (ips : List CStr) :
    lastSet name af (sets ++ replacedSets name af ips) =
      if ips = [] then lastSet name af sets else ips := by
  unfold lastSet replacedSets
  split
  · rw [List.append_nil]
  · rw [List.filter_append, List.filter_cons]
    simp

/-- The sets of the other family are others. -/
theorem lastSet_other {af af' : SaFamily} (hne : af' ≠ af) (name name' : CStr) (sets : List FwSet)
    (ips : List CStr) :
    lastSet name af (sets ++ replacedSets name' af' ips) = lastSet name af sets := by
  unfold lastSet replacedSets
  split
  · rw [List.append_nil]
  · rw [List.filter_append, List.filter_cons]
    simp [hne]

/-! ### One scan -/

/-- The addresses of the lists are such that they can be published. -/
structure ScanLists.Readable (lists : ScanLists) (checkAddr : CStr → Option SaFamily) : Prop where
  white : ∀ ip ∈ lists.whitelist, HostText checkAddr ip
  whiteIpv6 : ∀ ip ∈ lists.whitelistIpv6, HostText checkAddr ip
  trap : ∀ ip ∈ lists.traplist, HostText checkAddr ip
  apart : FamiliesApart lists.traplist

/-- Publishing succeeds, and lists that are not empty replace those published before. -/
theorem publish_spec {g : Greylister} {names : ScanNames} (hnames : names.Sendable)
    (henabled : names.enableIpv6 = true) {lists : ScanLists} (hlists : lists.Readable g.checkAddr)
    {p : Published} {f : CStr → Option Blacklist} (htable : Holds p.blacklists f) :
    ∃ next, publish g names lists p = some next ∧ next.found = some lists ∧ next.db = p.db ∧
      (∃ f', Holds next.blacklists f') ∧
      (lists.traplist = [] → next.blacklists = p.blacklists) ∧
      (lists.traplist ≠ [] → ∀ e, InstalledIn next.blacklists names.traplistName e ↔
        ∃ ip ∈ lists.traplist, hostEntry ip = some e) ∧
      lastSet names.whitelistName afInet next.fwSets =
        (if lists.whitelist = [] then lastSet names.whitelistName afInet p.fwSets
          else lists.whitelist) ∧
      lastSet names.whitelistNameIpv6 afInet6 next.fwSets =
        (if lists.whitelistIpv6 = [] then lastSet names.whitelistNameIpv6 afInet6 p.fwSets
          else lists.whitelistIpv6) := by
  have hdaemon : ∃ blacklists, daemonReads (greydSendConfig g.checkAddr names.traplistName
        names.traplistMsg lists.traplist) p.blacklists = some blacklists ∧
      (∃ f', Holds blacklists f') ∧ (lists.traplist = [] → blacklists = p.blacklists) ∧
      (lists.traplist ≠ [] → ∀ e, InstalledIn blacklists names.traplistName e ↔
        ∃ ip ∈ lists.traplist, hostEntry ip = some e) := by
    by_cases hnil : lists.traplist = []
    · rw [hnil]
      exact ⟨p.blacklists, rfl, ⟨f, htable⟩, fun _ => rfl, fun hne => absurd rfl hne⟩
    · obtain ⟨blacklists, hreads, hholds, hinstalled⟩ := daemonReads_installs hnames.traplistName
        hnames.traplistMsg hnames.key hnil hlists.trap hlists.apart htable
      exact ⟨blacklists, hreads, hholds, fun h => absurd h hnil, fun _ => hinstalled⟩
  obtain ⟨blacklists, hreads, hholds, hsame, hinstalled⟩ := hdaemon
  have hsets := fwReplaces_lists hnames.whitelistName hnames.whitelistNameIpv6 hlists.white
    hlists.whiteIpv6
  refine ⟨⟨p.db, blacklists, p.fwSets ++ (replacedSets names.whitelistName afInet lists.whitelist ++
    replacedSets names.whitelistNameIpv6 afInet6 lists.whitelistIpv6), some lists⟩, ?_, rfl, rfl,
    hholds, hsame, hinstalled, ?_, ?_⟩
  · unfold publish
    rw [henabled, hreads]
    dsimp only
    rw [if_pos rfl, Option.bind_eq_bind, Option.bind_some]
    rw [hsets]
    rfl
  · dsimp only
    rw [← List.append_assoc, lastSet_other (by decide), lastSet_replaced]
  · dsimp only
    rw [← List.append_assoc, lastSet_replaced, lastSet_other (by decide)]

/-- What a scan of a publishable database finds can be published, and is empty only where
nothing is published. -/
theorem scanFound_spec {g : Greylister} {names : ScanNames} {t : GreyTick} {p : Published}
    {lists : ScanLists} (hfits : t.Fits p.db) (hpub : Publishable g names t.now p)
    (hfound : scanFound g t p.db = some lists) :
    lists.Readable g.checkAddr ∧
      (lists.traplist = [] → ∀ e, ¬ InstalledIn p.blacklists names.traplistName e) ∧
      (lists.whitelist = [] → lastSet names.whitelistName afInet p.fwSets = []) ∧
      (lists.whitelistIpv6 = [] → lastSet names.whitelistNameIpv6 afInet6 p.fwSets = []) := by
  obtain ⟨now, faults, event⟩ := t
  cases event with
  | grey => cases hfound
  | nonGrey => cases hfound
  | scan keys =>
    obtain ⟨st, hst, rfl⟩ := Option.map_eq_some_iff.mp hfound
    let order : CursorOrder p.db := ⟨keys, hfits.1, hfits.2⟩
    have hmem : ∀ {key gd}, p.db.entry key = some gd → key ∈ keys := fun he =>
      order.covers _ (mem_iff_entry.mpr (by rw [he]; exact Option.some_ne_none _))
    have hjustified := fun ip => @scanKeys_justified _ _ _ _ _ _ _ ip hst
      (by simp [DbScan.Lists, DbScan.whitelistOf]) List.not_mem_nil
    have hhost : ∀ ip, st.Lists g.checkAddr ip → HostText g.checkAddr ip := by
      intro ip hl
      apply hpub.addresses
      rcases (hjustified ip).1 hl with ⟨gd, he, -⟩ | ⟨gt, gd, hip, he, -⟩
      · exact .inl ⟨gd, he⟩
      · exact .inr ⟨gt, gd, hip, he⟩
    have hlists : ∀ ip, p.db.ListsAt ip now → ¬ p.db.Trapped ip → st.Lists g.checkAddr ip := by
      rintro ip (⟨gd, he, hp⟩ | ⟨gt, gd, rfl, he, hp⟩) hnt
      · exact scanKeys_passing_ip hst (hmem he) he hp hnt
      · exact (scanKeys_passing_tuple hst (hmem he) he hp hnt).1
    refine ⟨⟨fun ip hip => ?_, fun ip hip => ?_, fun ip hip => ?_, ?_⟩, fun hnil => ?_, fun hnil => ?_,
      fun hnil => ?_⟩
    · exact hhost ip ((scanKeys_families hst).1.mp hip).1
    · exact hhost ip ((scanKeys_families hst).2.mp hip).1
    · obtain ⟨gd, he, -⟩ := (hjustified ip).2 hip
      exact hpub.addresses ip (.inl ⟨gd, he⟩)
    · exact hpub.apart _ fun ip hip => (hjustified ip).2 hip
    · refine hpub.trap.resolve_left ?_
      intro hgiven
      obtain ⟨ip, gd, he, hp, hlive⟩ := hgiven
      have htrap := (live_trap_lists order hst he hp hlive).1
      dsimp only at hnil
      rw [hnil] at htrap
      exact List.not_mem_nil htrap
    · refine hpub.white.resolve_left ?_
      intro hgiven
      obtain ⟨ip, hcolon, hat, hnt⟩ := hgiven
      have hl := hlists ip hat hnt
      have hfamily : g.checkAddr ip ≠ some afInet6 := by
        rw [(hhost ip hl).checked, if_neg hcolon]
        decide
      have hwhite := (scanKeys_families hst).1.mpr ⟨hl, hfamily⟩
      dsimp only at hnil
      rw [hnil] at hwhite
      exact List.not_mem_nil hwhite
    · refine hpub.whiteIpv6.resolve_left ?_
      intro hgiven
      obtain ⟨ip, hcolon, hat, hnt⟩ := hgiven
      have hl := hlists ip hat hnt
      have hfamily : g.checkAddr ip = some afInet6 := by
        rw [(hhost ip hl).checked, if_pos hcolon]
      have hwhite := (scanKeys_families hst).2.mpr ⟨hl, hfamily⟩
      dsimp only at hnil
      rw [hnil] at hwhite
      exact List.not_mem_nil hwhite

/-- The condition on an event: if it is a scan, the state it meets is publishable. -/
def ScansPublishable (g : Greylister) (names : ScanNames) (t : GreyTick) (p : Published) : Prop :=
  ∀ order, t.event = .scan order → Publishable g names t.now p

section Runs

variable {g : Greylister} {names : ScanNames} {t : GreyTick} {p next : Published}

theorem scanFound_event {b : Bdb} {lists : ScanLists} (h : scanFound g t b = some lists) :
    ∃ order, t.event = .scan order := by
  unfold scanFound at h
  split at h
  · next order hevent => exact ⟨order, hevent⟩
  · cases h

/-- What is kept from event to event. -/
structure Published.Inv (p : Published) (names : ScanNames) : Prop where
  table : ∃ f, Holds p.blacklists f
  follows : ∀ lists, p.found = some lists → p.Follows names lists

/-- Every allowed event happens, and keeps the invariant. -/
theorem publishStep_inv (hnames : names.Sendable) (henabled : names.enableIpv6 = true)
    (hfits : t.Fits p.db) (hallowed : ScansPublishable g names t p) (hinv : p.Inv names) :
    ∃ next, publishStep g names t p = some next ∧ next.Inv names := by
  obtain ⟨f, htable⟩ := hinv.table
  unfold publishStep
  cases hfound : scanFound g t p.db with
  | none => exact ⟨_, rfl, ⟨f, htable⟩, fun lists hl => ⟨(hinv.follows lists hl).trap,
      (hinv.follows lists hl).white, (hinv.follows lists hl).whiteIpv6⟩⟩
  | some lists =>
    obtain ⟨order, hevent⟩ := scanFound_event hfound
    obtain ⟨hreadable, htrap, hwhite, hwhite6⟩ := scanFound_spec hfits (hallowed order hevent) hfound
    obtain ⟨next, hnext, hlast, -, htable', hsame, hinstalled, hset, hset6⟩ :=
      @publish_spec g names hnames henabled lists hreadable { p with db := greyStep g t p.db } f htable
    refine ⟨next, hnext, htable', fun lists' hlists' => ?_⟩
    rw [hlast] at hlists'
    cases hlists'
    refine ⟨fun e => ?_, fun ip => ?_, fun ip => ?_⟩
    · by_cases hnil : lists.traplist = []
      · rw [hsame hnil, hnil]
        exact iff_of_false (htrap hnil e) fun ⟨ip, hip, _⟩ => List.not_mem_nil hip
      · exact hinstalled hnil e
    · rw [hset]
      split
      · next hnil => rw [hwhite hnil, hnil]
      · rfl
    · rw [hset6]
      split
      · next hnil => rw [hwhite6 hnil, hnil]
      · rfl

theorem publishRun_inv (hnames : names.Sendable) (henabled : names.enableIpv6 = true)
    {first : Published} {ts : List GreyTick} (hfirst : first.Inv names)
    (run : PublishRun g names (ScansPublishable g names) first ts p) : p.Inv names := by
  induction run with
  | start => exact hfirst
  | tick _ hfits hallowed hstep ih =>
    obtain ⟨next, hnext, hinv⟩ := publishStep_inv hnames henabled hfits hallowed ih
    rw [hstep] at hnext
    cases hnext
    exact hinv

end Runs

/-- In a run whose scans all meet a publishable state, what is installed in the daemon and
handed to the firewall is at any time what the last successful scan found, and the run can
always go on. -/
theorem published_lists_follow (g : Greylister) (names : ScanNames) (hnames : names.Sendable)
    (henabled : names.enableIpv6 = true) (first : Published) (hfirst : first.found = none)
    (htable : ∃ f, Holds first.blacklists f) (ts : List GreyTick) (p : Published)
    (run : PublishRun g names (ScansPublishable g names) first ts p) :
    (∀ lists, p.found = some lists → p.Follows names lists) ∧
      ∀ t, t.Fits p.db → ScansPublishable g names t p → ∃ next, publishStep g names t p = some next := by
  have hinv := publishRun_inv hnames henabled
    ⟨htable, fun lists hlists => by rw [hfirst] at hlists; cases hlists⟩ run
  refine ⟨hinv.follows, fun t hfits hallowed => ?_⟩
  obtain ⟨next, hnext, -⟩ := publishStep_inv hnames henabled hfits hallowed hinv
  exact ⟨next, hnext⟩

/-- An address that is trapped until 100, and nothing is published. -/
def oneTrap : Published where
  db := Bdb.empty.putEntry (.ip "10.0.0.1".toList) ⟨0, 100, 100, 1, -1⟩
  blacklists := hashCreate 5
  fwSets := []
  found := none

def scanAt (now : Int) : GreyTick := ⟨now, .none, .scan [.ip "10.0.0.1".toList]⟩

theorem oneTrap_hostText : HostText (fun _ => some afInet) "10.0.0.1".toList where
  checked := by decide
  isSome := by decide +kernel
  length_le := by decide
  no_slash := by decide
  no_quote := by decide
  no_backslash := by decide
  no_nul := by decide

theorem plainNames_sendable : plainNames.Sendable where
  traplistName := ⟨by decide, by decide, by decide, by decide⟩
  traplistMsg := ⟨by decide, by decide, by decide, by decide⟩
  whitelistName := ⟨by decide, by decide, by decide, by decide⟩
  whitelistNameIpv6 := ⟨by decide, by decide, by decide, by decide⟩
  key := by decide

theorem oneTrap_entry {key : DbKey} {gd : GreyData} (h : oneTrap.db.entry key = some gd) :
    key = .ip "10.0.0.1".toList := by
  by_contra hne
  rw [oneTrap, entry_putEntry, if_neg hne] at h
  cases h

theorem oneTrap_publishable : Publishable defaultGreylister plainNames 10 oneTrap := by
  have honly : ∀ ip, oneTrap.db.Mentions ip → ip = "10.0.0.1".toList := by
    rintro ip (⟨gd, he⟩ | ⟨gt, gd, -, he⟩)
    · exact DbKey.ip.inj (oneTrap_entry he)
    · cases oneTrap_entry he
  refine ⟨fun ip hip => ?_, fun ips hips => ?_, .inl ?_, .inr rfl, .inr rfl⟩
  · rw [honly ip hip]
    exact oneTrap_hostText
  · have heach : ∀ ip ∈ ips, ip = "10.0.0.1".toList := by
      intro ip hip
      obtain ⟨gd, he, -⟩ := hips ip hip
      exact honly ip (.inl ⟨gd, he⟩)
    intro ip hip ip' hip' e e' he he' _
    rw [heach ip hip] at he
    rw [heach ip' hip', he] at he'
    rw [Option.some.inj he']
  · exact ⟨"10.0.0.1".toList, ⟨0, 100, 100, 1, -1⟩, by decide, rfl, by decide⟩

theorem scanAt_fits (now : Int) : (scanAt now).Fits oneTrap.db := by
  refine ⟨List.nodup_singleton _, fun key hkey => ?_⟩
  obtain ⟨gd, he⟩ := Option.ne_none_iff_exists'.mp (mem_iff_entry.mp hkey)
  exact List.mem_singleton.mpr (oneTrap_entry he)

theorem oneTrap_inv : oneTrap.Inv plainNames :=
  ⟨⟨_, holds_create (by decide)⟩, fun lists h => by cases h⟩

theorem scanAt_allowed :
    ScansPublishable defaultGreylister plainNames (scanAt 10) oneTrap :=
  fun _ _ => oneTrap_publishable

/-- The trapped address is installed by a scan. -/
theorem published_lists_follow_trapped :
    ∃ p, publishStep defaultGreylister plainNames (scanAt 10) oneTrap = some p ∧
      ∀ lists, p.found = some lists → p.Follows plainNames lists := by
  obtain ⟨p, hstep, -⟩ := publishStep_inv plainNames_sendable rfl (scanAt_fits 10) scanAt_allowed
    oneTrap_inv
  have hrun := PublishRun.tick .start (scanAt_fits 10) scanAt_allowed hstep
  obtain ⟨hfollows, -⟩ := published_lists_follow defaultGreylister plainNames plainNames_sendable rfl
    oneTrap rfl ⟨_, holds_create (by decide)⟩ _ p hrun
  exact ⟨p, hstep, hfollows⟩

/-- The trap expires, the next scan finds nothing and sends nothing, and the address stays
in the daemon's list. -/
theorem expired_trap_stays :
    ∃ p, PublishRun defaultGreylister plainNames (fun _ _ => True) oneTrap [scanAt 10, scanAt 200] p ∧
      ∃ lists, p.found = some lists ∧ ¬ p.Follows plainNames lists := by
  have hfirst : scanFound defaultGreylister (scanAt 10) oneTrap.db =
      some ⟨[], [], ["10.0.0.1".toList]⟩ := by decide
  have hreadable : (⟨[], [], ["10.0.0.1".toList]⟩ : ScanLists).Readable defaultGreylister.checkAddr := by
    refine ⟨fun ip h => absurd h List.not_mem_nil, fun ip h => absurd h List.not_mem_nil,
      fun ip h => ?_, fun ip h ip' h' e e' he he' _ => ?_⟩
    · rw [List.mem_singleton.mp h]
      exact oneTrap_hostText
    · rw [List.mem_singleton.mp h] at he
      rw [List.mem_singleton.mp h', he] at he'
      rw [Option.some.inj he']
  obtain ⟨p, hp, -, hdb, ⟨f, htable⟩, -, hinstalled, -, -⟩ := publish_spec plainNames_sendable rfl
    hreadable (p := { oneTrap with db := greyStep defaultGreylister (scanAt 10) oneTrap.db })
    (holds_create (by decide))
  have hstep : publishStep defaultGreylister plainNames (scanAt 10) oneTrap = some p := by
    rw [publishStep, hfirst]
    exact hp
  have hsecond : scanFound defaultGreylister (scanAt 200) p.db = some ⟨[], [], []⟩ := by
    rw [hdb]
    decide
  have hempty : (⟨[], [], []⟩ : ScanLists).Readable defaultGreylister.checkAddr :=
    ⟨fun ip h => absurd h List.not_mem_nil, fun ip h => absurd h List.not_mem_nil,
      fun ip h => absurd h List.not_mem_nil, fun ip h => absurd h List.not_mem_nil⟩
  obtain ⟨q, hq, hfound, -, -, hsame, -⟩ := publish_spec plainNames_sendable rfl hempty
    (p := { p with db := greyStep defaultGreylister (scanAt 200) p.db }) htable
  have hstep' : publishStep defaultGreylister plainNames (scanAt 200) p = some q := by
    rw [publishStep, hsecond]
    exact hq
  have hfits : (scanAt 200).Fits p.db := by
    have hkeys : (greyStep defaultGreylister (scanAt 10) oneTrap.db).db.keys =
        [.ip "10.0.0.1".toList] := by decide
    refine ⟨List.nodup_singleton _, fun key hkey => ?_⟩
    rw [hdb, AList.mem_keys, hkeys] at hkey
    exact hkey
  refine ⟨q, .tick (.tick .start (scanAt_fits 10) trivial hstep) hfits trivial hstep', _, hfound, ?_⟩
  intro hfollows
  obtain ⟨e, he⟩ := Option.isSome_iff_exists.mp oneTrap_hostText.isSome
  have hold := (hinstalled (List.cons_ne_nil _ _) e).mpr ⟨_, List.mem_singleton_self _, he⟩
  have hstill : InstalledIn q.blacklists plainNames.traplistName e := by
    rw [hsame rfl]
    exact hold
  obtain ⟨ip, hip, -⟩ := (hfollows.trap e).mp hstill
  exact List.not_mem_nil hip

end Greyd
