import Mathlib.Tactic
import Greyd.Setup

/-!
# The blacklists that are prepared

The lists in terms of the manual: a series of blacklists and the whitelists behind it. The
loop applies a whitelist to the current blacklist only, which is the last one of its series.
-/
namespace Greyd

/-! ## The lists and what the manual makes of them -/

/-- A configured list with the ranges that its feed reads as. -/
inductive ListItem
  | black (name message : CStr) (ranges : List FeedRange)
  | white (ranges : List FeedRange)

def feedRanges (env : SetupEnv) (n : Nat) (section' : ConfigSection) : List FeedRange :=
  match getParser env n section' with
  | none => []
  | some text => (readFeed (lexFeed (spamdLexerCreate text)).1).1

def listItem (env : SetupEnv) (n : Nat) (val : ConfigValue) : Option ListItem :=
  (cvStr val).bind fun listName =>
    match configGetBlacklist env.config listName with
    | some section' =>
      some (.black listName ((configSectionGetStr section' "message".toList (some defaultMsg)).getD [])
        (feedRanges env n section'))
    | none => (configGetWhitelist env.config listName).map fun section' =>
        .white (feedRanges env n section')

def listItems (env : SetupEnv) : Nat → List ConfigValue → List ListItem
  | _, [] => []
  | n, val :: lists => (listItem env n val).toList ++ listItems env (n + 1) lists

/-- The ranges of the whitelists that come next. -/
def followingWhites : List ListItem → List FeedRange
  | .white ranges :: items => ranges ++ followingWhites items
  | _ => []

/-- The ranges of the whitelists behind the series of blacklists. -/
def seriesWhites : List ListItem → List FeedRange
  | .black _ _ _ :: items => seriesWhites items
  | items => followingWhites items

/-- A blacklist with its own ranges, those of the whitelists that are read while it is the
current one, and those of the whitelists behind its series. -/
structure Preparation where
  name : CStr
  message : CStr
  black : List FeedRange
  applied : List FeedRange
  white : List FeedRange

def preparations : List ListItem → List Preparation
  | [] => []
  | .black name message ranges :: items =>
    ⟨name, message, ranges, followingWhites items, seriesWhites items⟩ :: preparations items
  | .white _ :: items => preparations items

/-- The address is in a range, its last address included. -/
def Within (ranges : List FeedRange) (x : Nat) : Prop :=
  ∃ r ∈ ranges, r.1.toNat ≤ x ∧ x ≤ (r.2 - 1).toNat

/-- The address is in a range that is stored: the end of one that runs up to the last
address has wrapped. -/
def Stored (ranges : List FeedRange) (x : Nat) : Prop :=
  ∃ r ∈ ranges, r.1.toNat ≤ x ∧ x < r.2.toNat

/-- What is to be sent for a blacklist: its addresses that are in no whitelist behind the
series it belongs to. -/
def Preparation.wanted (p : Preparation) : Set Nat := {x | Within p.black x ∧ ¬ Within p.white x}

/-- The texts are those of blocks that cover exactly these addresses. -/
def NamesExactly (ips : List CStr) (s : Set Nat) : Prop :=
  ∃ cidrs : List IpCidr, ips = cidrs.map ipCidrToStr ∧ ∀ x, (∃ c ∈ cidrs, x ∈ c.points) ↔ x ∈ s

def Preparation.Sent (p : Preparation) (c : ListConfig) : Prop :=
  c.name = p.name ∧ c.message = p.message ∧ NamesExactly c.ips p.wanted

/-- What the manual promises of a run. -/
def Prepared (flags : SetupFlags) (ps : List Preparation) (out : SetupOutput) : Prop :=
  flags.dryrun = false → List.Forall₂ Preparation.Sent ps out.sent ∧
    (flags.greyonly = false → ps ≠ [] →
      ∃ all, out.firewall = some all ∧ NamesExactly all {x | ∃ p ∈ ps, x ∈ p.wanted})

/-! ## The loop -/

def Preparation.calls (p : Preparation) : List AddCall :=
  p.black.map (·, .black) ++ p.applied.map (·, .white)

/-- A blacklist is filled and, once the next one begins or the lists end, sent. -/
def prepare (env : SetupEnv) (flags : SetupFlags) (finalList : Bool) (p : Preparation)
    (out : SetupOutput) : Option SetupOutput :=
  (addCalls (blacklistCreate p.name p.message .list) p.calls).bind fun blacklist =>
    sendCurrent env flags finalList (some blacklist) out

def prepareAll (env : SetupEnv) (flags : SetupFlags) : List Preparation → SetupOutput → Option SetupOutput
  | [], out => some out
  | p :: ps, out => (prepare env flags ps.isEmpty p out).bind (prepareAll env flags ps)

theorem parseList_eq (env : SetupEnv) (n : Nat) (section' : ConfigSection) (type : BlType)
    (blacklist : Blacklist) : parseList env n section' type blacklist =
      addCalls blacklist ((feedRanges env n section').map (·, type)) := by
  unfold parseList feedRanges
  cases getParser env n section' with
  | none => rfl
  | some text =>
    have hlen : (lexFeed (spamdLexerCreate text)).1.length < text.length + 1 :=
      Nat.lt_succ_of_le (lexFeed_length _)
    obtain ⟨parser, hrun⟩ :=
      spamdParserStart_reads (feeds_lexFeed (spamdLexerCreate text)) hlen blacklist type
    dsimp only
    rw [hrun, ← addRanges_eq_addCalls]
    cases addRanges blacklist type (readFeed (lexFeed (spamdLexerCreate text)).1).1 <;> rfl

variable {env : SetupEnv} {flags : SetupFlags}

/-- What a turn of the loop does with its list. -/
inductive ListTurn (env : SetupEnv) (flags : SetupFlags) (n : Nat) (val : ConfigValue) : Prop
  | skipped : listItem env n val = none →
      (∀ state, setupList env flags n val state = some state) → ListTurn env flags n val
  | black (name message : CStr) (ranges : List FeedRange) :
      listItem env n val = some (.black name message ranges) →
      (∀ state, setupList env flags n val state =
        (sendCurrent env flags false state.1 state.2).bind fun out =>
          (addCalls (blacklistCreate name message .list) (ranges.map (·, .black))).bind fun b =>
            some (some b, out)) → ListTurn env flags n val
  | white (ranges : List FeedRange) : listItem env n val = some (.white ranges) →
      (∀ b out, setupList env flags n val (some b, out) =
        (addCalls b (ranges.map (·, .white))).bind fun b => some (some b, out)) →
      (∀ out, setupList env flags n val (none, out) = some (none, out)) → ListTurn env flags n val

theorem listTurn (env : SetupEnv) (flags : SetupFlags) (n : Nat) (val : ConfigValue) :
    ListTurn env flags n val := by
  cases hname : cvStr val with
  | none =>
    refine .skipped (by rw [listItem, hname]; rfl) fun state => ?_
    rw [setupList, hname]
  | some listName =>
    cases hblack : configGetBlacklist env.config listName with
    | some section' =>
      refine .black listName ((configSectionGetStr section' "message".toList (some defaultMsg)).getD [])
        (feedRanges env n section') ?_ fun state => ?_
      · rw [listItem, hname, Option.bind_some, hblack]
      · rw [setupList, hname]
        dsimp only
        rw [hblack]
        dsimp only
        rw [parseList_eq]
        rfl
    | none =>
      cases hwhite : configGetWhitelist env.config listName with
      | some section' =>
        refine .white (feedRanges env n section') ?_ (fun b out => ?_) fun out => ?_
        · rw [listItem, hname, Option.bind_some, hblack, hwhite]
          rfl
        · rw [setupList, hname]
          dsimp only
          rw [hblack, hwhite]
          dsimp only
          rw [parseList_eq]
          rfl
        · rw [setupList, hname]
          dsimp only
          rw [hblack, hwhite]
      | none =>
        refine .skipped ?_ fun state => ?_
        · rw [listItem, hname, Option.bind_some, hblack, hwhite]
          rfl
        · rw [setupList, hname]
          dsimp only
          rw [hblack, hwhite]

/-- The loop from a list on, and the last blacklist. -/
private def finish (env : SetupEnv) (flags : SetupFlags) (n : Nat) (lists : List ConfigValue)
    (state : Option Blacklist × SetupOutput) : Option SetupOutput :=
  (setupLists env flags n lists state).bind fun state => sendCurrent env flags true state.1 state.2

private theorem finish_cons {n : Nat} {val : ConfigValue} {lists : List ConfigValue}
    {state : Option Blacklist × SetupOutput} : finish env flags n (val :: lists) state =
      (setupList env flags n val state).bind (finish env flags (n + 1) lists) := by
  rw [finish, setupLists, Option.bind_assoc]
  rfl

private theorem prepareAll_nil_bind (x : Option SetupOutput) : x.bind (prepareAll env flags []) = x := by
  cases x <;> rfl

private theorem listItems_cons (n : Nat) (val : ConfigValue) (lists : List ConfigValue) :
    listItems env n (val :: lists) = (listItem env n val).toList ++ listItems env (n + 1) lists := rfl

/-- With a current blacklist, the loop reads the whitelists that come next into it, sends it,
and prepares the blacklists behind it. -/
private theorem finish_current (n : Nat) (lists : List ConfigValue) (b : Blacklist) (out : SetupOutput) :
    finish env flags n lists (some b, out) =
      (addCalls b ((followingWhites (listItems env n lists)).map (·, .white))).bind fun b =>
        (sendCurrent env flags (preparations (listItems env n lists)).isEmpty (some b) out).bind
          (prepareAll env flags (preparations (listItems env n lists))) := by
  induction lists generalizing n b out with
  | nil => exact (prepareAll_nil_bind _).symm
  | cons val lists ih =>
    rw [finish_cons, listItems_cons]
    cases listTurn env flags n val with
    | skipped hitem hturn =>
      rw [hitem, hturn]
      exact ih (n + 1) b out
    | black name message ranges hitem hturn =>
      rw [hitem, hturn, Option.bind_assoc]
      refine Option.bind_congr fun out' _ => ?_
      rw [Option.bind_assoc, Option.toList_some, List.singleton_append, preparations, prepareAll,
        prepare, Preparation.calls, addCalls_append, Option.bind_assoc, Option.bind_assoc]
      refine Option.bind_congr fun b' _ => ?_
      rw [Option.bind_some]
      exact ih (n + 1) b' out'
    | white ranges hitem hturn _ =>
      rw [hitem, hturn, Option.bind_assoc, Option.toList_some, List.singleton_append, followingWhites,
        preparations, List.map_append, addCalls_append, Option.bind_assoc]
      refine Option.bind_congr fun b' _ => ?_
      rw [Option.bind_some, ih]

/-- A run prepares the blacklists one after the other. -/
theorem setup_eq (lists : List ConfigValue) : setup env flags lists =
    prepareAll env flags (preparations (listItems env 0 lists)) ⟨[], [], none⟩ := by
  have hfirst : ∀ n, finish env flags n lists (none, ⟨[], [], none⟩) =
      prepareAll env flags (preparations (listItems env n lists)) ⟨[], [], none⟩ := by
    induction lists with
    | nil => exact fun n => rfl
    | cons val lists ih =>
      intro n
      rw [finish_cons, listItems_cons]
      cases listTurn env flags n val with
      | skipped hitem hturn =>
        rw [hitem, hturn]
        exact ih (n + 1)
      | black name message ranges hitem hturn =>
        rw [hitem, hturn, Option.toList_some, List.singleton_append, preparations, prepareAll, prepare,
          Preparation.calls, addCalls_append, Option.bind_assoc, Option.bind_assoc, Option.bind_assoc,
          sendCurrent, Option.bind_some, Option.bind_assoc]
        refine Option.bind_congr fun b _ => ?_
        rw [Option.bind_some]
        exact finish_current (n + 1) lists b _
      | white ranges hitem _ hturn =>
        rw [hitem, hturn]
        exact ih (n + 1)
  exact hfirst 0

/-! ## One blacklist -/

/-- What a run needs of a blacklist. Its ranges fit into the array. Not all that is stored of
them starts and ends at the address zero. With the firewall, something is stored. A stored
address that is whitelisted behind the series is stored as such while the blacklist is the
current one. An address that is not whitelisted is stored. -/
structure Preparation.Ready (flags : SetupFlags) (p : Preparation) : Prop where
  fits : (callEvents p.calls).length ≤ listRoom
  leavesZero : flags.dryrun = false → (∃ c ∈ p.calls, c.kept = true) →
    ∃ c ∈ p.calls, c.kept = true ∧ c.1.2 ≠ 0
  nonempty : flags.dryrun = false → flags.greyonly = false → ∃ c ∈ p.calls, c.kept = true
  unlisted : flags.dryrun = false → ∀ x, Stored p.black x → Within p.white x → Stored p.applied x
  stored : flags.dryrun = false → ∀ x, Within p.black x → ¬ Within p.white x → Stored p.black x

theorem Stored.within {ranges : List FeedRange} {x : Nat} (h : Stored ranges x) : Within ranges x := by
  obtain ⟨r, hr, hle, hlt⟩ := h
  refine ⟨r, hr, hle, ?_⟩
  have hone : (1 : BitVec 32) ≤ r.2 := by
    rw [BitVec.le_def]
    exact Nat.lt_of_le_of_lt (Nat.zero_le x) hlt
  rw [BitVec.toNat_sub_of_le hone]
  exact Nat.le_sub_one_of_lt hlt

theorem mem_callsListed {p : Preparation} {x : Nat} :
    x ∈ callsListed p.calls ↔ Stored p.black x ∧ ¬ Stored p.applied x := by
  simp [callsListed, Preparation.calls, AddCall.Covers, Stored, or_and_right, exists_or]

/-- What is sent is what is wanted exactly where whitelisting and storing did not go wrong. -/
theorem callsListed_eq_wanted_iff {p : Preparation} (hsub : ∀ r ∈ p.applied, r ∈ p.white) :
    (∀ x, x ∈ callsListed p.calls ↔ x ∈ p.wanted) ↔
      (∀ x, Stored p.black x → Within p.white x → Stored p.applied x) ∧
      ∀ x, Within p.black x → ¬ Within p.white x → Stored p.black x := by
  have happlied : ∀ x, Stored p.applied x → Within p.white x := fun x h => by
    obtain ⟨r, hr, hx⟩ := h.within
    exact ⟨r, hsub r hr, hx⟩
  simp only [mem_callsListed]
  constructor
  · intro h
    refine ⟨fun x hblack hwhite => ?_, fun x hblack hwhite => ((h x).mpr ⟨hblack, hwhite⟩).1⟩
    by_contra hnot
    exact ((h x).mp ⟨hblack, hnot⟩).2 hwhite
  · intro h x
    exact ⟨fun hx => ⟨hx.1.within, fun hwhite => hx.2 (h.1 x hx.1 hwhite)⟩,
      fun hx => ⟨h.2 x hx.1 hx.2, fun ha => hx.2 (happlied x ha)⟩⟩

theorem namesExactly_iff {cidrs : List IpCidr} {s t : Set Nat}
    (h : ∀ x, (∃ c ∈ cidrs, x ∈ c.points) ↔ x ∈ s) :
    NamesExactly (cidrs.map ipCidrToStr) t ↔ ∀ x, x ∈ s ↔ x ∈ t := by
  constructor
  · intro hnames x
    obtain ⟨cidrs', htexts, hcover⟩ := hnames
    rw [List.map_injective_iff.mpr (fun c d => ipCidrToStr_inj) htexts] at h
    exact (h x).symm.trans (hcover x)
  · exact fun heq => ⟨cidrs, rfl, fun x => (h x).trans (heq x)⟩

/-- The message for the blacklist, and what is collected of it. -/
def SetupOutput.add (out : SetupOutput) (greyonly finalList : Bool) (c : ListConfig) : SetupOutput :=
  if greyonly then { out with sent := out.sent ++ [c] }
  else ⟨out.sent ++ [c], out.allCidrs ++ c.ips,
    if finalList then some (out.allCidrs ++ c.ips) else out.firewall⟩

/-- Where a blacklist can be collapsed and walked through. -/
def Preparation.Collapses (flags : SetupFlags) (p : Preparation) : Prop :=
  (callEvents p.calls).length ≤ listRoom ∧
    ((∃ c ∈ p.calls, c.kept = true) → ∃ c ∈ p.calls, c.kept = true ∧ c.1.2 ≠ 0) ∧
    (flags.greyonly = false → ∃ c ∈ p.calls, c.kept = true)

private theorem sendCurrent_of_collapse {b : Blacklist} {r : Option (Blacklist × Option (List CStr))}
    (hdry : flags.dryrun = false) (hcollapse : blacklistCollapse env.qsort b = r) (finalList : Bool)
    (out : SetupOutput) : sendCurrent env flags finalList (some b) out = r.bind fun (_, cidrs) =>
      if flags.greyonly then some (out.add true finalList ⟨b.name, b.message, cidrs.getD []⟩)
      else cidrs.map fun cidrs => out.add false finalList ⟨b.name, b.message, cidrs⟩ := by
  rw [sendCurrent, hdry, ← hcollapse]
  simp only [Bool.false_eq_true, if_false, sendBlacklist]
  refine Option.bind_congr fun r _ => ?_
  cases flags.greyonly with
  | true => rfl
  | false => cases r.2 <;> rfl

/-- A blacklist that is sent goes out with the blocks of what it lists. -/
theorem prepare_spec (env : SetupEnv) (hdry : flags.dryrun = false) (finalList : Bool)
    (p : Preparation) (out : SetupOutput) :
    (p.Collapses flags ∧ ∃ cidrs : List IpCidr,
        (∀ x, (∃ c ∈ cidrs, x ∈ c.points) ↔ x ∈ callsListed p.calls) ∧
        prepare env flags finalList p out =
          some (out.add flags.greyonly finalList ⟨p.name, p.message, cidrs.map ipCidrToStr⟩)) ∨
      (¬ p.Collapses flags ∧ prepare env flags finalList p out = none) := by
  have hkept : (∃ c ∈ p.calls, c.kept = true) ↔ p.calls.filter AddCall.kept ≠ [] := by
    simp [List.filter_eq_nil_iff]
  by_cases hfits : (callEvents p.calls).length ≤ listRoom
  · obtain ⟨b, hb⟩ := (addCalls_create_iff p.name p.message p.calls).mpr hfits
    obtain ⟨hname, hmessage⟩ : b.name = p.name ∧ b.message = p.message := addCalls_name hb
    have hprepare : prepare env flags finalList p out = sendCurrent env flags finalList (some b) out := by
      rw [prepare, hb, Option.bind_some]
    rw [hprepare, Preparation.Collapses, hkept]
    rcases collapse_calls env.qsort hb with ⟨hnone, hcol⟩ | ⟨hne, hzero, hcol⟩ |
      ⟨⟨c, hc, hnz⟩, b', cidrs, hcol, -, hpoints⟩
    · rw [sendCurrent_of_collapse hdry hcol]
      have hempty : ∀ x, x ∉ callsListed p.calls := by
        intro x hx
        obtain ⟨⟨c, hc, -, hcov⟩, -⟩ := hx
        have hmem := List.mem_filter.mpr ⟨hc, hcov.kept⟩
        rw [hnone] at hmem
        cases hmem
      cases hgrey : flags.greyonly with
      | true =>
        refine .inl ⟨⟨hfits, fun h => absurd hnone h, by simp⟩, [], by simpa using hempty, ?_⟩
        rw [← hname, ← hmessage]
        rfl
      | false => exact .inr ⟨fun h => h.2.2 rfl hnone, rfl⟩
    · rw [sendCurrent_of_collapse hdry hcol]
      refine .inr ⟨fun h => ?_, rfl⟩
      obtain ⟨c, hc, hkept', hnz⟩ := h.2.1 hne
      exact hnz (hzero c (List.mem_filter.mpr ⟨hc, hkept'⟩))
    · rw [sendCurrent_of_collapse hdry hcol]
      obtain ⟨hmem, hkept'⟩ := List.mem_filter.mp hc
      have hne : p.calls.filter AddCall.kept ≠ [] := List.ne_nil_of_mem hc
      refine .inl ⟨⟨hfits, fun _ => ⟨c, hmem, hkept', hnz⟩, fun _ => hne⟩, cidrs, hpoints, ?_⟩
      rw [← hname, ← hmessage]
      cases flags.greyonly <;> rfl
  · refine .inr ⟨fun h => hfits h.1, ?_⟩
    have hnone : addCalls (blacklistCreate p.name p.message .list) p.calls = none :=
      Option.eq_none_iff_forall_not_mem.mpr fun b hb =>
        hfits ((addCalls_create_iff p.name p.message p.calls).mp ⟨b, hb⟩)
    rw [prepare, hnone, Option.bind_none]

/-! ## All of them -/

theorem followingWhites_subset (items : List ListItem) : ∀ r ∈ followingWhites items, r ∈ seriesWhites items := by
  intro r hr
  cases items with
  | nil => cases hr
  | cons item items =>
    cases item with
    | black name message ranges => cases hr
    | white ranges => exact hr

theorem applied_subset {items : List ListItem} {p : Preparation} (hp : p ∈ preparations items) :
    ∀ r ∈ p.applied, r ∈ p.white := by
  induction items with
  | nil => cases hp
  | cons item items ih =>
    cases item with
    | white ranges => exact ih hp
    | black name message ranges =>
      rcases List.mem_cons.mp hp with rfl | hp
      · exact followingWhites_subset items
      · exact ih hp

theorem ready_iff (hdry : flags.dryrun = false) {p : Preparation} (hsub : ∀ r ∈ p.applied, r ∈ p.white) :
    p.Ready flags ↔ p.Collapses flags ∧ ∀ x, x ∈ callsListed p.calls ↔ x ∈ p.wanted := by
  rw [callsListed_eq_wanted_iff hsub]
  exact ⟨fun h => ⟨⟨h.fits, h.leavesZero hdry, h.nonempty hdry⟩, h.unlisted hdry, h.stored hdry⟩,
    fun h => ⟨h.1.1, fun _ => h.1.2.1, fun _ => h.1.2.2, fun _ => h.2.1, fun _ => h.2.2⟩⟩

/-- What is added to the output by blacklists that are ready. -/
structure Added (flags : SetupFlags) (ps : List Preparation) (out out' : SetupOutput)
    (sent : List ListConfig) : Prop where
  sent_eq : out'.sent = out.sent ++ sent
  each : List.Forall₂ Preparation.Sent ps sent
  collected : flags.greyonly = false → out'.allCidrs = out.allCidrs ++ sent.flatMap (·.ips)
  handed : flags.greyonly = false → ps ≠ [] → out'.firewall = some out'.allCidrs

theorem prepareAll_added (hdry : flags.dryrun = false) {ps : List Preparation}
    (hsub : ∀ p ∈ ps, ∀ r ∈ p.applied, r ∈ p.white) (hready : ∀ p ∈ ps, p.Ready flags)
    (out : SetupOutput) : ∃ out' sent, prepareAll env flags ps out = some out' ∧
      Added flags ps out out' sent := by
  induction ps generalizing out with
  | nil => exact ⟨out, [], rfl, by simp, .nil, by simp, fun _ h => absurd rfl h⟩
  | cons p ps ih =>
    rw [List.forall_mem_cons] at hsub hready
    obtain ⟨hcollapses, heq⟩ := (ready_iff hdry hsub.1).mp hready.1
    rcases prepare_spec env hdry ps.isEmpty p out with ⟨-, cidrs, hpoints, hprep⟩ | ⟨hnot, -⟩
    · obtain ⟨out', sent, hrest, hadded⟩ := ih hsub.2 hready.2
        (out.add flags.greyonly ps.isEmpty ⟨p.name, p.message, cidrs.map ipCidrToStr⟩)
      refine ⟨out', ⟨p.name, p.message, cidrs.map ipCidrToStr⟩ :: sent,
        by rw [prepareAll, hprep, Option.bind_some, hrest], ?_, .cons ⟨rfl, rfl, ?_⟩ hadded.each, ?_, ?_⟩
      · rw [hadded.sent_eq]
        cases flags.greyonly <;> simp [SetupOutput.add]
      · exact (namesExactly_iff hpoints).mpr heq
      · intro hgrey
        rw [hadded.collected hgrey, hgrey]
        simp [SetupOutput.add]
      · intro hgrey _
        cases ps with
        | nil =>
          obtain rfl := Option.some.inj hrest
          rw [hgrey]
          rfl
        | cons q ps => exact hadded.handed hgrey (by simp)
    · exact absurd hcollapses hnot

theorem prepareAll_sent (hdry : flags.dryrun = false) {ps : List Preparation} {out out' : SetupOutput}
    (h : prepareAll env flags ps out = some out') : ∃ sent, out'.sent = out.sent ++ sent := by
  induction ps generalizing out with
  | nil => exact ⟨[], by rw [← Option.some.inj h, List.append_nil]⟩
  | cons p ps ih =>
    obtain ⟨out₁, hprep, hrest⟩ := Option.bind_eq_some_iff.mp h
    obtain ⟨sent, hsent⟩ := ih hrest
    rcases prepare_spec env hdry ps.isEmpty p out with ⟨-, cidrs, -, hprep'⟩ | ⟨-, hnone⟩
    · rw [hprep'] at hprep
      rw [← Option.some.inj hprep] at hsent
      refine ⟨⟨p.name, p.message, cidrs.map ipCidrToStr⟩ :: sent, ?_⟩
      rw [hsent]
      cases flags.greyonly <;> simp [SetupOutput.add]
    · rw [hnone] at hprep
      cases hprep

/-- Blacklists that were all sent as they are wanted were ready. -/
theorem ready_of_prepareAll (hdry : flags.dryrun = false) {ps : List Preparation}
    (hsub : ∀ p ∈ ps, ∀ r ∈ p.applied, r ∈ p.white) {out out' : SetupOutput} {sent : List ListConfig}
    (hrun : prepareAll env flags ps out = some out') (hsent : out'.sent = out.sent ++ sent)
    (hmatch : List.Forall₂ Preparation.Sent ps sent) : ∀ p ∈ ps, p.Ready flags := by
  induction hmatch generalizing out with
  | nil => simp
  | @cons p c ps sent hpc hmatch ih =>
    rw [List.forall_mem_cons] at hsub ⊢
    obtain ⟨out₁, hprep, hrest⟩ := Option.bind_eq_some_iff.mp hrun
    obtain ⟨sent', hsent'⟩ := prepareAll_sent hdry hrest
    rcases prepare_spec env hdry ps.isEmpty p out with
      ⟨hcollapses, cidrs, hpoints, hprep'⟩ | ⟨-, hnone⟩
    · rw [hprep'] at hprep
      have hout₁ : out₁.sent = out.sent ++ [⟨p.name, p.message, cidrs.map ipCidrToStr⟩] := by
        rw [← Option.some.inj hprep]
        cases flags.greyonly <;> rfl
      rw [hout₁, hsent, List.append_assoc, List.append_cancel_left_eq, List.singleton_append,
        List.cons.injEq] at hsent'
      obtain ⟨rfl, rfl⟩ := hsent'
      refine ⟨(ready_iff hdry hsub.1).mpr ⟨hcollapses, (namesExactly_iff hpoints).mp hpc.2.2⟩,
        ih hsub.2 hrest ?_⟩
      rw [hsent, hout₁]
      simp
    · rw [hnone] at hprep
      cases hprep

theorem namesExactly_append {ips ips' : List CStr} {s t : Set Nat} (h : NamesExactly ips s)
    (h' : NamesExactly ips' t) : NamesExactly (ips ++ ips') (s ∪ t) := by
  obtain ⟨cidrs, rfl, hcover⟩ := h
  obtain ⟨cidrs', rfl, hcover'⟩ := h'
  refine ⟨cidrs ++ cidrs', by rw [List.map_append], fun x => ?_⟩
  simp only [List.mem_append, or_and_right, exists_or, hcover, hcover']
  rfl

/-- All that is collected covers what is wanted of any of the blacklists. -/
theorem namesExactly_union {ps : List Preparation} {sent : List ListConfig}
    (h : List.Forall₂ Preparation.Sent ps sent) :
    NamesExactly (sent.flatMap (·.ips)) {x | ∃ p ∈ ps, x ∈ p.wanted} := by
  induction h with
  | nil => exact ⟨[], rfl, by simp⟩
  | @cons p c ps sent hpc _ ih =>
    have hunion : {x | ∃ q ∈ p :: ps, x ∈ q.wanted} = p.wanted ∪ {x | ∃ q ∈ ps, x ∈ q.wanted} := by
      ext x
      simp
    rw [hunion, List.flatMap_cons]
    exact namesExactly_append hpc.2.2 ih

theorem prepareAll_dryrun (env : SetupEnv) (hdry : flags.dryrun = true) (ps : List Preparation) (out : SetupOutput) :
    (∃ out', prepareAll env flags ps out = some out') ↔ ∀ p ∈ ps, p.Ready flags := by
  have hready : ∀ p : Preparation, p.Ready flags ↔ (callEvents p.calls).length ≤ listRoom := by
    intro p
    refine ⟨fun h => h.fits, fun h => ⟨h, ?_, ?_, ?_, ?_⟩⟩ <;> rw [hdry] <;> simp
  induction ps generalizing out with
  | nil => exact ⟨fun _ p hp => absurd hp List.not_mem_nil, fun _ => ⟨out, rfl⟩⟩
  | cons p ps ih =>
    rw [List.forall_mem_cons, hready p, ← addCalls_create_iff p.name p.message, prepareAll, prepare]
    refine Iff.trans ?_ (and_congr_right fun _ => ih out)
    cases addCalls (blacklistCreate p.name p.message .list) p.calls with
    | none => simp
    | some b => simp [sendCurrent, hdry]

/-- The lists are prepared as the manual says exactly where every blacklist is ready. -/
theorem lists_prepared_iff (env : SetupEnv) (flags : SetupFlags) (lists : List ConfigValue) :
    (∃ out, setup env flags lists = some out ∧
        Prepared flags (preparations (listItems env 0 lists)) out) ↔
      ∀ p ∈ preparations (listItems env 0 lists), p.Ready flags := by
  have hsub : ∀ p ∈ preparations (listItems env 0 lists), ∀ r ∈ p.applied, r ∈ p.white :=
    fun p hp => applied_subset hp
  rw [setup_eq]
  cases hdry : flags.dryrun with
  | true =>
    rw [← prepareAll_dryrun env hdry _ ⟨[], [], none⟩]
    simp [Prepared, hdry]
  | false =>
    constructor
    · intro h
      obtain ⟨out, hrun, hprepared⟩ := h
      exact ready_of_prepareAll hdry hsub hrun (List.nil_append _).symm (hprepared hdry).1
    · intro h
      obtain ⟨out, sent, hrun, hadded⟩ := prepareAll_added hdry hsub h ⟨[], [], none⟩
      have hsent : out.sent = sent := hadded.sent_eq
      refine ⟨out, hrun, fun _ => ⟨hsent ▸ hadded.each, fun hgrey hne => ?_⟩⟩
      exact ⟨sent.flatMap (·.ips), by rw [hadded.handed hgrey hne, hadded.collected hgrey]; rfl,
        namesExactly_union hadded.each⟩

/-! ## A whitelist behind two blacklists -/

def localFeed : ConfigSection :=
  configSectionSet (configSectionCreate []) "file".toList (.str "feed".toList)

/-- Two blacklists and a whitelist, which holds the address of the first. -/
def seriesEnv : SetupEnv where
  config := { configCreate with
    blacklists := hashInsert (hashInsert (hashCreate configInitSections) "a".toList localFeed)
      "b".toList localFeed
    whitelists := hashInsert (hashCreate configInitSections) "w".toList localFeed }
  opened n _ := [some "10.0.0.1\n".toList, some "10.0.0.2\n".toList, some "10.0.0.1\n".toList].getD n none
  qsort := Qsort.merge

def seriesLists : List ConfigValue := [.str "a".toList, .str "b".toList, .str "w".toList]

/-- The whitelist behind a series is applied to its last blacklist only; and a blacklist whose
feed cannot be opened is walked through as NULL on its way to the firewall. -/
theorem series_not_prepared :
    (¬ ∃ out, setup seriesEnv ⟨false, true⟩ seriesLists = some out ∧
        Prepared ⟨false, true⟩ (preparations (listItems seriesEnv 0 seriesLists)) out) ∧
      setup { seriesEnv with opened := fun _ _ => none } ⟨false, false⟩ [.str "a".toList] = none := by
  constructor
  · intro h
    obtain ⟨out, hrun, hprepared⟩ := h
    rw [setup_eq] at hrun
    have hready := ready_of_prepareAll rfl (fun p hp => applied_subset hp) hrun
      (List.nil_append _).symm (hprepared rfl).1
    have hfirst : (preparations (listItems seriesEnv 0 seriesLists)).head?.map
        (fun p => (p.black, p.applied, p.white)) =
          some ([(0x0a000001, 0x0a000002)], [], [(0x0a000001, 0x0a000002)]) := by decide +kernel
    obtain ⟨p, hp, hranges⟩ := Option.map_eq_some_iff.mp hfirst
    simp only [Prod.mk.injEq] at hranges
    have hunlisted := (hready p (List.mem_of_head? hp)).unlisted rfl 0x0a000001
    rw [hranges.1, hranges.2.1, hranges.2.2] at hunlisted
    obtain ⟨r, hr, -⟩ := hunlisted ⟨_, List.mem_cons_self, by decide, by decide⟩
      ⟨_, List.mem_cons_self, by decide, by decide⟩
    cases hr
  · have hnone : (setup { seriesEnv with opened := fun _ _ => none } ⟨false, false⟩
        [.str "a".toList]).isNone = true := by decide +kernel
    exact Option.isNone_iff_eq_none.mp hnone

end Greyd
