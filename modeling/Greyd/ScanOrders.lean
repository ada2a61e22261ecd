import Greyd.PublishedLists
import Greyd.ScanAgreement

/-!
# The order of a scan (bdb.c)

The entries are kept in a hash file, whose cursor comes across them in an order of its own;
what a promotion stores may be met later in the same scan or not. Each address is looked at
alone: what its tuples become depends on the order only through its entry.
-/
namespace Greyd

/-- A way for the cursor to go: every record that is stored when the scan starts is met, and
a key comes again only where a promotion has stored the entry of the address anew. -/
structure ScanOrder (b : Bdb) where
  keys : List DbKey
  covers : ∀ key ∈ b.db, key ∈ keys
  again : ∀ before mid after key, keys = before ++ key :: (mid ++ key :: after) →
    ∃ gt : GreyTuple, key = .ip gt.ip ∧ .tuple gt ∈ mid

/-- No key comes twice. -/
def CursorOrder.scanOrder {b : Bdb} (order : CursorOrder b) : ScanOrder b where
  keys := order.keys
  covers := order.covers
  again before mid after key hkeys := by
    have hnodup : (key :: (mid ++ key :: after)).Nodup :=
      (hkeys ▸ order.nodup).of_append_right
    exact absurd (List.mem_append_right mid List.mem_cons_self) (List.nodup_cons.mp hnodup).1

/-- The sets of addresses on the lists and the entries left are the same. -/
structure SameResult (st st' : DbScan) : Prop where
  whitelist : ∀ ip, ip ∈ st.whitelist ↔ ip ∈ st'.whitelist
  whitelistIpv6 : ∀ ip, ip ∈ st.whitelistIpv6 ↔ ip ∈ st'.whitelistIpv6
  traplist : ∀ ip, ip ∈ st.traplist ↔ ip ∈ st'.traplist
  entries : ∀ key, st.db.entry key = st'.db.entry key

section Order

variable (checkAddr : CStr → Option SaFamily) (now whiteExp : Int) (b : Bdb)

/-- Two scans that are carried out to the end have the same result, whatever their orders. -/
def OrderFree : Prop :=
  ∀ (f : DbFaults) (order order' : ScanOrder b) (st st' : DbScan),
    modScanDb checkAddr f now whiteExp b order.keys = some st →
    modScanDb checkAddr f now whiteExp b order'.keys = some st' → SameResult st st'

/-- Nothing about the address depends on which of its passing tuples the scan meets first, nor
on whether it has met the entry of the address before: a live trap holds all of them back, or
there is no trap, and they leave the same data, which stay. -/
def Bdb.TuplesAlike (ip : CStr) : Prop :=
  ∀ gt gd, b.Promotes ip now gt gd → b.LiveTrap ip now ∨
    ¬ b.Trapped ip ∧ 0 < whiteExp ∧ ∀ gt' gd', b.Promotes ip now gt' gd' → gd.Alike gd'

end Order

section

variable {checkAddr : CStr → Option SaFamily} {now whiteExp : Int} {b : Bdb} {f : DbFaults}
  {st st' : DbScan} {keys : List DbKey} {key : DbKey} {ip : CStr} {gt : GreyTuple} {gd : GreyData}

/-! ## One entry -/

/-- A turn of the loop, as far as it concerns the entry of one key. -/
inductive EntryStep (now whiteExp : Int) (st : DbScan) (k : DbKey) (st' : DbScan) : DbKey → Prop
  | kept {key : DbKey} : st'.db.entry k = st.db.entry k →
      (key = k → ∀ gd, st.db.entry k = some gd → ¬ gd.Expired now) → EntryStep now whiteExp st k st' key
  | expired {gd : GreyData} : st.db.entry k = some gd → gd.Expired now → st'.db.entry k = none →
      EntryStep now whiteExp st k st' k
  | tuple {gt : GreyTuple} {gd : GreyData} : k = .tuple gt → st.db.Promotes gt.ip now gt gd → ¬ st.db.Trapped gt.ip →
      st'.db.entry k = none → EntryStep now whiteExp st k st' (.tuple gt)
  | ip {gt : GreyTuple} {gd : GreyData} : k = .ip gt.ip → st.db.Promotes gt.ip now gt gd →
      st'.db.entry k = some (gd.whitened (now + whiteExp)) → EntryStep now whiteExp st k st' (.tuple gt)

theorem ScanStep.entryStep (h : ScanStep checkAddr now whiteExp st key st') (k : DbKey)
    (hforeign : ∀ gd, key = k → (∀ ip, k ≠ .ip ip) → (∀ gt, k ≠ .tuple gt) →
      st.db.entry k = some gd → gd.Expired now → st'.db.entry k = none) :
    EntryStep now whiteExp st k st' key := by
  cases h with
  | absent h0 =>
    refine .kept rfl ?_
    intro hk gd he
    subst hk
    exact absurd (h0.symm.trans he) (by simp)
  | @expired key gd h0 hx =>
    by_cases hk : key = k
    · subst hk
      exact .expired h0 hx (by simp [entry_dropEntry])
    · exact .kept (by simp [entry_dropEntry, Ne.symm hk]) fun heq => absurd heq hk
  | trap h0 hx | white h0 hx | waiting h0 hx | blocked h0 hx =>
    refine .kept (by simp) ?_
    intro hk gd he
    subst hk
    exact Option.some.inj (h0.symm.trans he) ▸ hx
  | @promote gt gd h0 hx hr hnt =>
    have hprom : st.db.Promotes gt.ip now gt gd := ⟨rfl, h0, (gd.passing_iff now).mpr ⟨hx, hr⟩⟩
    by_cases hk : k = .tuple gt
    · exact .tuple hk hprom hnt (by simp [entry_promoted, hk])
    · by_cases hip : k = .ip gt.ip
      · exact .ip hip hprom (by simp [entry_promoted, hip])
      · exact .kept (by simp [entry_promoted, hk, hip]) fun heq => absurd heq.symm hk
  | @foreign key gd h0 hip htup =>
    by_cases hk : key = k ∧ gd.Expired now
    · obtain ⟨rfl, hx⟩ := hk
      exact .expired h0 hx (hforeign gd rfl hip htup h0 hx)
    · refine .kept rfl ?_
      intro heq gd' he hx
      subst heq
      exact hk ⟨rfl, Option.some.inj (h0.symm.trans he) ▸ hx⟩

theorem scanKey_entryStep (h : scanKey checkAddr f now whiteExp st key = some st') (k : DbKey) :
    EntryStep now whiteExp st k st' key := by
  apply (scanKey_step h).entryStep k
  intro gd hk _ _ he hx
  subst hk
  unfold scanKey at h
  rw [show st.db.db.lookup key = some gd from he] at h
  dsimp only [scanRecord] at h
  rw [if_pos (show gd.expire ≤ now ∧ gd.pcount > -2 from hx)] at h
  unfold modDbItrDelCurr at h
  split at h
  · cases h
  · cases h
    exact entry_dropEntry st.db key key ▸ if_pos rfl

/-- The invariant rule, for turns that succeed. -/
theorem scanKeys_keep {I : DbScan → Prop}
    (inv : ∀ st st' key, scanKey checkAddr f now whiteExp st key = some st' → I st → I st')
    (h : scanKeys checkAddr f now whiteExp st keys = some st') (hst : I st) : I st' := by
  induction keys generalizing st with
  | nil =>
    cases h
    exact hst
  | cons key keys ih =>
    obtain ⟨mid, hmid, hrest⟩ := Option.bind_eq_some_iff.mp h
    exact ih hrest (inv st mid key hmid hst)

/-- What the turn at a key brings about, and later turns keep, holds in the end, if the entry
stays until then. -/
theorem scanKeys_turn {I G : DbScan → Prop} {k : DbKey}
    (inv : ∀ st st' key, scanKey checkAddr f now whiteExp st key = some st' → I st → I st')
    (mono : ∀ st st' key, scanKey checkAddr f now whiteExp st key = some st' → I st → G st → G st')
    (turn : ∀ st st' key, scanKey checkAddr f now whiteExp st key = some st' → I st →
      st.db.entry k = some gd → G st' ∨ key ≠ k ∧ st'.db.entry k = some gd)
    (h : scanKeys checkAddr f now whiteExp st keys = some st') (hst : I st) (hkey : k ∈ keys)
    (he : st.db.entry k = some gd) : G st' := by
  induction keys generalizing st with
  | nil => exact absurd hkey List.not_mem_nil
  | cons key keys ih =>
    obtain ⟨mid, hmid, hrest⟩ := Option.bind_eq_some_iff.mp h
    have hI := inv st mid key hmid hst
    rcases turn st mid key hmid hst he with hG | ⟨hne, hkept⟩
    · have hend : I st' ∧ G st' := scanKeys_keep (I := fun st => I st ∧ G st)
        (fun st st' key hs hIG => ⟨inv st st' key hs hIG.1, mono st st' key hs hIG.1 hIG.2⟩)
        hrest ⟨hI, hG⟩
      exact hend.2
    · exact ih hrest hI ((List.mem_cons.mp hkey).resolve_left (Ne.symm hne)) hkept

/-! ## Entries that no promotion stores -/

/-- Of the tuples of the address whose entry it is, those left are among those of `b`. -/
def Bdb.FewerAt (b b' : Bdb) (k : DbKey) : Prop := ∀ ip, k = .ip ip → b.FewerTuples b' ip

section Quiet

variable {k : DbKey}

theorem scanKey_fewerAt (h : scanKey checkAddr f now whiteExp st key = some st')
    (hst : b.FewerAt st.db k) : b.FewerAt st'.db k := by
  intro ip hk
  exact (hst ip hk).trans ((scanKey_step h).fewerTuples ip)

variable (hquiet : ∀ ip, k = .ip ip → ¬ b.PassingTuple ip now)
  (h : scanKeys checkAddr f now whiteExp ⟨b, [], [], []⟩ keys = some st)

include hquiet

theorem not_promotes_of_quiet (hst : b.FewerAt st.db k) (hk : k = .ip gt.ip) :
    ¬ st.db.Promotes gt.ip now gt gd := by
  intro hprom
  exact hquiet gt.ip hk ((hst gt.ip hk).passing ⟨gt, gd, hprom⟩)

theorem quiet_none_step (h : scanKey checkAddr f now whiteExp st key = some st')
    (hst : b.FewerAt st.db k) (hnone : st.db.entry k = none) : st'.db.entry k = none := by
  cases scanKey_entryStep h k with
  | kept he => exact he.trans hnone
  | expired _ _ he => exact he
  | tuple _ _ _ he => exact he
  | ip hk hprom => exact absurd hprom (not_promotes_of_quiet hquiet hst hk)

include h

theorem scanKeys_none (hnone : b.entry k = none) : st.db.entry k = none := by
  have hend : b.FewerAt st.db k ∧ st.db.entry k = none :=
    scanKeys_keep (I := fun st => b.FewerAt st.db k ∧ st.db.entry k = none)
      (fun _ _ _ hs hI => ⟨scanKey_fewerAt hs hI.1, quiet_none_step hquiet hs hI.1 hI.2⟩) h
      ⟨fun _ _ => .refl b _, hnone⟩
  exact hend.2

/-- An expired entry is gone, whenever the cursor meets it. -/
theorem scanKeys_expired (hkey : k ∈ keys) (he : b.entry k = some gd) (hx : gd.Expired now) :
    st.db.entry k = none := by
  apply scanKeys_turn (I := fun st => b.FewerAt st.db k) (fun _ _ _ hs hI => scanKey_fewerAt hs hI)
    (fun _ _ _ hs hI hG => quiet_none_step hquiet hs hI hG) _ h (fun _ _ => .refl b _) hkey he
  intro st st' key hs hI he
  cases scanKey_entryStep hs k with
  | kept hent hlive => exact .inr ⟨fun hk => hlive hk gd he hx, hent.trans he⟩
  | expired _ _ hnone => exact .inl hnone
  | tuple _ _ _ hnone => exact .inl hnone
  | ip hk hprom => exact absurd hprom (not_promotes_of_quiet hquiet hI hk)

/-- A live entry stays, if it is not that of a tuple, or of one that must wait, or whose
address has a live trap. -/
theorem scanKeys_kept (he : b.entry k = some gd) (hx : ¬ gd.Expired now)
    (hheld : ∀ gt, k = .tuple gt → gd.Passing now → b.LiveTrap gt.ip now) :
    st.db.entry k = some gd := by
  have hend : b.FewerAt st.db k ∧ (∀ gt, k = .tuple gt → gd.Passing now → st.db.LiveTrap gt.ip now) ∧
      st.db.entry k = some gd := by
    apply scanKeys_keep (I := fun st => b.FewerAt st.db k ∧
      (∀ gt, k = .tuple gt → gd.Passing now → st.db.LiveTrap gt.ip now) ∧ st.db.entry k = some gd) _ h
      ⟨fun _ _ => .refl b _, hheld, he⟩
    intro st st' key hs ⟨hfew, hheld, he⟩
    refine ⟨scanKey_fewerAt hs hfew, ?_, ?_⟩
    · intro gt hk hp
      obtain ⟨trap, htrap, hcount, hlive⟩ := hheld gt hk hp
      exact ⟨trap, ((scanKey_step hs).live_trap htrap hcount hlive).1, hcount, hlive⟩
    · cases scanKey_entryStep hs k with
      | kept hent => exact hent.trans he
      | expired h0 hx' => exact absurd (Option.some.inj (h0.symm.trans he) ▸ hx') hx
      | @tuple gt gd' hk hprom hnt =>
        subst hk
        have hgd : gd' = gd := Option.some.inj (hprom.2.1.symm.trans he)
        obtain ⟨trap, htrap, hcount, -⟩ := hheld gt rfl (hgd ▸ hprom.2.2)
        exact absurd ⟨trap, htrap, hcount⟩ hnt
      | ip hk hprom => exact absurd hprom (not_promotes_of_quiet hquiet hfew hk)
  exact hend.2.2

end Quiet

/-! ## One address -/

/-- Passing tuples that are alike leave their address the data they have in common. -/
theorem scanKeys_alike (h : scanKeys checkAddr f now whiteExp ⟨b, [], [], []⟩ keys = some st)
    (hkey : .tuple gt ∈ keys) (hprom : b.Promotes ip now gt gd) (hnt : ¬ b.Trapped ip)
    (hwhite : 0 < whiteExp) (hsame : ∀ gt' gd', b.Promotes ip now gt' gd' → gd.Alike gd') :
    st.db.entry (.ip ip) = some (gd.whitened (now + whiteExp)) := by
  obtain ⟨rfl, he, hp⟩ := hprom
  apply scanKeys_turn (I := fun st => b.FewerTuples st.db gt.ip ∧ ¬ st.db.Trapped gt.ip) _ _ _ h
    ⟨.refl b _, hnt⟩ hkey he
  · intro st st' key hs hI
    exact ⟨hI.1.trans ((scanKey_step hs).fewerTuples gt.ip),
      ((scanKey_step hs).address gt.ip).not_trapped hI.2⟩
  · intro st st' key hs hI hent
    have hstays : now < (gd.whitened (now + whiteExp)).expire := by
      show now < now + whiteExp
      omega
    cases scanKey_entryStep hs (.ip gt.ip) with
    | kept heq => exact heq.trans hent
    | expired h0 hx =>
      have := hx.1
      rw [Option.some.inj (h0.symm.trans hent)] at this
      omega
    | tuple hk => cases hk
    | @ip gt' gd' hk hprom heq =>
      have hip : gt'.ip = gt.ip := (DbKey.ip.inj hk).symm
      have hstart : b.Promotes gt.ip now gt' gd' := by
        rcases hI.1 gt' hip with hold | hnone
        · exact ⟨hip, hold ▸ hprom.2.1, hprom.2.2⟩
        · exact absurd (hnone.symm.trans hprom.2.1) (by simp)
      rw [heq, (GreyData.whitened_inj (now + whiteExp)).mpr (hsame gt' gd' hstart)]
  · intro st st' key hs hI he
    exact ((scanKey_step hs).passing_tuple he hp hI.2).imp_left fun hall => hall.2.2.2

/-- All records are met, and the scan is carried out to the end. -/
def Bdb.ScannedBy (checkAddr : CStr → Option SaFamily) (now whiteExp : Int) (b : Bdb)
    (st : DbScan) : Prop :=
  ∃ f keys, (∀ key ∈ b.db, key ∈ keys) ∧
    scanKeys checkAddr f now whiteExp ⟨b, [], [], []⟩ keys = some st

theorem mem_of_covers (hcovers : ∀ key ∈ b.db, key ∈ keys) (he : b.entry key = some gd) :
    key ∈ keys := by
  apply hcovers
  rw [mem_iff_entry, he]
  exact Option.some_ne_none gd

theorem alike_tuple_gone (hst : b.ScannedBy checkAddr now whiteExp st)
    (hal : b.TuplesAlike now whiteExp gt.ip) (hprom : b.Promotes gt.ip now gt gd)
    (hno : ¬ b.LiveTrap gt.ip now) : st.db.entry (.tuple gt) = none := by
  obtain ⟨f, keys, hcovers, h⟩ := hst
  obtain ⟨hnt, -, -⟩ := (hal gt gd hprom).resolve_left hno
  exact (scanKeys_passing_tuple h (mem_of_covers hcovers hprom.2.1) hprom.2.1 hprom.2.2 hnt).2.2

/-- An entry of a key that no promotion stores has one fate. -/
theorem alike_quiet_entry (hal : ∀ ip, b.TuplesAlike now whiteExp ip) (k : DbKey)
    (hquiet : ∀ ip, k = .ip ip → ¬ b.PassingTuple ip now) :
    ∃ own, ∀ st, b.ScannedBy checkAddr now whiteExp st → st.db.entry k = own := by
  cases he : b.entry k with
  | none =>
    refine ⟨none, ?_⟩
    intro st ⟨f, keys, _, h⟩
    exact scanKeys_none hquiet h he
  | some gd =>
    by_cases hx : gd.Expired now
    · refine ⟨none, ?_⟩
      intro st ⟨f, keys, hcovers, h⟩
      exact scanKeys_expired hquiet h (mem_of_covers hcovers he) he hx
    · by_cases hheld : ∀ gt, k = .tuple gt → gd.Passing now → b.LiveTrap gt.ip now
      · refine ⟨some gd, ?_⟩
        intro st ⟨f, keys, _, h⟩
        exact scanKeys_kept hquiet h he hx hheld
      · refine ⟨none, ?_⟩
        intro st hst
        push Not at hheld
        obtain ⟨gt, rfl, hp, hno⟩ := hheld
        exact alike_tuple_gone hst (hal gt.ip) ⟨rfl, he, hp⟩ hno

theorem alike_entry (hal : ∀ ip, b.TuplesAlike now whiteExp ip) (k : DbKey) :
    ∃ own, ∀ st, b.ScannedBy checkAddr now whiteExp st → st.db.entry k = own := by
  by_cases hquiet : ∀ ip, k = .ip ip → ¬ b.PassingTuple ip now
  · exact alike_quiet_entry hal k hquiet
  · push Not at hquiet
    obtain ⟨ip, rfl, gt, gd, hprom⟩ := hquiet
    rcases hal ip gt gd hprom with ⟨trap, htrap, hcount, hlive⟩ | ⟨hnt, hwhite, hsame⟩
    · refine ⟨some trap, ?_⟩
      intro st ⟨f, keys, _, h⟩
      exact (scanKeys_live_trap h htrap hcount hlive).1
    · refine ⟨some (gd.whitened (now + whiteExp)), ?_⟩
      intro st ⟨f, keys, hcovers, h⟩
      exact scanKeys_alike h (mem_of_covers hcovers hprom.2.1) hprom hnt hwhite hsame

/-- The traplist has the addresses with a live trap. -/
theorem scanned_traplist (hst : b.ScannedBy checkAddr now whiteExp st) :
    ip ∈ st.traplist ↔ b.LiveTrap ip now := by
  obtain ⟨f, keys, hcovers, h⟩ := hst
  constructor
  · intro hip
    exact (scanKeys_justified h (by simp [DbScan.Lists, DbScan.whitelistOf])
      List.not_mem_nil).2 hip
  · rintro ⟨gd, he, hcount, hlive⟩
    exact (scanKeys_live_trap h he hcount hlive).2.2 (.inl (mem_of_covers hcovers he))

/-- Listed are the other addresses with an entry that passes, or with tuples that do. -/
theorem alike_lists (hst : b.ScannedBy checkAddr now whiteExp st)
    (hal : b.TuplesAlike now whiteExp ip) :
    st.Lists checkAddr ip ↔ b.ListsAt ip now ∧ ¬ b.LiveTrap ip now := by
  obtain ⟨f, keys, hcovers, h⟩ := hst
  constructor
  · intro hl
    refine ⟨(scanKeys_justified h (by simp [DbScan.Lists, DbScan.whitelistOf])
      List.not_mem_nil).1 hl, ?_⟩
    rintro ⟨gd, he, hcount, hlive⟩
    have hwhite : ip ∈ st.whites := by
      unfold DbScan.Lists DbScan.whitelistOf at hl
      unfold DbScan.whites
      split at hl
      · exact List.mem_append_right _ hl
      · exact List.mem_append_left _ hl
    exact absurd ((scanKeys_live_trap h he hcount hlive).2.1 hwhite) (by simp [DbScan.whites])
  · rintro ⟨⟨gd, he, hp⟩ | ⟨gt, gd, hprom⟩, hno⟩
    · have hnt : ¬ b.Trapped ip := by
        rintro ⟨gd', he', hcount⟩
        rw [Option.some.inj (he'.symm.trans he)] at hcount
        exact absurd hp.1 (by omega)
      exact scanKeys_passing_ip h (mem_of_covers hcovers he) he hp hnt
    · obtain ⟨hnt, -, -⟩ := (hal gt gd hprom).resolve_left hno
      obtain ⟨rfl, he, hp⟩ := hprom
      exact (scanKeys_passing_tuple h (mem_of_covers hcovers he) he hp hnt).1

theorem alike_sameResult (hal : ∀ ip, b.TuplesAlike now whiteExp ip)
    (hst : b.ScannedBy checkAddr now whiteExp st) (hst' : b.ScannedBy checkAddr now whiteExp st') :
    SameResult st st' := by
  have hlists : ∀ ip, st.Lists checkAddr ip ↔ st'.Lists checkAddr ip := fun ip =>
    (alike_lists hst (hal ip)).trans (alike_lists hst' (hal ip)).symm
  obtain ⟨f, keys, -, h⟩ := id hst
  obtain ⟨f', keys', -, h'⟩ := id hst'
  refine ⟨fun ip => ?_, fun ip => ?_, fun ip => ?_, fun key => ?_⟩
  · rw [(scanKeys_families h).1, (scanKeys_families h').1, hlists]
  · rw [(scanKeys_families h).2, (scanKeys_families h').2, hlists]
  · exact (scanned_traplist hst).trans (scanned_traplist hst').symm
  · obtain ⟨own, hown⟩ := alike_entry hal key
    rw [hown st hst, hown st' hst']

/-! ## Two orders for every other content -/

/-- What freedom of order gives for two orders in which no key comes twice. -/
theorem OrderFree.same (hfree : OrderFree checkAddr now whiteExp b) (order order' : CursorOrder b) :
    ∃ st st', modScanDb checkAddr .none now whiteExp b order.keys = some st ∧
      modScanDb checkAddr .none now whiteExp b order'.keys = some st' ∧ SameResult st st' := by
  obtain ⟨st, hst⟩ := @scanKeys_total checkAddr now whiteExp ⟨b, [], [], []⟩ order.keys
  obtain ⟨st', hst'⟩ := @scanKeys_total checkAddr now whiteExp ⟨b, [], [], []⟩ order'.keys
  exact ⟨st, st', hst, hst', hfree .none order.scanOrder order'.scanOrder st st' hst hst'⟩

/-- A tuple that comes before the expired trap of its address stays, one that comes after it is
promoted. -/
theorem OrderFree.not_trapped (hfree : OrderFree checkAddr now whiteExp b)
    (hprom : b.Promotes ip now gt gd) (hno : ¬ b.LiveTrap ip now) : ¬ b.Trapped ip := by
  rintro ⟨trap, htrap, hcount⟩
  obtain ⟨rfl, he, hp⟩ := hprom
  have hx : trap.Expired now := by
    refine ⟨not_lt.mp fun hlive => hno ⟨trap, htrap, hcount, hlive⟩, ?_⟩
    omega
  obtain ⟨st, st', hst, hst', hsame⟩ :=
    hfree.same (b.startingAt (.tuple gt)) (b.startingAt (.ip gt.ip))
  have hkept : st.db.entry (.tuple gt) = some gd := by
    obtain ⟨mid, hmid, hrest⟩ := Option.bind_eq_some_iff.mp hst
    have hturn := (scanKey_step hmid).tuple_kept he ((gd.passing_iff now).mp hp).1
      (.inr ⟨trap, htrap, hcount⟩)
    exact (scanKeys_entry_tuple hrest b.db.keys_nodup.not_mem_erase).trans hturn
  have hgone : st'.db.entry (.tuple gt) = none := by
    obtain ⟨mid, hmid, hrest⟩ := Option.bind_eq_some_iff.mp hst'
    have hstep := scanKey_step hmid
    have hnt : ¬ mid.db.Trapped gt.ip := by
      rintro ⟨gd', he', -⟩
      exact absurd (he'.symm.trans (hstep.ip_expired htrap hx)) (by simp)
    have hmid_entry : mid.db.entry (.tuple gt) = some gd :=
      (hstep.entry_other_tuple (by simp)).trans he
    have hkey : DbKey.tuple gt ∈ b.db.keys.erase (.ip gt.ip) :=
      (List.mem_erase_of_ne (by simp)).mpr (b.cursor.mem he)
    exact (scanKeys_passing_tuple hrest hkey hmid_entry hp hnt).2.2
  exact absurd (hkept.symm.trans ((hsame.entries _).trans hgone)) (by simp)

/-- The tuple that comes last leaves its data. -/
theorem endingAt_entry (hnt : ¬ b.Trapped ip) (hprom : b.Promotes ip now gt gd)
    (h : modScanDb checkAddr f now whiteExp b (b.endingAt (.tuple gt)).keys = some st) :
    st.db.entry (.ip ip) = some (gd.whitened (now + whiteExp)) := by
  obtain ⟨rfl, he, hp⟩ := hprom
  have hsplit := @scanKeys_append checkAddr now whiteExp f ⟨b, [], [], []⟩
    (b.db.keys.erase (.tuple gt)) [.tuple gt]
  obtain ⟨mid, hmid, hlast⟩ := Option.bind_eq_some_iff.mp (hsplit.symm.trans h)
  obtain ⟨st', hturn, hend⟩ := Option.bind_eq_some_iff.mp hlast
  cases hend
  have hmid_nt : ¬ mid.db.Trapped gt.ip := scanKeys_keep (I := fun st => ¬ st.db.Trapped gt.ip)
    (fun _ _ _ hs hI => ((scanKey_step hs).address gt.ip).not_trapped hI) hmid hnt
  have hmid_entry : mid.db.entry (.tuple gt) = some gd :=
    (scanKeys_entry_tuple hmid b.db.keys_nodup.not_mem_erase).trans he
  rcases (scanKey_step hturn).passing_tuple hmid_entry hp hmid_nt with ⟨-, -, -, hown⟩ | ⟨hne, -⟩
  · exact hown
  · exact absurd rfl hne

/-- A white entry that is expired from the start is taken away if the cursor meets it again. -/
theorem endingAt_ip_none (hnt : ¬ b.Trapped gt.ip) (hprom : b.Promotes gt.ip now gt gd)
    (hwhite : whiteExp ≤ 0)
    (h : modScanDb checkAddr f now whiteExp b (b.endingAt (.ip gt.ip)).keys = some st) :
    st.db.entry (.ip gt.ip) = none := by
  have hsplit := @scanKeys_append checkAddr now whiteExp f ⟨b, [], [], []⟩
    (b.db.keys.erase (.ip gt.ip)) [.ip gt.ip]
  obtain ⟨mid, hmid, hlast⟩ := Option.bind_eq_some_iff.mp (hsplit.symm.trans h)
  obtain ⟨st', hturn, hend⟩ := Option.bind_eq_some_iff.mp hlast
  cases hend
  have hkey : DbKey.tuple gt ∈ b.db.keys.erase (.ip gt.ip) :=
    (List.mem_erase_of_ne (by simp)).mpr (b.cursor.mem hprom.2.1)
  obtain ⟨-, hrenewed, -⟩ := scanKeys_passing_tuple hmid hkey hprom.2.1 hprom.2.2 hnt
  rcases hrenewed with ⟨own, hown, hpos, -, hexp⟩ | ⟨-, hnone⟩
  · exact (scanKey_step hturn).ip_expired hown ⟨by omega, by omega⟩
  · exact (scanKey_step hturn).ip_absent hnone

theorem OrderFree.tuplesAlike (hfree : OrderFree checkAddr now whiteExp b) (ip : CStr) :
    b.TuplesAlike now whiteExp ip := by
  intro gt gd hprom
  by_cases hno : b.LiveTrap ip now
  · exact .inl hno
  · have hnt := hfree.not_trapped hprom hno
    refine .inr ⟨hnt, ?_, ?_⟩
    · by_contra hwhite
      obtain rfl : gt.ip = ip := hprom.1
      obtain ⟨st, st', hst, hst', hsame⟩ :=
        hfree.same (b.endingAt (.tuple gt)) (b.endingAt (.ip gt.ip))
      have hnone := endingAt_ip_none hnt hprom (not_lt.mp hwhite) hst'
      exact absurd ((endingAt_entry hnt hprom hst).symm.trans ((hsame.entries _).trans hnone))
        (by simp)
    · intro gt' gd' hprom'
      obtain ⟨st, st', hst, hst', hsame⟩ :=
        hfree.same (b.endingAt (.tuple gt)) (b.endingAt (.tuple gt'))
      have hown := (endingAt_entry hnt hprom hst).symm.trans
        ((hsame.entries _).trans (endingAt_entry hnt hprom' hst'))
      exact (GreyData.whitened_inj (now + whiteExp)).mp (Option.some.inj hown)

end

/-- A scan does not depend on its order exactly if, at every address, a live trap holds back
the tuples that pass, or there is no trap and they leave the same data, which stay. -/
theorem orderFree_iff (checkAddr : CStr → Option SaFamily) (now whiteExp : Int) (b : Bdb) :
    OrderFree checkAddr now whiteExp b ↔ ∀ ip, b.TuplesAlike now whiteExp ip := by
  constructor
  · intro hfree ip
    exact hfree.tuplesAlike ip
  · intro hal f order order' st st' h h'
    exact alike_sameResult hal ⟨f, order.keys, order.covers, h⟩ ⟨f, order'.keys, order'.covers, h'⟩

/-! ## An expired trap and a tuple that passes -/

/-- The trap of the address expires at 10; a tuple of the address may pass. -/
def expiredTrapBdb : Bdb :=
  (Bdb.empty.putEntry (.tuple anotherTry) ⟨0, 5, 100, 2, 0⟩).putEntry (.ip "10.0.0.1".toList)
    ⟨0, 10, 10, 1, -1⟩

/-- Met first, the tuple is ignored; met after the trap, it whitelists the address. -/
theorem expired_trap_order : ¬ OrderFree (fun _ => some afInet) 10 3600 expiredTrapBdb := by
  intro hfree
  obtain ⟨st, st', hst, hst', hsame⟩ := hfree.same (expiredTrapBdb.startingAt (.tuple anotherTry))
    (expiredTrapBdb.startingAt (.ip "10.0.0.1".toList))
  have hnot : (modScanDb (fun _ => some afInet) .none 10 3600 expiredTrapBdb
      (expiredTrapBdb.startingAt (.tuple anotherTry)).keys).map DbScan.whitelist = some [] := by
    decide +kernel
  have hlisted : (modScanDb (fun _ => some afInet) .none 10 3600 expiredTrapBdb
      (expiredTrapBdb.startingAt (.ip "10.0.0.1".toList)).keys).map DbScan.whitelist =
        some ["10.0.0.1".toList] := by
    decide +kernel
  rw [hst, Option.map_some, Option.some.injEq] at hnot
  rw [hst', Option.map_some, Option.some.injEq] at hlisted
  have hmem := (hsame.whitelist "10.0.0.1".toList).mpr (by rw [hlisted]; exact List.mem_cons_self)
  rw [hnot] at hmem
  exact absurd hmem List.not_mem_nil

end Greyd
