import Greyd.AddressSteps

/-!
# What a cursor leaves (bdb.c)

A scan by cursor seen from one key. The cursor comes across a key once, and until then
nothing but the tuples of an address touch its entry; so what becomes of an entry is
decided by the one turn at its key. The tuples an address promotes leave it the data of one
of them.
-/
namespace Greyd

variable {checkAddr : CStr → Option SaFamily} {f : DbFaults} {now whiteExp : Int}
  {st st' : DbScan} {key k : DbKey} {keys : List DbKey} {gt : GreyTuple} {gd : GreyData}
  {ip : CStr}

/-- The turn at a key decides about its entry, if no other turn does. -/
theorem scanKeys_visit {I : DbScan → Prop}
    (inv : ∀ st st' key, ScanStep checkAddr now whiteExp st key st' → I st → I st')
    (other : ∀ st st' key, ScanStep checkAddr now whiteExp st key st' → I st → key ≠ k →
      st'.db.entry k = st.db.entry k)
    (h : scanKeys checkAddr f now whiteExp st keys = some st') (hst : I st) (hnodup : keys.Nodup)
    (hkey : k ∈ keys) :
    ∃ mid mid', I mid ∧ mid.db.entry k = st.db.entry k ∧ ScanStep checkAddr now whiteExp mid k mid' ∧
      st'.db.entry k = mid'.db.entry k := by
  induction keys generalizing st with
  | nil => exact absurd hkey List.not_mem_nil
  | cons key keys ih =>
    obtain ⟨mid, hmid, hrest⟩ := Option.bind_eq_some_iff.mp h
    have hstep := scanKey_step hmid
    obtain ⟨hnot, hnodup⟩ := List.nodup_cons.mp hnodup
    by_cases hk : key = k
    · subst hk
      refine ⟨st, mid, hst, rfl, hstep, ?_⟩
      exact (@scanKeys_induct _ _ _ _ _ _ (fun s => I s ∧ s.db.entry key = mid.db.entry key) keys
        (fun s s' k' hk' hs hI => ⟨inv s s' k' hs hI.1, (other s s' k' hs hI.1
          fun heq => hnot (heq ▸ hk')).trans hI.2⟩) hrest ⟨inv st mid key hstep hst, rfl⟩).2
    · obtain ⟨m, m', hI, hm, hs, hend⟩ := ih hrest (inv st mid key hstep hst) hnodup
        ((List.mem_cons.mp hkey).resolve_left (Ne.symm hk))
      exact ⟨m, m', hI, hm.trans (other st mid key hstep hst hk), hs, hend⟩

/-! ## The entry of a tuple -/

theorem scanKeys_visit_tuple (h : scanKeys checkAddr f now whiteExp st keys = some st')
    (hnodup : keys.Nodup) (hkey : .tuple gt ∈ keys) :
    ∃ mid mid', mid.db.entry (.tuple gt) = st.db.entry (.tuple gt) ∧
      ScanStep checkAddr now whiteExp mid (.tuple gt) mid' ∧
      st'.db.entry (.tuple gt) = mid'.db.entry (.tuple gt) := by
  obtain ⟨mid, mid', -, hmid⟩ := @scanKeys_visit _ _ _ _ _ _ (.tuple gt) _ (fun _ => True)
    (fun _ _ _ _ _ => trivial) (fun _ _ _ hstep _ hk => hstep.entry_other_tuple hk) h trivial
    hnodup hkey
  exact ⟨mid, mid', hmid⟩

theorem ScanStep.tuple_expired (h : ScanStep checkAddr now whiteExp st (.tuple gt) st')
    (he : st.db.entry (.tuple gt) = some gd) (hx : gd.Expired now) :
    st'.db.entry (.tuple gt) = none := by
  cases h with
  | absent h0 => exact h0
  | expired => simp [entry_dropEntry]
  | promote => simp [entry_promoted]
  | waiting h0 hnx =>
    rw [he] at h0; cases h0
    exact absurd hx hnx
  | blocked h0 hnx =>
    rw [he] at h0; cases h0
    exact absurd hx hnx
  | foreign _ _ hk => exact absurd rfl (hk gt)

/-- A tuple that is neither expired nor passing, or whose address is trapped, stays. -/
theorem ScanStep.tuple_kept (h : ScanStep checkAddr now whiteExp st (.tuple gt) st')
    (he : st.db.entry (.tuple gt) = some gd) (hnx : ¬ gd.Expired now)
    (hwait : ¬ gd.Ready now ∨ st.db.Trapped gt.ip) : st'.db.entry (.tuple gt) = some gd := by
  cases h with
  | absent h0 =>
    rw [he] at h0; cases h0
  | expired h0 hx =>
    rw [he] at h0; cases h0
    exact absurd hx hnx
  | promote h0 _ hr hnt =>
    rw [he] at h0; cases h0
    exact (hwait.elim (fun hno => hno hr) hnt).elim
  | waiting | blocked | foreign => exact he

theorem scanKeys_tuple_expired (h : scanKeys checkAddr f now whiteExp st keys = some st')
    (hnodup : keys.Nodup) (hkey : .tuple gt ∈ keys) (he : st.db.entry (.tuple gt) = some gd)
    (hx : gd.Expired now) : st'.db.entry (.tuple gt) = none := by
  obtain ⟨mid, mid', hmid, hstep, hend⟩ := scanKeys_visit_tuple h hnodup hkey
  rw [hend]
  exact hstep.tuple_expired (hmid.trans he) hx

theorem scanKeys_tuple_waiting (h : scanKeys checkAddr f now whiteExp st keys = some st')
    (hnodup : keys.Nodup) (hkey : .tuple gt ∈ keys) (he : st.db.entry (.tuple gt) = some gd)
    (hnx : ¬ gd.Expired now) (hnr : ¬ gd.Ready now) : st'.db.entry (.tuple gt) = some gd := by
  obtain ⟨mid, mid', hmid, hstep, hend⟩ := scanKeys_visit_tuple h hnodup hkey
  rw [hend]
  exact hstep.tuple_kept (hmid.trans he) hnx (.inl hnr)

/-- The tuples of an address with a live trap stay. -/
theorem scanKeys_tuple_trapped {trap : GreyData}
    (h : scanKeys checkAddr f now whiteExp st keys = some st')
    (hnodup : keys.Nodup) (hkey : .tuple gt ∈ keys) (he : st.db.entry (.tuple gt) = some gd)
    (hnx : ¬ gd.Expired now) (htrap : st.db.entry (.ip gt.ip) = some trap) (hp : trap.pcount = -1)
    (hlive : now < trap.expire) : st'.db.entry (.tuple gt) = some gd := by
  obtain ⟨mid, mid', hI, hmid, hstep, hend⟩ := @scanKeys_visit _ _ _ _ _ _ (.tuple gt) _
    (fun s => s.db.entry (.ip gt.ip) = some trap)
    (fun _ _ _ hstep hI => (hstep.live_trap hI hp hlive).1)
    (fun _ _ _ hstep _ hk => hstep.entry_other_tuple hk) h htrap hnodup hkey
  rw [hend]
  exact hstep.tuple_kept (hmid.trans he) hnx (.inr ⟨trap, hI, hp⟩)

/-! ## The entry of an address -/

/-- Without a tuple to promote, only the turn at an address touches its entry. -/
theorem scanKeys_visit_ip (h : scanKeys checkAddr f now whiteExp st keys = some st')
    (hquiet : ¬ st.db.PassingTuple ip now) (hnodup : keys.Nodup) (hkey : .ip ip ∈ keys) :
    ∃ mid mid', mid.db.entry (.ip ip) = st.db.entry (.ip ip) ∧
      ScanStep checkAddr now whiteExp mid (.ip ip) mid' ∧
      st'.db.entry (.ip ip) = mid'.db.entry (.ip ip) := by
  obtain ⟨mid, mid', -, hmid, hstep, hend⟩ := @scanKeys_visit _ _ _ _ _ _ (.ip ip) _
    (fun s => st.db.FewerTuples s.db ip)
    (fun _ _ _ hstep hfew => hfew.trans (hstep.fewerTuples ip))
    (fun s s' key hstep hfew hk => by
      cases hstep.address ip with
      | keep he => exact he
      | expired => exact absurd rfl hk
      | trap => exact absurd rfl hk
      | white => exact absurd rfl hk
      | promote hgt h0 hp => exact absurd (hfew.passing ⟨_, _, hgt, h0, hp⟩) hquiet)
    h (.refl _ _) hnodup hkey
  exact ⟨mid, mid', hmid, hstep, hend⟩

theorem ScanStep.ip_expired (h : ScanStep checkAddr now whiteExp st (.ip ip) st')
    (he : st.db.entry (.ip ip) = some gd) (hx : gd.Expired now) :
    st'.db.entry (.ip ip) = none := by
  cases h with
  | absent h0 => exact h0
  | expired => simp [entry_dropEntry]
  | trap h0 hnx =>
    rw [he] at h0; cases h0
    exact absurd hx hnx
  | white h0 hnx =>
    rw [he] at h0; cases h0
    exact absurd hx hnx
  | waiting h0 hnx =>
    rw [he] at h0; cases h0
    exact absurd hx hnx
  | foreign _ hk => exact absurd rfl (hk ip)

theorem ScanStep.ip_absent (h : ScanStep checkAddr now whiteExp st (.ip ip) st')
    (he : st.db.entry (.ip ip) = none) : st'.db.entry (.ip ip) = none := by
  cases h with
  | absent | trap | waiting | foreign => exact he
  | white => simpa using he
  | expired => simp [entry_dropEntry]

theorem ScanStep.ip_kept (h : ScanStep checkAddr now whiteExp st (.ip ip) st')
    (he : st.db.entry (.ip ip) = some gd) (hnx : ¬ gd.Expired now) :
    st'.db.entry (.ip ip) = some gd := by
  cases h with
  | absent | trap | waiting | foreign => exact he
  | white => simpa using he
  | expired h0 hx =>
    rw [he] at h0; cases h0
    exact absurd hx hnx

theorem scanKeys_ip_expired (h : scanKeys checkAddr f now whiteExp st keys = some st')
    (hquiet : ¬ st.db.PassingTuple ip now) (hnodup : keys.Nodup) (hkey : .ip ip ∈ keys)
    (he : st.db.entry (.ip ip) = some gd) (hx : gd.Expired now) :
    st'.db.entry (.ip ip) = none := by
  obtain ⟨mid, mid', hmid, hstep, hend⟩ := scanKeys_visit_ip h hquiet hnodup hkey
  rw [hend]
  exact hstep.ip_expired (hmid.trans he) hx

theorem scanKeys_ip_kept (h : scanKeys checkAddr f now whiteExp st keys = some st')
    (hquiet : ¬ st.db.PassingTuple ip now) (hnodup : keys.Nodup) (hkey : .ip ip ∈ keys)
    (he : st.db.entry (.ip ip) = some gd) (hnx : ¬ gd.Expired now) :
    st'.db.entry (.ip ip) = some gd := by
  obtain ⟨mid, mid', hmid, hstep, hend⟩ := scanKeys_visit_ip h hquiet hnodup hkey
  rw [hend]
  exact hstep.ip_kept (hmid.trans he) hnx

/-- A tuple of the address that the scan at this time promotes. -/
def Bdb.Promotes (b : Bdb) (ip : CStr) (now : Int) (gt : GreyTuple) (gd : GreyData) : Prop :=
  gt.ip = ip ∧ b.entry (.tuple gt) = some gd ∧ gd.Passing now

/-- An address has the entry it had, or the data of a tuple it had. -/
theorem scanKeys_ip_cases (h : scanKeys checkAddr f now whiteExp st keys = some st')
    (he : st'.db.entry (.ip ip) = some gd) : st.db.entry (.ip ip) = some gd ∨
      ∃ gt data, st.db.Promotes ip now gt data ∧ gd = data.whitened (now + whiteExp) := by
  have hinv : st.db.FewerTuples st'.db ip ∧ ∀ gd, st'.db.entry (.ip ip) = some gd →
      st.db.entry (.ip ip) = some gd ∨
        ∃ gt data, st.db.Promotes ip now gt data ∧ gd = data.whitened (now + whiteExp) := by
    apply @scanKeys_induct _ _ _ _ _ _ (fun mid => st.db.FewerTuples mid.db ip ∧
      ∀ gd, mid.db.entry (.ip ip) = some gd → st.db.entry (.ip ip) = some gd ∨
        ∃ gt data, st.db.Promotes ip now gt data ∧ gd = data.whitened (now + whiteExp)) keys _ h
      ⟨.refl _ _, fun gd he => .inl he⟩
    intro st₁ st₂ key _ hstep ⟨hfew, hent⟩
    refine ⟨hfew.trans (hstep.fewerTuples ip), ?_⟩
    cases hstep.address ip with
    | keep he => rwa [he]
    | expired _ _ he => rw [he]; simp
    | trap h0 _ _ he => rwa [he, ← h0]
    | white h0 _ he => rwa [he, ← h0]
    | @promote gt data _ hgt h0 hp _ he =>
      rw [he]
      intro gd heq'
      rcases hfew gt hgt with heq | hnone
      · exact .inr ⟨gt, data, ⟨hgt, heq ▸ h0, hp⟩, (Option.some.inj heq').symm⟩
      · rw [hnone] at h0; cases h0
  exact hinv.2 gd he

/-- An address without a live entry has the data of one of the tuples it promoted. -/
theorem scanKeys_ip_promoted (h : scanKeys checkAddr f now whiteExp st keys = some st')
    (hkey : .tuple gt ∈ keys) (hp : st.db.Promotes ip now gt gd) (hnt : ¬ st.db.Trapped ip)
    (hno : ∀ gd, st.db.entry (.ip ip) = some gd → gd.expire ≤ now) (hwhite : 0 < whiteExp) :
    ∃ gt data, st.db.Promotes ip now gt data ∧
      st'.db.entry (.ip ip) = some (data.whitened (now + whiteExp)) := by
  obtain ⟨rfl, he, hpass⟩ := hp
  obtain ⟨-, hrenewed, -⟩ := scanKeys_passing_tuple h hkey he hpass hnt
  rcases hrenewed with ⟨own, hown, -, -, hexp⟩ | ⟨hle, -⟩
  · rcases scanKeys_ip_cases h hown with hold | ⟨gt', data, hprom, heq⟩
    · have := hno own hold
      omega
    · exact ⟨gt', data, hprom, heq ▸ hown⟩
  · omega

/-! ## The lists and the keys -/

/-- An address is on the whitelist of the family it is read as. -/
theorem scanKeys_families {b : Bdb}
    (h : scanKeys checkAddr f now whiteExp ⟨b, [], [], []⟩ keys = some st') :
    (ip ∈ st'.whitelist ↔ st'.Lists checkAddr ip ∧ checkAddr ip ≠ some afInet6) ∧
      (ip ∈ st'.whitelistIpv6 ↔ st'.Lists checkAddr ip ∧ checkAddr ip = some afInet6) := by
  have hinv : (∀ ip ∈ st'.whitelist, checkAddr ip ≠ some afInet6) ∧
      ∀ ip ∈ st'.whitelistIpv6, checkAddr ip = some afInet6 := by
    apply @scanKeys_induct _ _ _ _ _ _ (fun st => (∀ ip ∈ st.whitelist, checkAddr ip ≠ some afInet6) ∧
      ∀ ip ∈ st.whitelistIpv6, checkAddr ip = some afInet6) keys _ h
      ⟨by simp, by simp⟩
    intro st₁ st₂ key _ hstep hst
    have hwhite : ∀ ip', (∀ ip ∈ (st₁.white checkAddr ip').whitelist, checkAddr ip ≠ some afInet6) ∧
        ∀ ip ∈ (st₁.white checkAddr ip').whitelistIpv6, checkAddr ip = some afInet6 := by
      intro ip'
      unfold DbScan.white
      split
      · next h6 =>
        refine ⟨hst.1, fun ip hip => ?_⟩
        rcases List.mem_append.mp hip with hold | hnew
        · exact hst.2 ip hold
        · rwa [List.mem_singleton.mp hnew]
      · next h4 =>
        refine ⟨fun ip hip => ?_, hst.2⟩
        rcases List.mem_append.mp hip with hold | hnew
        · exact hst.1 ip hold
        · rwa [List.mem_singleton.mp hnew]
    cases hstep with
    | absent | waiting | blocked | foreign | expired | trap => exact hst
    | white => exact hwhite _
    | promote => exact hwhite _
  unfold DbScan.Lists DbScan.whitelistOf
  split
  · next h6 =>
    exact ⟨iff_of_false (fun hip => hinv.1 ip hip h6) fun hno => hno.2 h6,
      (and_iff_left h6).symm⟩
  · next h4 =>
    exact ⟨(and_iff_left h4).symm, iff_of_false (fun hip => h4 (hinv.2 ip hip)) fun hno => h4 hno.2⟩

/-- A scan stores new entries for addresses only. -/
theorem scanKeys_keys (h : scanKeys checkAddr f now whiteExp st keys = some st')
    (he : st'.db.entry key = some gd) :
    (∃ ip, key = .ip ip) ∨ st.db.entry key = some gd := by
  have hinv : ∀ gd, st'.db.entry key = some gd → (∃ ip, key = .ip ip) ∨ st.db.entry key = some gd := by
    apply @scanKeys_induct _ _ _ _ _ _ (fun mid => ∀ gd, mid.db.entry key = some gd →
      (∃ ip, key = .ip ip) ∨ st.db.entry key = some gd) keys _ h (fun gd he => .inr he)
    intro st₁ st₂ k _ hstep hst gd he
    cases hstep with
    | absent | waiting | blocked | foreign | trap => exact hst gd he
    | white => exact hst gd (by simpa using he)
    | expired =>
      rw [DbScan.setDb_db, entry_dropEntry] at he
      split at he
      · cases he
      · exact hst gd he
    | @promote gt data =>
      rw [DbScan.setDb_db, entry_promoted] at he
      split at he
      · cases he
      · split at he
        · next hk => exact .inl ⟨gt.ip, hk⟩
        · exact hst gd he
  exact hinv gd he

end Greyd
