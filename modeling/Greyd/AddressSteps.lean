import Greyd.GreyRuns

/-!
# What a scan does about one address

The scan's loop seen from one address: its own entry, its tuples, and the lists it is put
on. An address is listed through an entry that passes, and a tuple that passes renews the
entry.
-/
namespace Greyd

/-- Neither expired nor held back: the scan whitelists the address of such an entry. -/
def GreyData.Passing (gd : GreyData) (now : Int) : Prop :=
  0 ≤ gd.pcount ∧ gd.pass ≤ now ∧ now < gd.expire

theorem GreyData.passing_iff (gd : GreyData) (now : Int) :
    gd.Passing now ↔ ¬ gd.Expired now ∧ gd.Ready now := by
  unfold Passing Expired Ready
  omega

/-- The address has a tuple that the scan at this time replaces by a white entry. -/
def Bdb.PassingTuple (b : Bdb) (ip : CStr) (now : Int) : Prop :=
  ∃ gt gd, gt.ip = ip ∧ b.entry (.tuple gt) = some gd ∧ gd.Passing now

/-- The address is one a scan at this time whitelists. -/
def Bdb.ListsAt (b : Bdb) (ip : CStr) (now : Int) : Prop :=
  (∃ gd, b.entry (.ip ip) = some gd ∧ gd.Passing now) ∨ b.PassingTuple ip now

/-- The tuples of the address in `b'` are among those in `b`, with the same data. -/
def Bdb.FewerTuples (b b' : Bdb) (ip : CStr) : Prop :=
  ∀ gt, gt.ip = ip → b'.entry (.tuple gt) = b.entry (.tuple gt) ∨ b'.entry (.tuple gt) = none

theorem Bdb.FewerTuples.refl (b : Bdb) (ip : CStr) : b.FewerTuples b ip := fun _ _ => .inl rfl

theorem Bdb.FewerTuples.trans {b b' b'' : Bdb} {ip : CStr} (h : b.FewerTuples b' ip)
    (h' : b'.FewerTuples b'' ip) : b.FewerTuples b'' ip := by
  intro gt hgt
  rcases h' gt hgt with heq | hnone
  · rw [heq]
    exact h gt hgt
  · exact .inr hnone

theorem Bdb.FewerTuples.passing {b b' : Bdb} {ip : CStr} {now : Int} (h : b.FewerTuples b' ip)
    (hp : b'.PassingTuple ip now) : b.PassingTuple ip now := by
  obtain ⟨gt, gd, hgt, he, hp⟩ := hp
  rcases h gt hgt with heq | hnone
  · exact ⟨gt, gd, hgt, heq ▸ he, hp⟩
  · rw [hnone] at he; cases he

def DbScan.Lists (st : DbScan) (checkAddr : CStr → Option SaFamily) (ip : CStr) : Prop :=
  ip ∈ st.whitelistOf checkAddr ip

/-- The scan's turns, as far as they concern the entry and the lists of one address. -/
inductive AddressStep (checkAddr : CStr → Option SaFamily) (now whiteExp : Int) (ip : CStr)
    (st : DbScan) : DbKey → DbScan → Prop
  | keep {key st'} : st'.db.entry (.ip ip) = st.db.entry (.ip ip) →
      (st'.Lists checkAddr ip ↔ st.Lists checkAddr ip) → (ip ∈ st'.traplist ↔ ip ∈ st.traplist) →
      (∀ gt gd, key = .tuple gt → gt.ip = ip → st.db.entry (.tuple gt) = some gd →
        gd.Passing now → st.db.Trapped ip) →
      (∀ gd, key = .ip ip → st.db.entry (.ip ip) = some gd → ¬ gd.Passing now) →
      AddressStep checkAddr now whiteExp ip st key st'
  | expired {gd st'} : st.db.entry (.ip ip) = some gd → gd.Expired now →
      st'.db.entry (.ip ip) = none → (st'.Lists checkAddr ip ↔ st.Lists checkAddr ip) →
      (ip ∈ st'.traplist ↔ ip ∈ st.traplist) →
      AddressStep checkAddr now whiteExp ip st (.ip ip) st'
  | trap {gd st'} : st.db.entry (.ip ip) = some gd → ¬ gd.Expired now → gd.pcount = -1 →
      st'.db.entry (.ip ip) = some gd → (st'.Lists checkAddr ip ↔ st.Lists checkAddr ip) →
      AddressStep checkAddr now whiteExp ip st (.ip ip) st'
  | white {gd st'} : st.db.entry (.ip ip) = some gd → gd.Passing now →
      st'.db.entry (.ip ip) = some gd → st'.Lists checkAddr ip →
      (ip ∈ st'.traplist ↔ ip ∈ st.traplist) →
      AddressStep checkAddr now whiteExp ip st (.ip ip) st'
  | promote {gt gd st'} : gt.ip = ip → st.db.entry (.tuple gt) = some gd → gd.Passing now →
      ¬ st.db.Trapped ip → st'.db.entry (.ip ip) = some (gd.whitened (now + whiteExp)) →
      st'.Lists checkAddr ip → (ip ∈ st'.traplist ↔ ip ∈ st.traplist) →
      AddressStep checkAddr now whiteExp ip st (.tuple gt) st'

section Address

variable {checkAddr : CStr → Option SaFamily} {now whiteExp : Int} {st st' : DbScan} {key : DbKey}

theorem DbScan.lists_white_self (st : DbScan) (ip : CStr) :
    (st.white checkAddr ip).Lists checkAddr ip := by
  rw [Lists, st.whitelistOf_white]
  simp

theorem DbScan.lists_white_other {ip ip' : CStr} (h : ip ≠ ip') :
    (st.white checkAddr ip').Lists checkAddr ip ↔ st.Lists checkAddr ip := by
  unfold Lists whitelistOf DbScan.white
  split <;> split <;> simp [h]

theorem ScanStep.address (h : ScanStep checkAddr now whiteExp st key st') (ip : CStr) :
    AddressStep checkAddr now whiteExp ip st key st' := by
  cases h with
  | absent h0 =>
    refine .keep rfl .rfl .rfl ?_ ?_
    · rintro gt gd rfl - he
      rw [he] at h0; cases h0
    · rintro gd rfl he
      rw [he] at h0; cases h0
  | @expired key gd h0 hx =>
    by_cases hk : key = .ip ip
    · subst hk
      exact .expired h0 hx (by simp [entry_dropEntry]) .rfl .rfl
    · refine .keep (by simp [entry_dropEntry, Ne.symm hk]) .rfl .rfl ?_ (fun _ h => absurd h hk)
      rintro gt gd' rfl - he hp
      rw [he] at h0; cases h0
      exact absurd hx ((gd.passing_iff now).mp hp).1
  | @trap ip' gd h0 hx hp =>
    by_cases hk : ip = ip'
    · subst hk
      exact .trap h0 hx hp h0 .rfl
    · refine .keep rfl .rfl (by simp [hk]) (by simp) ?_
      intro gd' h
      cases h; exact absurd rfl hk
  | @white ip' gd h0 hx hr =>
    by_cases hk : ip = ip'
    · subst hk
      exact .white h0 ((gd.passing_iff now).mpr ⟨hx, hr⟩) (by simpa using h0)
        (st.lists_white_self ip) (by simp)
    · refine .keep (by simp) (DbScan.lists_white_other hk) (by simp) (by simp) ?_
      intro gd' h
      cases h; exact absurd rfl hk
  | @promote gt gd h0 hx hr hnt =>
    by_cases hk : gt.ip = ip
    · subst hk
      exact .promote rfl h0 ((gd.passing_iff now).mpr ⟨hx, hr⟩) hnt (by simp [entry_promoted])
        (st.lists_white_self gt.ip) (by simp)
    · refine .keep (by simp [entry_promoted, Ne.symm hk])
        (DbScan.lists_white_other (Ne.symm hk)) (by simp) ?_ (by simp)
      intro gt' gd' h hip
      cases h; exact absurd hip hk
  | waiting h0 hx hr hk =>
    refine .keep rfl .rfl .rfl ?_ ?_
    · rintro gt gd' rfl - he hp
      rw [he] at h0; cases h0
      exact absurd ((GreyData.passing_iff _ now).mp hp).2 hr
    · rintro gd' rfl he hp
      rw [he] at h0; cases h0
      exact absurd ((GreyData.passing_iff _ now).mp hp).2 hr
  | @blocked gt gd h0 _ _ ht =>
    refine .keep rfl .rfl .rfl ?_ (by simp)
    rintro gt' gd' h rfl - -
    cases h; exact ht
  | foreign h0 hip htup =>
    exact .keep rfl .rfl .rfl (fun gt _ h => absurd h (htup gt)) fun _ h => absurd h (hip ip)

theorem ScanStep.fewerTuples (h : ScanStep checkAddr now whiteExp st key st') (ip : CStr) :
    st.db.FewerTuples st'.db ip := by
  intro gt _
  rcases @ScanStep.entry_tuple gt _ _ _ _ _ _ h with heq | ⟨-, hnone⟩
  · exact .inl heq
  · exact .inr hnone

/-- Not trapped, an address stays so during a scan. -/
theorem AddressStep.not_trapped {ip : CStr}
    (h : AddressStep checkAddr now whiteExp ip st key st') (hnt : ¬ st.db.Trapped ip) :
    ¬ st'.db.Trapped ip := by
  rintro ⟨gd', he', hp⟩
  cases h with
  | keep he => exact hnt ⟨gd', he ▸ he', hp⟩
  | expired _ _ he =>
    rw [he] at he'; cases he'
  | trap h0 _ htrap he => exact hnt ⟨_, h0, htrap⟩
  | white h0 hpass he =>
    rw [he] at he'; cases he'
    exact absurd hpass.1 (by omega)
  | promote _ _ hpass _ he =>
    rw [he] at he'; cases he'
    exact absurd hpass.1 (by simp only [GreyData.whitened] at hp; omega)

/-- Once listed, an address stays listed. -/
theorem AddressStep.lists_mono {ip : CStr}
    (h : AddressStep checkAddr now whiteExp ip st key st') (hl : st.Lists checkAddr ip) :
    st'.Lists checkAddr ip := by
  cases h with
  | keep _ hlist => exact hlist.mpr hl
  | expired _ _ _ hlist => exact hlist.mpr hl
  | trap _ _ _ _ hlist => exact hlist.mpr hl
  | white _ _ _ hlist => exact hlist
  | promote _ _ _ _ _ hlist => exact hlist

/-- The key of an entry through which a scan may list the address. -/
def DbKey.About (key : DbKey) (ip : CStr) : Prop :=
  key = .ip ip ∨ ∃ gt, gt.ip = ip ∧ key = .tuple gt

theorem ScanStep.entry_other_tuple {gt : GreyTuple} (h : ScanStep checkAddr now whiteExp st key st')
    (hk : key ≠ .tuple gt) : st'.db.entry (.tuple gt) = st.db.entry (.tuple gt) := by
  rcases @ScanStep.entry_tuple gt _ _ _ _ _ _ h with heq | ⟨hkey, -⟩
  · exact heq
  · exact absurd hkey hk

/-- A passing tuple of an address that is not trapped is promoted when its turn comes, and
stays as it is until then. -/
theorem ScanStep.passing_tuple {gt : GreyTuple} {gd : GreyData}
    (h : ScanStep checkAddr now whiteExp st key st') (he : st.db.entry (.tuple gt) = some gd)
    (hp : gd.Passing now) (hnt : ¬ st.db.Trapped gt.ip) :
    (key = .tuple gt ∧ st'.db.entry (.tuple gt) = none ∧ st'.Lists checkAddr gt.ip ∧
        st'.db.entry (.ip gt.ip) = some (gd.whitened (now + whiteExp))) ∨
      key ≠ .tuple gt ∧ st'.db.entry (.tuple gt) = some gd := by
  by_cases hk : key = .tuple gt
  · refine .inl ⟨hk, ?_⟩
    have hx := (gd.passing_iff now).mp hp
    generalize hkey : DbKey.tuple gt = k at hk he
    subst hk
    cases h with
    | absent h0 =>
      rw [he] at h0; cases h0
    | expired h0 hexp =>
      rw [he] at h0; cases h0
      exact absurd hexp hx.1
    | trap => cases hkey
    | white => cases hkey
    | promote h0 =>
      cases hkey
      rw [he] at h0; cases h0
      exact ⟨by simp [entry_promoted], st.lists_white_self gt.ip, by simp [entry_promoted]⟩
    | waiting h0 _ hr =>
      rw [he] at h0; cases h0
      exact absurd hx.2 hr
    | blocked _ _ _ ht =>
      cases hkey
      exact absurd ht hnt
    | foreign _ _ hk => exact absurd hkey.symm (hk gt)
  · exact .inr ⟨hk, by rw [h.entry_other_tuple hk, he]⟩

/-- What holds once an entry has had its turn, and is kept by every turn, holds in the
end, if the address is never trapped and the entry stays until its turn. -/
theorem scanKeys_reach {f : DbFaults} {keys : List DbKey} {ip : CStr} {key' : DbKey}
    {gd : GreyData} {G : DbScan → Prop}
    (mono : ∀ st st' key, ScanStep checkAddr now whiteExp st key st' → G st → G st')
    (reach : ∀ st st' key, ScanStep checkAddr now whiteExp st key st' → ¬ st.db.Trapped ip →
      st.db.entry key' = some gd → G st' ∨ key ≠ key' ∧ st'.db.entry key' = some gd)
    (h : scanKeys checkAddr f now whiteExp st keys = some st') (hnt : ¬ st.db.Trapped ip)
    (hkey : key' ∈ keys) (he : st.db.entry key' = some gd) : G st' := by
  induction keys generalizing st with
  | nil => simp at hkey
  | cons key keys ih =>
    obtain ⟨mid, hmid, hrest⟩ := Option.bind_eq_some_iff.mp h
    have hstep := scanKey_step hmid
    rcases reach _ _ _ hstep hnt he with hG | ⟨hne, hkept⟩
    · exact scanKeys_induct (fun st st' k _ => mono st st' k) hrest hG
    · exact ih hrest ((hstep.address ip).not_trapped hnt)
        ((List.mem_cons.mp hkey).resolve_left (Ne.symm hne)) hkept

/-- The address's entry is one this scan has made, unless it has expired at once. -/
def DbScan.Renewed (st : DbScan) (now whiteExp : Int) (ip : CStr) : Prop :=
  (∃ gd, st.db.entry (.ip ip) = some gd ∧ 0 ≤ gd.pcount ∧ gd.pass ≤ now ∧
      gd.expire = now + whiteExp) ∨
    whiteExp ≤ 0 ∧ st.db.entry (.ip ip) = none

theorem GreyData.Passing.renewed {gd : GreyData} {ip : CStr} (hp : gd.Passing now)
    (he : st.db.entry (.ip ip) = some (gd.whitened (now + whiteExp))) :
    st.Renewed now whiteExp ip := .inl ⟨_, he, hp.1, hp.2.1, rfl⟩

theorem AddressStep.renewed {ip : CStr} (h : AddressStep checkAddr now whiteExp ip st key st')
    (hr : st.Renewed now whiteExp ip) : st'.Renewed now whiteExp ip := by
  cases h with
  | keep he => rwa [DbScan.Renewed, he]
  | expired h0 hx hnone =>
    rcases hr with ⟨gd, he, hp, -, hexp⟩ | ⟨hw, -⟩
    · rw [he] at h0; cases h0
      exact .inr ⟨by have := hx.1; omega, hnone⟩
    · exact .inr ⟨hw, hnone⟩
  | trap h0 _ _ he => rwa [DbScan.Renewed, he, ← h0]
  | white h0 _ he => rwa [DbScan.Renewed, he, ← h0]
  | promote _ _ hp _ he => exact hp.renewed he

variable {f : DbFaults} {keys : List DbKey} {ip : CStr}

/-- A scan that meets a passing tuple renews the address's entry and takes the tuple away. -/
theorem scanKeys_passing_tuple {gt : GreyTuple} {gd : GreyData}
    (h : scanKeys checkAddr f now whiteExp st keys = some st') (hkey : .tuple gt ∈ keys)
    (he : st.db.entry (.tuple gt) = some gd) (hp : gd.Passing now)
    (hnt : ¬ st.db.Trapped gt.ip) :
    st'.Lists checkAddr gt.ip ∧ st'.Renewed now whiteExp gt.ip ∧
      st'.db.entry (.tuple gt) = none := by
  refine ⟨?_, ?_, ?_⟩
  · apply scanKeys_reach (fun _ _ _ hstep => (hstep.address gt.ip).lists_mono) _ h hnt hkey he
    intro st st' key hstep hnt he
    exact (hstep.passing_tuple he hp hnt).imp_left fun hall => hall.2.2.1
  · apply scanKeys_reach (fun _ _ _ hstep => (hstep.address gt.ip).renewed) _ h hnt hkey he
    intro st st' key hstep hnt he
    exact (hstep.passing_tuple he hp hnt).imp_left fun hall => hp.renewed hall.2.2.2
  · apply scanKeys_reach (G := fun st => st.db.entry (.tuple gt) = none) _ _ h hnt hkey he
    · intro st st' key hstep hnone
      rcases hstep.fewerTuples gt.ip gt rfl with heq | hnone'
      · rw [heq, hnone]
      · exact hnone'
    · intro st st' key hstep hnt he
      exact (hstep.passing_tuple he hp hnt).imp_left fun hall => hall.2.1

/-- A scan lists every address that is not trapped and has a passing entry of its own. -/
theorem scanKeys_passing_ip {gd : GreyData}
    (h : scanKeys checkAddr f now whiteExp st keys = some st') (hkey : .ip ip ∈ keys)
    (he : st.db.entry (.ip ip) = some gd) (hp : gd.Passing now) (hnt : ¬ st.db.Trapped ip) :
    st'.Lists checkAddr ip := by
  apply scanKeys_reach (fun _ _ _ hstep => (hstep.address ip).lists_mono) _ h hnt hkey he
  intro st st' key hstep hnt he
  cases hstep.address ip with
  | keep hent _ _ _ hnoip => exact .inr ⟨fun hk => hnoip gd hk he hp, by rw [hent, he]⟩
  | expired h0 hx =>
    rw [he] at h0; cases h0
    exact absurd hx ((gd.passing_iff now).mp hp).1
  | trap h0 _ htrap => exact absurd ⟨_, h0, htrap⟩ hnt
  | white _ _ _ hlist => exact .inl hlist
  | promote _ _ _ _ _ hlist => exact .inl hlist

/-- Without passing tuples, an entry that is passing now is left as it is. -/
theorem scanKeys_quiet {gd : GreyData}
    (h : scanKeys checkAddr f now whiteExp st keys = some st')
    (he : st.db.entry (.ip ip) = some gd) (hp : gd.Passing now)
    (hquiet : ¬ st.db.PassingTuple ip now) : st'.db.entry (.ip ip) = some gd := by
  have hinv : st.db.FewerTuples st'.db ip ∧ st'.db.entry (.ip ip) = some gd := by
    apply @scanKeys_induct _ _ _ _ _ _
      (fun mid => st.db.FewerTuples mid.db ip ∧ mid.db.entry (.ip ip) = some gd) keys _ h
      ⟨.refl _ _, he⟩
    intro st₁ st₂ key _ hstep hst
    refine ⟨hst.1.trans (hstep.fewerTuples ip), ?_⟩
    cases hstep.address ip with
    | keep hent => rw [hent, hst.2]
    | expired h0 hx =>
      rw [hst.2] at h0; cases h0
      exact absurd hx ((gd.passing_iff now).mp hp).1
    | trap h0 _ _ hent => rw [hent, ← h0, hst.2]
    | white h0 _ hent => rw [hent, ← h0, hst.2]
    | @promote gt gd' _ hgt h0 hp' =>
      exact absurd (hst.1.passing ⟨gt, gd', hgt, h0, hp'⟩) hquiet
  exact hinv.2

/-- An address is listed only through an entry it had when the scan began. -/
theorem scanKeys_justified (h : scanKeys checkAddr f now whiteExp st keys = some st')
    (hw : ¬ st.Lists checkAddr ip) (ht : ip ∉ st.traplist) :
    (st'.Lists checkAddr ip → st.db.ListsAt ip now) ∧
      (ip ∈ st'.traplist →
        ∃ gd, st.db.entry (.ip ip) = some gd ∧ gd.pcount = -1 ∧ now < gd.expire) := by
  have hinv : st.db.FewerTuples st'.db ip ∧
      (∀ gd, st'.db.entry (.ip ip) = some gd →
        st.db.entry (.ip ip) = some gd ∨ st.db.PassingTuple ip now ∧ 0 ≤ gd.pcount) ∧
      (st'.Lists checkAddr ip → st.db.ListsAt ip now) ∧
      (ip ∈ st'.traplist →
        ∃ gd, st.db.entry (.ip ip) = some gd ∧ gd.pcount = -1 ∧ now < gd.expire) := by
    apply @scanKeys_induct _ _ _ _ _ _ (fun mid => st.db.FewerTuples mid.db ip ∧
      (∀ gd, mid.db.entry (.ip ip) = some gd →
        st.db.entry (.ip ip) = some gd ∨ st.db.PassingTuple ip now ∧ 0 ≤ gd.pcount) ∧
      (mid.Lists checkAddr ip → st.db.ListsAt ip now) ∧
      (ip ∈ mid.traplist →
        ∃ gd, st.db.entry (.ip ip) = some gd ∧ gd.pcount = -1 ∧ now < gd.expire)) keys _ h
      ⟨.refl _ _, fun gd he => .inl he, fun hl => absurd hl hw, fun hl => absurd hl ht⟩
    intro st₁ st₂ key _ hstep ⟨hfew, hent, hlist, htrap⟩
    refine ⟨hfew.trans (hstep.fewerTuples ip), ?_⟩
    cases hstep.address ip with
    | keep he hl htl =>
      rw [he, hl, htl]
      exact ⟨hent, hlist, htrap⟩
    | expired _ _ he hl htl =>
      rw [he, hl, htl]
      exact ⟨by simp, hlist, htrap⟩
    | @trap gd _ h0 hx hp he hl =>
      rw [he, hl]
      refine ⟨by rwa [← h0], hlist, fun _ => ?_⟩
      rcases hent gd h0 with hstart | ⟨-, hpos⟩
      · exact ⟨gd, hstart, hp, by unfold GreyData.Expired at hx; omega⟩
      · omega
    | @white gd _ h0 hp he hl htl =>
      rw [he, htl]
      refine ⟨by rwa [← h0], fun _ => ?_, htrap⟩
      rcases hent gd h0 with hstart | ⟨htup, -⟩
      · exact .inl ⟨gd, hstart, hp⟩
      · exact .inr htup
    | @promote gt gd _ hgt h0 hp _ he _ htl =>
      have htup : st.db.PassingTuple ip now := hfew.passing ⟨gt, gd, hgt, h0, hp⟩
      rw [he, htl]
      refine ⟨?_, fun _ => .inr htup, htrap⟩
      intro gd' he'
      cases he'
      exact .inr ⟨htup, hp.1⟩
  exact hinv.2.2

end Address

end Greyd
