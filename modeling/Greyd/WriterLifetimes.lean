import Greyd.Provenance

/-!
# How long the entries of the tools last

greydb renews the entry it finds, and greylogd renews its expiry, so what they write lasts
for a whole lifetime whatever was stored before, with one exception: the pass time of an
entry that was a trap may still be to come.
-/
namespace Greyd

open SerialRuns

section Lifetimes

variable {g : Greylister} {b b₀ b' : Bdb} {ts : List DbTick} {ip : CStr} {t e : Int}

theorem Traps.concerns {u : DbTick} (h : Traps g b ip u) : u.Concerns ip := by
  cases h with
  | message | greydb => rfl
  | spamtrap hip => exact hip
  | policy hip => exact hip
  | lowPrio hip => exact hip

theorem Whitens.concerns {u : DbTick} (h : Whitens g b ip u) : u.Concerns ip := by
  cases h with
  | message | greydb | logged => rfl
  | policy hip => exact hip

/-- A transaction that is not about the address leaves its entries alone or is a scan. -/
theorem dbTick_about {u : DbTick} (hu : ¬ u.Concerns ip) (hfits : u.Fits b) :
    (∀ key : DbKey, key.About ip → (dbStep g u b).entry key = b.entry key) ∨
      ∃ (order : CursorOrder b) (st : DbScan),
        modScanDb g.checkAddr u.faults u.now g.whiteExp b order.keys = some st ∧
          dbStep g u b = st.db := by
  have hcases := dbCases g u b
  have hput : ∀ {ip' gd}, u.Concerns ip' → ∀ key : DbKey, key.About ip →
      (b.putEntry (.ip ip') gd).entry key = b.entry key := by
    rintro ip' gd hc key (rfl | ⟨gt, rfl, rfl⟩)
    · rw [entry_putEntry, if_neg]
      rintro h; cases h; exact hu hc
    · rw [entry_putEntry, if_neg (by simp)]
  generalize dbStep g u b = b' at hcases
  cases hcases with
  | same hsame => exact .inl fun key _ => hsame key
  | @drop ip' hc =>
    left
    rintro key (rfl | ⟨gt, rfl, rfl⟩)
    · rw [entry_dropEntry, if_neg]
      rintro h; cases h; exact hu hc
    · rw [entry_dropEntry, if_neg (by simp)]
  | white hwhitens _ => exact .inl (hput hwhitens.concerns)
  | trap htraps _ => exact .inl (hput htraps.concerns)
  | @touch gt htries =>
    left
    rintro key (rfl | ⟨gt', rfl, rfl⟩)
    · rw [entry_putEntry, if_neg (by simp)]
    · rw [entry_putEntry, if_neg]
      rintro h; cases h
      obtain ⟨sync, dstIp, hev⟩ := htries
      exact hu (by rw [DbTick.Concerns, hev]; rfl)
  | @scanned order st hev hscan =>
    rw [DbTick.Fits, hev] at hfits
    exact .inr ⟨⟨order, hfits.1, hfits.2⟩, st, hscan, rfl⟩

theorem dbRun_sound (hrun : DbRun g b₀ ts b) (hempty : b₀.db = ∅) (hclock : ∀ u ∈ ts, u.now ≤ t) :
    b.Sound t := by
  refine ⟨fun gt gd he => ?_, dbRun_counted hrun hempty⟩
  obtain ⟨u₁, -, -, -, -, hnever | ⟨u₂, hsub, -, -, hnow⟩⟩ := dbRun_tuples hrun hempty gt gd he
  · exact .inr hnever
  · exact .inl (hnow ▸ hclock u₂ (hsub.subset (by simp)))

theorem dbStep_sound {u : DbTick} (hrun : DbRun g b₀ ts b) (hempty : b₀.db = ∅)
    (hclock : ∀ u ∈ ts, u.now ≤ t) (hfits : u.Fits b) (hu : u.now ≤ t) : (dbStep g u b).Sound t := by
  refine dbRun_sound (hrun.tick hfits) hempty fun v hv => ?_
  rcases List.mem_append.mp hv with hold | hnew
  · exact hclock v hold
  · rwa [List.mem_singleton.mp hnew]

/-- From `t` on, with nothing further about the address, every scan before `e` lists it. -/
def StaysListed (g : Greylister) (b : Bdb) (ip : CStr) (t e : Int) (listed : DbScan → Prop) : Prop :=
  ∀ later b' s f st, DbRun g b later b' → (∀ u ∈ later, ¬ u.Concerns ip) →
    (t :: (later.map DbTick.now ++ [s])).Pairwise (· ≤ ·) → s < e → ∀ order : CursorOrder b',
    modScanDb g.checkAddr f s g.whiteExp b' order.keys = some st → listed st

/-- Times in order, by the transaction that was last. -/
theorem clock_concat {ts : List DbTick} {u : DbTick} {s : Int}
    (h : (t :: ((ts ++ [u]).map DbTick.now ++ [s])).Pairwise (· ≤ ·)) :
    (t :: (ts.map DbTick.now ++ [u.now])).Pairwise (· ≤ ·) ∧ t ≤ u.now ∧ u.now ≤ s := by
  have hall : (t :: (ts.map DbTick.now ++ [u.now, s])).Pairwise (· ≤ ·) := by simpa using h
  have hbefore : (t :: (ts.map DbTick.now ++ [u.now])).Pairwise (· ≤ ·) :=
    hall.sublist (List.Sublist.cons_cons t (List.Sublist.append_left (by simp) _))
  refine ⟨hbefore, (List.pairwise_cons.mp hbefore).1 u.now (by simp), ?_⟩
  have htail := (List.pairwise_append.mp (List.pairwise_cons.mp hall).2).2.1
  simpa using htail

theorem trap_staysListed {gd : GreyData} (he : b.entry (.ip ip) = some gd) (hp : gd.pcount = -1) :
    StaysListed g b ip t gd.expire (fun st => ip ∈ st.traplist) := by
  intro later b' s f st hrun hother hclock hs order hscan
  have hkept : b'.entry (.ip ip) = some gd := by
    clear hscan order
    induction hrun generalizing s with
    | start => exact he
    | @tick ts b₁ u _ hfits ih =>
      obtain ⟨hbefore, -, hus⟩ := clock_concat hclock
      have hprev := ih u.now (fun v hv => hother v (List.mem_append_left _ hv)) hbefore (by omega)
      rcases @dbTick_about g b₁ ip u (hother u (by simp)) hfits with hsame | ⟨_, st, hst, hdb⟩
      · rw [hsame _ (.inl rfl), hprev]
      · rw [hdb]
        exact (scanKeys_live_trap hst hprev hp (by omega)).1
  have hmem : .ip ip ∈ order.keys :=
    order.covers _ (mem_iff_entry.mpr (by rw [hkept]; exact Option.some_ne_none gd))
  exact (scanKeys_live_trap hscan hkept hp (by omega)).2.2 (.inl hmem)

theorem white_staysListed (hb : b.Sound t) (he : e ≤ t + g.whiteExp) (hte : t < e)
    (h : StaysWhite b ip t e) : StaysListed g b ip t e (fun st => st.Lists g.checkAddr ip) := by
  intro later b' s f st hrun hother hclock hs order hscan
  have hinv : b.FewerTuples b' ip ∧ StaysWhite b' ip s e := by
    clear hscan order
    induction hrun generalizing s with
    | start => exact ⟨.refl b ip, h.mono (by simpa using hclock)⟩
    | @tick ts b₁ u _ hfits ih =>
      obtain ⟨hbefore, htu, hus⟩ := clock_concat hclock
      obtain ⟨hfew, hwhite⟩ := ih u.now (fun v hv => hother v (List.mem_append_left _ hv)) hbefore
        (by omega)
      rcases @dbTick_about g b₁ ip u (hother u (by simp)) hfits with hsame | ⟨order, st, hst, hdb⟩
      · refine ⟨fun gt hgt => ?_, ?_, ?_⟩
        · rw [hsame _ (.inr ⟨gt, hgt, rfl⟩)]
          exact hfew gt hgt
        · unfold Bdb.Trapped
          rw [hsame _ (.inl rfl)]
          exact hwhite.notTrapped
        · intro s' hs' he'
          exact ListsAt.congr hsame (hwhite.lists s' (by omega) he')
      · rw [hdb]
        have hfew' : b₁.FewerTuples st.db ip :=
          @scanKeys_induct _ _ _ _ _ _ (fun st => b₁.FewerTuples st.db ip) _
            (fun _ _ _ _ hstep hst => hst.trans (hstep.fewerTuples ip)) hst (.refl b₁ ip)
        exact ⟨hfew.trans hfew', (StaysWhite.scan hb hfew (fun _ => he) hte htu (le_refl _) (by omega)
          hwhite hst).mono hus⟩
  exact hinv.2.listed hs hscan

/-! ## greydb -/

theorem dbUpdate_add {type : EntryType} (htype : type = .white ∨ type = .traphit)
    (hip : (g.checkAddr ip).isSome) :
    dbStep g ⟨t, .none, .update .add type ip⟩ b = b.putEntry (.ip ip) (match b.entry (.ip ip) with
      | some gd => updatedEntry g t type gd
      | none => createdEntry g t type) := by
  have hkey : updateKey g.checkAddr type ip = some (.ip ip) := by
    have hnumeric : g.checkAddr ip ≠ none := by
      intro hnone
      rw [hnone] at hip; cases hip
    rcases htype with rfl | rfl <;> exact if_neg hnumeric
  show ((dbUpdate g .none t .add type ip b).getD (b, [])).1 = _
  unfold dbUpdate
  rw [hkey, Option.bind_eq_bind, Option.bind_some]
  simp only [modDbGet_none b (rfl : b.file (.ip ip) = b.db)]
  cases b.entry (.ip ip) <;> rfl

/-- A passing entry whose pass time is not later than `t` keeps its address white. -/
theorem staysWhite_put {gd : GreyData} (hpos : 0 ≤ gd.pcount)
    (hlists : ∀ s, t ≤ s → s < gd.expire → gd.pass ≤ s ∨ b.PassingTuple ip s) :
    StaysWhite (b.putEntry (.ip ip) gd) ip t gd.expire := by
  have hent : (b.putEntry (.ip ip) gd).entry (.ip ip) = some gd := by rw [entry_putEntry, if_pos rfl]
  constructor
  · rintro ⟨gd', he', hp⟩
    rw [hent] at he'; cases he'
    omega
  · intro s hts hse
    rcases hlists s hts hse with hpass | ⟨gt, gd', hgt, he, hp⟩
    · exact .inl ⟨gd, hent, hpos, hpass, hse⟩
    · exact .inr ⟨gt, gd', hgt, by rw [entry_putEntry, if_neg (by simp), he], hp⟩

theorem staysListed_of_le {listed : DbScan → Prop} (h : e ≤ t) : StaysListed g b ip t e listed := by
  intro later b' s f st _ _ hclock hs
  have hts : t ≤ s := (List.pairwise_cons.mp hclock).1 s (by simp)
  omega

theorem greydb_white_lasts (hrun : DbRun g b₀ ts b) (hempty : b₀.db = ∅)
    (hclock : ∀ u ∈ ts, u.now ≤ t) (hip : (g.checkAddr ip).isSome) :
    StaysListed g (dbStep g ⟨t, .none, .update .add .white ip⟩ b) ip t (t + g.whiteExp)
      (fun st => st.Lists g.checkAddr ip) := by
  by_cases hlive : t < t + g.whiteExp
  · have hsound : (dbStep g ⟨t, .none, .update .add .white ip⟩ b).Sound t :=
      dbStep_sound hrun hempty hclock trivial le_rfl
    rw [dbUpdate_add (.inl rfl) hip] at hsound ⊢
    refine white_staysListed hsound le_rfl hlive ?_
    cases hold : b.entry (.ip ip) with
    | none => exact staysWhite_put (le_refl 0) fun s hts _ => .inl hts
    | some gd =>
      have hge := dbRun_counted hrun hempty ip gd hold
      exact staysWhite_put (by show 0 ≤ gd.pcount + 1; omega) fun s hts _ => .inl hts
  · exact staysListed_of_le (by omega)

theorem greydb_trap_lasts (hip : (g.checkAddr ip).isSome) :
    StaysListed g (dbStep g ⟨t, .none, .update .add .traphit ip⟩ b) ip t (t + g.trapExp)
      (fun st => ip ∈ st.traplist) := by
  rw [dbUpdate_add (.inr rfl) hip]
  cases b.entry (.ip ip) with
  | none =>
    exact @trap_staysListed g _ ip t (createdEntry g t .traphit)
      (by rw [entry_putEntry, if_pos rfl]) rfl
  | some gd =>
    exact @trap_staysListed g _ ip t (updatedEntry g t .traphit gd)
      (by rw [entry_putEntry, if_pos rfl]) rfl

/-! ## greylogd -/

theorem logEntry_none (g : Greylister) (t : Int) (ip : CStr) (b : Bdb) :
    dbStep g ⟨t, .none, .logged ip⟩ b = b.putEntry (.ip ip) (loggedEntry g t (b.entry (.ip ip))) := by
  show ((logEntry g .none t ip b).getD (b, [])).1 = _
  unfold logEntry
  simp only [modDbGet_none b (rfl : b.file (.ip ip) = b.db)]
  cases b.entry (.ip ip) <;> rfl

theorem StaysListed.first {listed : DbScan → Prop} (h : StaysListed g b ip t e listed) {s : Int}
    (ht : t ≤ s) (hs : s < e) :
    ∃ st, modScanDb g.checkAddr .none s g.whiteExp b b.cursor.keys = some st ∧ listed st := by
  obtain ⟨st, hst⟩ := @scanKeys_total g.checkAddr s g.whiteExp ⟨b, [], [], []⟩ b.cursor.keys
  exact ⟨st, hst, h [] b s .none st .start (by simp) (by simpa using ht) hs b.cursor hst⟩

theorem logged_lasts_iff (hrun : DbRun g b₀ ts b) (hempty : b₀.db = ∅)
    (hclock : ∀ u ∈ ts, u.now ≤ t) :
    StaysListed g (dbStep g ⟨t, .none, .logged ip⟩ b) ip t (t + g.whiteExp)
        (fun st => st.Lists g.checkAddr ip) ↔
      ∀ gd, b.entry (.ip ip) = some gd → ∀ s, t ≤ s → s < t + g.whiteExp →
        gd.pass ≤ s ∨ b.PassingTuple ip s := by
  have hsound : (dbStep g ⟨t, .none, .logged ip⟩ b).Sound t :=
    dbStep_sound hrun hempty hclock trivial le_rfl
  rw [logEntry_none] at hsound ⊢
  have hexpire : (loggedEntry g t (b.entry (.ip ip))).expire = t + g.whiteExp := by
    cases b.entry (.ip ip) <;> rfl
  constructor
  · intro hlast gd he s hts hse
    obtain ⟨st, hst, hlisted⟩ := hlast.first hts hse
    rcases (scanKeys_justified hst (by simp [DbScan.Lists, DbScan.whitelistOf]) (by simp)).1 hlisted with
      ⟨gd', he', -, hpass, -⟩ | ⟨gt, gd', hgt, he', hp⟩
    · rw [entry_putEntry, if_pos rfl, he] at he'; cases he'
      exact .inl hpass
    · rw [entry_putEntry, if_neg (by simp)] at he'
      exact .inr ⟨gt, gd', hgt, he', hp⟩
  · intro hcond
    by_cases hlive : t < t + g.whiteExp
    · refine white_staysListed hsound le_rfl hlive ?_
      rw [← hexpire]
      refine staysWhite_put ?_ fun s hts hse => ?_
      · cases hold : b.entry (.ip ip) with
        | none => exact (by decide : (0 : Int) ≤ 1)
        | some gd =>
          have hge := dbRun_counted hrun hempty ip gd hold
          show 0 ≤ gd.pcount + 1
          omega
      · cases hold : b.entry (.ip ip) with
        | none => exact .inl hts
        | some gd => exact hcond gd hold s hts (by rwa [hexpire] at hse)
    · exact staysListed_of_le (by omega)

/-- Whatever was stored before: an address added by greydb is listed for a whole lifetime, on
the traplist or on its whitelist, and one that greylogd has logged is whitelisted for a whole
lifetime exactly when the pass time of the entry it had has come (or its tuples pass). -/
theorem tool_entries_last (g : Greylister) (b₀ b : Bdb) (hempty : b₀.db = ∅) (ts : List DbTick)
    (hrun : DbRun g b₀ ts b) (t : Int) (hclock : ∀ u ∈ ts, u.now ≤ t) (ip : CStr)
    (hip : (g.checkAddr ip).isSome) :
    StaysListed g (dbStep g ⟨t, .none, .update .add .white ip⟩ b) ip t (t + g.whiteExp)
        (fun st => st.Lists g.checkAddr ip) ∧
      StaysListed g (dbStep g ⟨t, .none, .update .add .traphit ip⟩ b) ip t (t + g.trapExp)
        (fun st => ip ∈ st.traplist) ∧
      (StaysListed g (dbStep g ⟨t, .none, .logged ip⟩ b) ip t (t + g.whiteExp)
          (fun st => st.Lists g.checkAddr ip) ↔
        ∀ gd, b.entry (.ip ip) = some gd → ∀ s, t ≤ s → s < t + g.whiteExp →
          gd.pass ≤ s ∨ b.PassingTuple ip s) :=
  ⟨greydb_white_lasts hrun hempty hclock hip, greydb_trap_lasts hip,
    logged_lasts_iff hrun hempty hclock⟩

end Lifetimes

/-- An address with nothing stored for it. -/
theorem tool_entries_last_new :
    StaysListed defaultGreylister
        (dbStep defaultGreylister ⟨3000, .none, .update .add .white "10.0.0.1".toList⟩ spamtrapBdb)
        "10.0.0.1".toList 3000 (3000 + defaultGreylister.whiteExp)
        (fun st => st.Lists defaultGreylister.checkAddr "10.0.0.1".toList) ∧
      StaysListed defaultGreylister
        (dbStep defaultGreylister ⟨3000, .none, .update .add .traphit "10.0.0.1".toList⟩ spamtrapBdb)
        "10.0.0.1".toList 3000 (3000 + defaultGreylister.trapExp)
        (fun st => "10.0.0.1".toList ∈ st.traplist) ∧
      (StaysListed defaultGreylister
          (dbStep defaultGreylister ⟨3000, .none, .logged "10.0.0.1".toList⟩ spamtrapBdb)
          "10.0.0.1".toList 3000 (3000 + defaultGreylister.whiteExp)
          (fun st => st.Lists defaultGreylister.checkAddr "10.0.0.1".toList) ↔
        ∀ gd, spamtrapBdb.entry (.ip "10.0.0.1".toList) = some gd → ∀ s, 3000 ≤ s →
          s < 3000 + defaultGreylister.whiteExp →
            gd.pass ≤ s ∨ spamtrapBdb.PassingTuple "10.0.0.1".toList s) :=
  tool_entries_last defaultGreylister spamtrapBdb spamtrapBdb rfl [] .start 3000 (by simp) _ rfl

end Greyd
