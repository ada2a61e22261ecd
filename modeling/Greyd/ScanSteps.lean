import Mathlib.Tactic
import Greyd.Greydb

/-!
# What a scan does

One relation names everything the loop of the scan can do with the key the cursor is on;
the facts about whole scans follow from it by induction on the keys. A live trap survives
every scan, and its address is put on no whitelist.
-/
namespace Greyd

def Bdb.putEntry (b : Bdb) (key : DbKey) (val : GreyData) : Bdb :=
  { b with db := b.db.insert key val }

def Bdb.dropEntry (b : Bdb) (key : DbKey) : Bdb := { b with db := b.db.erase key }

/-- The entry an address or a tuple has. -/
def Bdb.entry (b : Bdb) (key : DbKey) : Option GreyData := b.db.lookup key

theorem entry_putEntry (b : Bdb) (key key' : DbKey) (val : GreyData) :
    (b.putEntry key val).entry key' = if key' = key then some val else b.entry key' := by
  split
  · next h => rw [h]; exact AList.lookup_insert b.db
  · next h => exact AList.lookup_insert_ne h

theorem entry_dropEntry (b : Bdb) (key key' : DbKey) :
    (b.dropEntry key).entry key' = if key' = key then none else b.entry key' := by
  split
  · next h => rw [h]; exact AList.lookup_erase key b.db
  · next h => exact AList.lookup_erase_ne h

theorem mem_iff_entry {b : Bdb} {key : DbKey} : key ∈ b.db ↔ b.entry key ≠ none := by
  rw [Bdb.entry, Ne, AList.lookup_eq_none, not_not]

@[simp] theorem DbScan.setDb_db (st : DbScan) (b : Bdb) : (st.setDb b).db = b := rfl
@[simp] theorem DbScan.setDb_traplist (st : DbScan) (b : Bdb) :
    (st.setDb b).traplist = st.traplist := rfl
@[simp] theorem DbScan.trap_db (st : DbScan) (ip : CStr) : (st.trap ip).db = st.db := rfl
@[simp] theorem DbScan.trap_traplist (st : DbScan) (ip : CStr) :
    (st.trap ip).traplist = st.traplist ++ [ip] := rfl

/-- The addresses on either whitelist. -/
def DbScan.whites (st : DbScan) : List CStr := st.whitelist ++ st.whitelistIpv6

@[simp] theorem DbScan.setDb_whites (st : DbScan) (b : Bdb) : (st.setDb b).whites = st.whites := rfl
@[simp] theorem DbScan.trap_whites (st : DbScan) (ip : CStr) : (st.trap ip).whites = st.whites := rfl

section White

variable (checkAddr : CStr → Option SaFamily) (st : DbScan) (ip : CStr)

@[simp] theorem DbScan.white_db : (st.white checkAddr ip).db = st.db := by
  unfold DbScan.white; split <;> rfl

@[simp] theorem DbScan.white_traplist : (st.white checkAddr ip).traplist = st.traplist := by
  unfold DbScan.white; split <;> rfl

theorem DbScan.mem_white (s : CStr) :
    s ∈ (st.white checkAddr ip).whites ↔ s ∈ st.whites ∨ s = ip := by
  unfold DbScan.white DbScan.whites
  split <;> simp only [List.mem_append, List.mem_singleton] <;> tauto

end White

/-- An entry the scan deletes. -/
def GreyData.Expired (gd : GreyData) (now : Int) : Prop := gd.expire ≤ now ∧ gd.pcount > -2

/-- An entry whose pass time has come. -/
def GreyData.Ready (gd : GreyData) (now : Int) : Prop := 0 ≤ gd.pcount ∧ gd.pass ≤ now

/-- The address has a trap entry. -/
def Bdb.Trapped (b : Bdb) (ip : CStr) : Prop := ∃ gd, b.entry (.ip ip) = some gd ∧ gd.pcount = -1

/-- The entry a promoted tuple leaves for its address. -/
def GreyData.whitened (gd : GreyData) (expire : Int) : GreyData := { gd with expire := expire }

/-- The database after a tuple has been replaced by a white entry of its address. -/
def Bdb.promoted (b : Bdb) (gt : GreyTuple) (gd : GreyData) (expire : Int) : Bdb :=
  (b.putEntry (.ip gt.ip) (gd.whitened expire)).dropEntry (.tuple gt)

/-- Everything one turn of the loop can do. -/
inductive ScanStep (checkAddr : CStr → Option SaFamily) (now whiteExp : Int) (st : DbScan) :
    DbKey → DbScan → Prop
  | absent {key} : st.db.entry key = none → ScanStep checkAddr now whiteExp st key st
  | expired {key gd} : st.db.entry key = some gd → gd.Expired now →
      ScanStep checkAddr now whiteExp st key (st.setDb (st.db.dropEntry key))
  | trap {ip gd} : st.db.entry (.ip ip) = some gd → ¬ gd.Expired now → gd.pcount = -1 →
      ScanStep checkAddr now whiteExp st (.ip ip) (st.trap ip)
  | white {ip gd} : st.db.entry (.ip ip) = some gd → ¬ gd.Expired now → gd.Ready now →
      ScanStep checkAddr now whiteExp st (.ip ip) (st.white checkAddr ip)
  | promote {gt gd} : st.db.entry (.tuple gt) = some gd → ¬ gd.Expired now → gd.Ready now →
      ¬ st.db.Trapped gt.ip →
      ScanStep checkAddr now whiteExp st (.tuple gt)
        ((st.white checkAddr gt.ip).setDb (st.db.promoted gt gd (now + whiteExp)))
  | waiting {key gd} : st.db.entry key = some gd → ¬ gd.Expired now → ¬ gd.Ready now →
      (∀ ip, key = .ip ip → gd.pcount ≠ -1) → ScanStep checkAddr now whiteExp st key st
  | blocked {gt gd} : st.db.entry (.tuple gt) = some gd → ¬ gd.Expired now → gd.Ready now →
      st.db.Trapped gt.ip → ScanStep checkAddr now whiteExp st (.tuple gt) st
  | foreign {key gd} : st.db.entry key = some gd → (∀ ip, key ≠ .ip ip) → (∀ gt, key ≠ .tuple gt) →
      ScanStep checkAddr now whiteExp st key st

section Steps

variable {checkAddr : CStr → Option SaFamily} {f : DbFaults} {now whiteExp : Int}
  {st st' : DbScan}

theorem dbAddrState_cases (f : DbFaults) (b : Bdb) (ip : CStr) :
    dbAddrState f b ip = .err ∧ f.get (.ip ip) = true ∨
      dbAddrState f b ip = .trapped ∧ b.Trapped ip ∨
      (dbAddrState f b ip = .unknown ∨ dbAddrState f b ip = .known) ∧ ¬ b.Trapped ip := by
  by_cases hf : f.get (.ip ip) = true
  · have hget : modDbGet f b (.ip ip) = .err := by simp [modDbGet, hf]
    simp [dbAddrState, hget, hf]
  · cases hl : b.db.lookup (.ip ip) with
    | none =>
      have hget : modDbGet f b (.ip ip) = .notFound := by simp [modDbGet, hf, Bdb.file, hl]
      simp [dbAddrState, hget, hf, Bdb.Trapped, Bdb.entry, hl]
    | some gd =>
      have hget : modDbGet f b (.ip ip) = .found gd := by simp [modDbGet, hf, Bdb.file, hl]
      by_cases hp : gd.pcount = -1 <;>
        simp [dbAddrState, hget, hf, Bdb.Trapped, Bdb.entry, hl, hp]

theorem promote_eq_some {gt : GreyTuple} {gd : GreyData}
    (h : promote checkAddr f now whiteExp st gt gd = some st') :
    st.db.Trapped gt.ip ∧ st' = st ∨ ¬ st.db.Trapped gt.ip ∧
      st' = (st.white checkAddr gt.ip).setDb (st.db.promoted gt gd (now + whiteExp)) := by
  unfold promote at h
  obtain ⟨he, -⟩ | ⟨he, ht⟩ | ⟨he, ht⟩ := dbAddrState_cases f st.db gt.ip
  · rw [he] at h; cases h
  · rw [he] at h
    exact .inl ⟨ht, by simpa using h.symm⟩
  · refine .inr ⟨ht, ?_⟩
    have hput : (do
        let db ← modDbPut f st.db (.ip gt.ip) { gd with expire := now + whiteExp }
        let db ← modDbItrDelCurr f db (.tuple gt)
        pure ((st.white checkAddr gt.ip).setDb db)) = some st' := by
      obtain he | he := he <;> rwa [he] at h
    unfold modDbPut modDbItrDelCurr at hput
    split at hput
    · cases hput
    · simp only [Option.bind_eq_bind, Option.bind_some] at hput
      split at hput
      · cases hput
      · exact (Option.some.inj hput).symm

/-- The turn of the loop, where it succeeds, is one of the steps. -/
theorem scanKey_step {key : DbKey} (h : scanKey checkAddr f now whiteExp st key = some st') :
    ScanStep checkAddr now whiteExp st key st' := by
  unfold scanKey at h
  cases he : st.db.db.lookup key with
  | none =>
    rw [he] at h
    cases h
    exact .absent he
  | some gd =>
    rw [he] at h
    simp only [scanRecord] at h
    by_cases hx : gd.expire ≤ now ∧ gd.pcount > -2
    · rw [if_pos hx] at h
      unfold modDbItrDelCurr at h
      split at h
      · cases h
      · cases h
        exact .expired he hx
    · rw [if_neg hx] at h
      cases key with
      | ip ip =>
        simp only at h
        split at h
        · next hp => cases h; exact .trap he hx hp
        · next hp =>
          split at h
          · next hr => cases h; exact .white he hx hr
          · next hr => cases h; exact .waiting he hx hr (fun _ _ => hp)
      | tuple gt =>
        simp only at h
        split at h
        · next hr =>
          obtain ⟨ht, rfl⟩ | ⟨ht, rfl⟩ := promote_eq_some h
          · exact .blocked he hx hr ht
          · exact .promote he hx hr ht
        · next hr => cases h; exact .waiting he hx hr (fun ip hip => by cases hip)
      | mail s => cases h; exact .foreign he (by simp) (by simp)
      | dom s => cases h; exact .foreign he (by simp) (by simp)

/-- The invariant rule of the scan's loop. -/
theorem scanKeys_induct {P : DbScan → Prop} {keys : List DbKey}
    (step : ∀ st st' key, key ∈ keys → ScanStep checkAddr now whiteExp st key st' → P st → P st')
    (h : scanKeys checkAddr f now whiteExp st keys = some st') (hst : P st) : P st' := by
  induction keys generalizing st with
  | nil => cases h; exact hst
  | cons key keys ih =>
    obtain ⟨mid, hmid, hrest⟩ := Option.bind_eq_some_iff.mp h
    apply ih (fun st st' k hk => step st st' k (List.mem_cons_of_mem _ hk)) hrest
    exact step _ _ key List.mem_cons_self (scanKey_step hmid) hst

/-! ## One address -/

theorem entry_promoted (b : Bdb) (gt : GreyTuple) (gd : GreyData) (expire : Int) (key : DbKey) :
    (b.promoted gt gd expire).entry key =
      if key = .tuple gt then none else if key = .ip gt.ip then some (gd.whitened expire)
        else b.entry key := by
  rw [Bdb.promoted, entry_dropEntry, entry_putEntry]

/-- A live trap is left where it is, and its address is not whitelisted. -/
theorem ScanStep.live_trap {key : DbKey} {ip : CStr} {gd : GreyData}
    (h : ScanStep checkAddr now whiteExp st key st') (he : st.db.entry (.ip ip) = some gd)
    (hp : gd.pcount = -1) (hx : now < gd.expire) :
    st'.db.entry (.ip ip) = some gd ∧ (ip ∈ st'.whites → ip ∈ st.whites) ∧
      (key = .ip ip → ip ∈ st'.traplist) ∧ (ip ∈ st.traplist → ip ∈ st'.traplist) := by
  have hne : ¬ gd.Expired now := fun hgd => absurd hgd.1 (by omega)
  have hnr : ¬ gd.Ready now := fun hgd => absurd hgd.1 (by omega)
  have htrapped : st.db.Trapped ip := ⟨gd, he, hp⟩
  cases h with
  | absent h0 =>
    refine ⟨he, id, ?_, id⟩
    rintro rfl
    rw [he] at h0; cases h0
  | @expired key gd' h0 hx' =>
    have hkey : DbKey.ip ip ≠ key := by
      rintro rfl
      rw [he] at h0; cases h0
      exact hne hx'
    refine ⟨?_, by simp, fun hk => absurd hk.symm hkey, by simp⟩
    simpa [entry_dropEntry, hkey] using he
  | trap h0 _ _ =>
    refine ⟨by simpa using he, by simp, ?_, ?_⟩
    · intro hk; cases hk; simp
    · intro hm; simp [hm]
  | @white ip' gd' h0 hx' hr =>
    have hip : ip ≠ ip' := by
      rintro rfl
      rw [he] at h0; cases h0
      exact hnr hr
    refine ⟨by simpa using he, ?_, ?_, by simp⟩
    · intro hm
      exact ((DbScan.mem_white _ _ _ _).mp hm).resolve_right hip
    · intro hk; cases hk; exact absurd rfl hip
  | @promote gt gd' h0 _ _ hnt =>
    have hip : ip ≠ gt.ip := by rintro rfl; exact hnt htrapped
    refine ⟨?_, ?_, by simp, by simp⟩
    · simp [entry_promoted, hip, he]
    · intro hm
      exact ((DbScan.mem_white _ _ _ _).mp hm).resolve_right hip
  | waiting h0 _ _ hk =>
    refine ⟨he, id, ?_, id⟩
    rintro rfl
    rw [he] at h0; cases h0
    exact absurd hp (hk ip rfl)
  | blocked => exact ⟨he, id, by simp, id⟩
  | foreign _ hk _ => exact ⟨he, id, fun h => absurd h (hk ip), id⟩

/-- What is true of an address a scan has listed: on the traplist it has a live trap, and
on a whitelist it has none. -/
def DbScan.Apart (now : Int) (st : DbScan) : Prop :=
  (∀ ip ∈ st.traplist, ∃ gd, st.db.entry (.ip ip) = some gd ∧ gd.pcount = -1 ∧ now < gd.expire) ∧
    ∀ ip ∈ st.whites, ¬ st.db.Trapped ip

theorem ScanStep.apart {key : DbKey} (h : ScanStep checkAddr now whiteExp st key st')
    (hst : st.Apart now) : st'.Apart now := by
  have keep : ∀ ip ∈ st.traplist, ∃ gd, st'.db.entry (.ip ip) = some gd ∧ gd.pcount = -1 ∧
      now < gd.expire := by
    intro ip hip
    obtain ⟨gd, he, hp, hx⟩ := hst.1 ip hip
    exact ⟨gd, (h.live_trap he hp hx).1, hp, hx⟩
  have notrap : ∀ {ip gd}, st.db.entry (.ip ip) = some gd → gd.Ready now → ¬ st.db.Trapped ip := by
    rintro ip gd he hr ⟨gd', he', hp⟩
    rw [he] at he'; cases he'
    exact absurd hr.1 (by omega)
  cases h with
  | absent | waiting | blocked | foreign => exact hst
  | expired h0 hx =>
    refine ⟨by simpa using keep, ?_⟩
    rintro ip hip ⟨gd, he, hp⟩
    rw [DbScan.setDb_db, entry_dropEntry] at he
    split at he
    · cases he
    · exact hst.2 ip (by simpa using hip) ⟨gd, he, hp⟩
  | @trap ip gd h0 hx hp =>
    refine ⟨?_, by simpa using hst.2⟩
    intro ip' hip'
    rcases List.mem_append.mp hip' with hold | hnew
    · exact keep ip' hold
    · rw [List.mem_singleton.mp hnew]
      have hlive : now < gd.expire := by
        unfold GreyData.Expired at hx
        omega
      exact ⟨gd, h0, hp, hlive⟩
  | white h0 hx hr =>
    refine ⟨by simpa using keep, ?_⟩
    intro ip hip
    rcases (DbScan.mem_white _ _ _ _).mp hip with hold | rfl
    · simpa using hst.2 ip hold
    · simpa using notrap h0 hr
  | @promote gt gd h0 hx hr hnt =>
    refine ⟨by simpa using keep, ?_⟩
    rintro ip hip ⟨gd', he, hp⟩
    rw [DbScan.setDb_db, entry_promoted, if_neg (by simp)] at he
    split at he
    · cases he
      exact absurd hr.1 (by simp only [GreyData.whitened] at hp; omega)
    · next hne =>
      rcases (DbScan.mem_white _ _ _ _).mp hip with hold | rfl
      · exact hst.2 ip hold ⟨gd', he, hp⟩
      · exact hne rfl

theorem scanKeys_live_trap {keys : List DbKey} {ip : CStr} {gd : GreyData}
    (h : scanKeys checkAddr f now whiteExp st keys = some st')
    (he : st.db.entry (.ip ip) = some gd) (hp : gd.pcount = -1) (hx : now < gd.expire) :
    st'.db.entry (.ip ip) = some gd ∧ (ip ∈ st'.whites → ip ∈ st.whites) ∧
      (.ip ip ∈ keys ∨ ip ∈ st.traplist → ip ∈ st'.traplist) := by
  induction keys generalizing st with
  | nil =>
    cases h
    exact ⟨he, id, by simp⟩
  | cons key keys ih =>
    obtain ⟨mid, hmid, hrest⟩ := Option.bind_eq_some_iff.mp h
    obtain ⟨hme, hmw, hmk, hmt⟩ := (scanKey_step hmid).live_trap he hp hx
    obtain ⟨hle, hlw, hlt⟩ := ih hrest hme
    refine ⟨hle, hmw ∘ hlw, ?_⟩
    rintro (hk | ht)
    · rcases List.mem_cons.mp hk with heq | hin
      · exact hlt (.inr (hmk heq.symm))
      · exact hlt (.inl hin)
    · exact hlt (.inr (hmt ht))

end Steps

theorem DbScan.not_listed {st : DbScan} {ip : CStr} (h : ip ∉ st.whites) :
    ip ∉ st.whitelist ∧ ip ∉ st.whitelistIpv6 := by
  simpa [DbScan.whites] using h

/-- A live trap entry puts its address on the traplist, whatever tuples it has. -/
theorem live_trap_lists {checkAddr : CStr → Option SaFamily} {f : DbFaults} {now whiteExp : Int}
    {b : Bdb} (order : CursorOrder b) {st : DbScan} {ip : CStr} {gd : GreyData}
    (h : modScanDb checkAddr f now whiteExp b order.keys = some st)
    (he : b.entry (.ip ip) = some gd) (hp : gd.pcount = -1) (hlive : now < gd.expire) :
    ip ∈ st.traplist ∧ ip ∉ st.whitelist ∧ ip ∉ st.whitelistIpv6 ∧
      st.db.entry (.ip ip) = some gd := by
  obtain ⟨hle, hlw, hlt⟩ := scanKeys_live_trap h he hp hlive
  have hmem : .ip ip ∈ order.keys :=
    order.covers _ (mem_iff_entry.mpr (by rw [he]; exact Option.some_ne_none gd))
  obtain ⟨h4, h6⟩ := DbScan.not_listed fun hw => absurd (hlw hw) (by simp [DbScan.whites])
  exact ⟨hlt (.inl hmem), h4, h6, hle⟩

/-- Every address with a live trap entry is put on the traplist and on neither whitelist,
whatever tuples it has and in whatever order the cursor goes; no address is on both kinds
of list, and the trap entry is still there afterwards. -/
theorem trap_survives_scan (checkAddr : CStr → Option SaFamily) (f : DbFaults)
    (now whiteExp : Int) (b : Bdb) (order : CursorOrder b) (st : DbScan)
    (h : modScanDb checkAddr f now whiteExp b order.keys = some st) :
    (∀ ip gd, b.entry (.ip ip) = some gd → gd.pcount = -1 → now < gd.expire →
      ip ∈ st.traplist ∧ ip ∉ st.whitelist ∧ ip ∉ st.whitelistIpv6 ∧
        st.db.entry (.ip ip) = some gd) ∧
      ∀ ip ∈ st.traplist, ip ∉ st.whitelist ∧ ip ∉ st.whitelistIpv6 := by
  constructor
  · intro ip gd he hp hx
    exact live_trap_lists order h he hp hx
  · have hapart : st.Apart now := by
      apply scanKeys_induct (fun _ _ _ _ hstep => hstep.apart) h
      exact ⟨by simp, by simp [DbScan.whites]⟩
    intro ip hip
    obtain ⟨gd, he, hp, -⟩ := hapart.1 ip hip
    exact DbScan.not_listed fun hw => hapart.2 ip hw ⟨gd, he, hp⟩

/-- The cursor that meets exactly the stored records. -/
def Bdb.cursor (b : Bdb) : CursorOrder b := ⟨b.db.keys, b.db.keys_nodup, fun _ h => h⟩

/-- A trapped address with a tuple whose pass time has come. -/
def trappedBdb : Bdb :=
  (Bdb.empty.putEntry (.tuple ⟨"10.0.0.1".toList, [], [], []⟩) ⟨0, 5, 100, 2, 0⟩).putEntry
    (.ip "10.0.0.1".toList) ⟨0, 100, 100, 1, -1⟩

def trappedOrder : CursorOrder trappedBdb where
  keys := trappedBdb.db.keys
  nodup := trappedBdb.db.keys_nodup
  covers _ h := h

theorem trap_survives_scan_ready_tuple :
    ∃ st, modScanDb (fun _ => some afInet) .none 10 3600 trappedBdb trappedOrder.keys = some st ∧
      "10.0.0.1".toList ∈ st.traplist ∧ "10.0.0.1".toList ∉ st.whitelist := by
  have hsome : (modScanDb (fun _ => some afInet) .none 10 3600 trappedBdb
      trappedOrder.keys).isSome = true := by decide
  obtain ⟨st, hst⟩ := Option.isSome_iff_exists.mp hsome
  have hip : trappedBdb.entry (.ip "10.0.0.1".toList) = some ⟨0, 100, 100, 1, -1⟩ := by decide
  obtain ⟨hlists, -⟩ := trap_survives_scan _ _ _ _ _ trappedOrder st hst
  obtain ⟨htrap, hwhite, -⟩ := hlists _ _ hip rfl (by decide)
  exact ⟨st, hst, htrap, hwhite⟩

end Greyd
