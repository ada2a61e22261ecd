import Greyd.CursorScan
import Greyd.SqlScan

/-!
# A scan by cursor and a scan by SQL (bdb.c, sqlite.c)

The two drivers keep the same set of entries in different shapes: records under packed
keys, and rows. The hash file hands out its records in an order of its own, and so does the
table; what the drivers agree on they agree on whatever the orders are.
-/
namespace Greyd

/-- The records and the rows are the same set of entries: those of addresses, and those of
tuples with a sender and a recipient. -/
structure SameEntries (b : Bdb) (t : SqlTable) : Prop where
  own : ∀ ip, b.entry (.ip ip) = t.lookup (ipRow ip)
  tuple : ∀ gt, gt.from_ ≠ [] → gt.to_ ≠ [] → b.entry (.tuple gt) = t.lookup gt
  keys : ∀ key gd, b.entry key = some gd →
    (∃ ip, key = .ip ip) ∨ ∃ gt, key = .tuple gt ∧ gt.from_ ≠ [] ∧ gt.to_ ≠ []
  rows : t.Keyed

theorem sameEntries_empty : SameEntries .empty ∅ where
  own _ := rfl
  tuple _ _ _ := rfl
  keys _ _ he := nomatch he
  rows _ _ he := nomatch he

/-- Storing the entry of an address in either database. -/
theorem SameEntries.putIp {b : Bdb} {t : SqlTable} (h : SameEntries b t) (ip : CStr) (gd : GreyData) :
    SameEntries (b.putEntry (.ip ip) gd) (t.insert (ipRow ip) gd) where
  own ip' := by
    rw [entry_putEntry]
    by_cases hip : ip' = ip
    · subst hip
      rw [if_pos rfl, AList.lookup_insert]
    · have hrow : ipRow ip' ≠ ipRow ip := fun heq => hip (congrArg GreyTuple.ip heq)
      rw [if_neg (by simpa using hip), AList.lookup_insert_ne hrow, h.own]
  tuple gt hfrom hto := by
    have hrow : gt ≠ ipRow ip := fun heq => hfrom (congrArg GreyTuple.from_ heq)
    rw [entry_putEntry, if_neg (by simp), AList.lookup_insert_ne hrow, h.tuple gt hfrom hto]
  keys key gd' he := by
    rw [entry_putEntry] at he
    split at he
    · next hk => exact .inl ⟨ip, hk⟩
    · exact h.keys key gd' he
  rows gt gd' he := by
    by_cases hrow : gt = ipRow ip
    · exact .inl (by rw [hrow]; rfl)
    · rw [AList.lookup_insert_ne hrow] at he
      exact h.rows gt gd' he

/-- Storing that of a tuple. -/
theorem SameEntries.putTuple {b : Bdb} {t : SqlTable} (h : SameEntries b t) {gt : GreyTuple}
    (hfrom : gt.from_ ≠ []) (hto : gt.to_ ≠ []) (gd : GreyData) :
    SameEntries (b.putEntry (.tuple gt) gd) (t.insert gt gd) where
  own ip := by
    have hrow : ipRow ip ≠ gt := fun heq => hfrom (congrArg GreyTuple.from_ heq).symm
    rw [entry_putEntry, if_neg (by simp), AList.lookup_insert_ne hrow, h.own]
  tuple gt' hfrom' hto' := by
    rw [entry_putEntry]
    by_cases hgt : gt' = gt
    · subst hgt
      rw [if_pos rfl, AList.lookup_insert]
    · rw [if_neg (by simpa using hgt), AList.lookup_insert_ne hgt, h.tuple gt' hfrom' hto']
  keys key gd' he := by
    rw [entry_putEntry] at he
    split at he
    · next hk => exact .inr ⟨gt, hk, hfrom, hto⟩
    · exact h.keys key gd' he
  rows gt' gd' he := by
    by_cases hgt : gt' = gt
    · rw [hgt]
      exact .inr ⟨hfrom, hto⟩
    · rw [AList.lookup_insert_ne hgt] at he
      exact h.rows gt' gd' he

/-- The lists have the same addresses, and the entries left are the same. -/
structure SameScan (st : DbScan) (txn : SqlTxn SqlTable) : Prop where
  white : ∀ ip, ip ∈ st.whitelist ↔ ip ∈ txn.lists.whitelist
  whiteIpv6 : ∀ ip, ip ∈ st.whitelistIpv6 ↔ ip ∈ txn.lists.whitelistIpv6
  trap : ∀ ip, ip ∈ st.traplist ↔ ip ∈ txn.lists.traplist
  entries : SameEntries st.db txn.db

/-- The same data but for the expiry. -/
def GreyData.Alike (gd gd' : GreyData) : Prop :=
  gd.first = gd'.first ∧ gd.pass = gd'.pass ∧ gd.bcount = gd'.bcount ∧ gd.pcount = gd'.pcount

section Agreement

variable (numericHost : SaFamily → CStr → Bool) (now whiteExp : Int)

/-- Both scans succeed, and with the same result. -/
def ScansAgree (b : Bdb) (order : List DbKey) (t : SqlTable) : Prop :=
  ∃ st txn, modScanDb (ipCheckAddr numericHost) .none now whiteExp b order = some st ∧
    Sqlite.modScanDb tableSql (fun _ => .done) now whiteExp ⟨t, false, ⟨[], [], []⟩⟩ = (.ok, txn) ∧
    SameScan st txn

/-- An address with a colon in it is one getaddrinfo reads. -/
def FamilyRead (ip : CStr) : Prop := ':' ∈ ip → numericHost afInet6 ip = true

/-- The entry of the address has expired, or it has none. -/
def Bdb.NoLiveEntry (b : Bdb) (ip : CStr) : Prop :=
  ∀ gd, b.entry (.ip ip) = some gd → gd.expire ≤ now

/-- The entries of an address with which a scan does the same in either driver: a live trap;
a live entry that passes, and no tuple that does; nothing that passes; or, in the place of
an entry that is gone, tuples that pass and have the same data but for the expiry. -/
inductive Bdb.AlikeAt (b : Bdb) (ip : CStr) : Prop
  | trapped {gd} : b.entry (.ip ip) = some gd → now < gd.expire → gd.pcount = -1 → AlikeAt b ip
  | white {gd} : b.entry (.ip ip) = some gd → gd.Passing now → ¬ b.PassingTuple ip now →
      FamilyRead numericHost ip → AlikeAt b ip
  | quiet : b.NoLiveEntry now ip → ¬ b.PassingTuple ip now →
      (∀ gd, b.entry (.ip ip) = some gd → -1 ≤ gd.pcount) → AlikeAt b ip
  | renewed : b.NoLiveEntry now ip → b.PassingTuple ip now →
      (∀ gd, b.entry (.ip ip) = some gd → gd.pcount ≠ -1) → 0 < whiteExp →
      (∀ gt gd gt' gd', b.Promotes ip now gt gd → b.Promotes ip now gt' gd' → gd.Alike gd') →
      FamilyRead numericHost ip → AlikeAt b ip

end Agreement

section

variable {numericHost : SaFamily → CStr → Bool} {now whiteExp : Int} {b : Bdb} {t : SqlTable}
  {ip : CStr} {st : DbScan} {keys : List DbKey} {gt : GreyTuple} {gd : GreyData}

theorem GreyData.whitened_inj {gd gd' : GreyData} (expire : Int) :
    gd.whitened expire = gd'.whitened expire ↔ gd.Alike gd' := by
  simp [GreyData.whitened, GreyData.Alike]

theorem SameEntries.perm {t' : SqlTable} (h : SameEntries b t) (hperm : t'.entries.Perm t.entries) :
    SameEntries b t' := by
  have hlookup : ∀ gt, t'.lookup gt = t.lookup gt := fun gt => AList.perm_lookup hperm
  refine ⟨fun ip => ?_, fun gt hfrom hto => ?_, h.keys, fun gt gd he => ?_⟩
  · rw [hlookup, h.own]
  · rw [hlookup, h.tuple gt hfrom hto]
  · exact h.rows gt gd (by rw [← hlookup, he])

theorem SameEntries.named (h : SameEntries b t) (he : b.entry (.tuple gt) = some gd) :
    gt.from_ ≠ [] ∧ gt.to_ ≠ [] := by
  rcases h.keys _ _ he with ⟨ip, hk⟩ | ⟨gt', hk, hne⟩
  · cases hk
  · cases hk
    exact hne

theorem SameEntries.noLive_iff (h : SameEntries b t) :
    b.NoLiveEntry now ip ↔ t.NoLiveRow ip now := by
  unfold Bdb.NoLiveEntry SqlTable.NoLiveRow
  rw [h.own]

theorem SameEntries.promotes_iff (h : SameEntries b t) :
    b.Promotes ip now gt gd ↔ t.TupleOf ip now gt gd := by
  constructor
  · rintro ⟨hip, he, hp⟩
    obtain ⟨hfrom, hto⟩ := h.named he
    exact ⟨hip, by rw [← h.tuple gt hfrom hto, he], hfrom, hto, hp⟩
  · rintro ⟨hip, he, hfrom, hto, hp⟩
    exact ⟨hip, by rw [h.tuple gt hfrom hto, he], hp⟩

theorem checkAddr_iff (ip : CStr) : ipCheckAddr numericHost ip = some afInet6 ↔
    ':' ∈ ip ∧ numericHost afInet6 ip = true := by
  unfold ipCheckAddr
  by_cases hcolon : ':' ∈ ip
  · by_cases hnum : numericHost afInet6 ip = true <;> simp [hcolon, hnum]
  · by_cases hnum : numericHost afInet ip = true <;> simp [hcolon, afInet, afInet6]

theorem FamilyRead.iff (h : FamilyRead numericHost ip) :
    ipCheckAddr numericHost ip = some afInet6 ↔ ':' ∈ ip :=
  (checkAddr_iff ip).trans (and_iff_left_of_imp h)

theorem CursorOrder.mem (order : CursorOrder b) {key : DbKey} (he : b.entry key = some gd) :
    key ∈ order.keys :=
  order.covers key (mem_iff_entry.mpr (by rw [he]; exact Option.some_ne_none gd))

/-! ## Where the drivers agree -/

/-- The entry and the lists of one address, after either scan. -/
structure Settled (numericHost : SaFamily → CStr → Bool) (ip : CStr) (st : DbScan) (t : SqlTable)
    (own : Option GreyData) : Prop where
  entry : st.db.entry (.ip ip) = own
  row : t.lookup (ipRow ip) = own
  white : st.Lists (ipCheckAddr numericHost) ip ↔ ∃ gd, own = some gd ∧ 0 ≤ gd.pcount
  trap : ip ∈ st.traplist ↔ ∃ gd, own = some gd ∧ gd.pcount < 0
  family : st.Lists (ipCheckAddr numericHost) ip → FamilyRead numericHost ip

theorem trapped_settled (h : SameEntries b t) (order : CursorOrder b)
    (hst : modScanDb (ipCheckAddr numericHost) .none now whiteExp b order.keys = some st)
    (he : b.entry (.ip ip) = some gd) (hlive : now < gd.expire) (hp : gd.pcount = -1) :
    Settled numericHost ip st (t.scanned now whiteExp) (some gd) := by
  obtain ⟨htrap, h4, h6, hent⟩ := live_trap_lists order hst he hp hlive
  have hnot : ¬ st.Lists (ipCheckAddr numericHost) ip := by
    unfold DbScan.Lists DbScan.whitelistOf
    split
    · exact h6
    · exact h4
  refine ⟨hent, h.rows.scanned_ip_live (by rw [← h.own, he]) hlive, iff_of_false hnot ?_,
    iff_of_true htrap ⟨gd, rfl, by omega⟩, fun hl => absurd hl hnot⟩
  rintro ⟨gd', heq, hpos⟩
  cases heq
  omega

theorem white_settled (h : SameEntries b t) (order : CursorOrder b)
    (hst : modScanDb (ipCheckAddr numericHost) .none now whiteExp b order.keys = some st)
    (he : b.entry (.ip ip) = some gd) (hp : gd.Passing now) (hquiet : ¬ b.PassingTuple ip now)
    (hread : FamilyRead numericHost ip) :
    Settled numericHost ip st (t.scanned now whiteExp) (some gd) := by
  have hnt : ¬ b.Trapped ip := by
    rintro ⟨gd', he', hp'⟩
    rw [he] at he'; cases he'
    exact absurd hp.1 (by omega)
  refine ⟨scanKeys_quiet hst he hp hquiet, h.rows.scanned_ip_live (by rw [← h.own, he]) hp.2.2,
    iff_of_true (scanKeys_passing_ip hst (order.mem he) he hp hnt) ⟨gd, rfl, hp.1⟩,
    iff_of_false (fun htrap => ?_) ?_, fun _ => hread⟩
  · obtain ⟨gd', he', hp', -⟩ := (scanKeys_justified hst (by simp [DbScan.Lists, DbScan.whitelistOf])
      List.not_mem_nil).2 htrap
    exact hnt ⟨gd', he', hp'⟩
  · rintro ⟨gd', heq, hneg⟩
    cases heq
    exact absurd hp.1 (not_le.mpr hneg)

theorem quiet_settled (h : SameEntries b t) (order : CursorOrder b)
    (hst : modScanDb (ipCheckAddr numericHost) .none now whiteExp b order.keys = some st)
    (hno : b.NoLiveEntry now ip) (hquiet : ¬ b.PassingTuple ip now)
    (hlow : ∀ gd, b.entry (.ip ip) = some gd → -1 ≤ gd.pcount) :
    Settled numericHost ip st (t.scanned now whiteExp) none := by
  have hent : st.db.entry (.ip ip) = none := by
    cases he : b.entry (.ip ip) with
    | none =>
      rw [Option.eq_none_iff_forall_ne_some]
      intro gd he'
      rcases scanKeys_ip_cases hst he' with hold | ⟨gt, data, hprom, -⟩
      · exact Option.some_ne_none gd (hold.symm.trans he)
      · exact hquiet ⟨gt, data, hprom⟩
    | some gd =>
      have hx : gd.Expired now := ⟨hno gd he, by have := hlow gd he; omega⟩
      exact scanKeys_ip_expired hst hquiet order.nodup (order.mem he) he hx
  have hrow : (t.scanned now whiteExp).lookup (ipRow ip) = none :=
    h.rows.scanned_ip_none (h.noLive_iff.mp hno) fun gt gd hof =>
      hquiet ⟨gt, gd, h.promotes_iff.mpr hof⟩
  obtain ⟨hlists, htraps⟩ := @scanKeys_justified _ _ _ _ _ _ _ ip hst
    (by simp [DbScan.Lists, DbScan.whitelistOf]) List.not_mem_nil
  have hnot : ¬ st.Lists (ipCheckAddr numericHost) ip := by
    intro hl
    rcases hlists hl with ⟨gd, he, hp⟩ | htup
    · exact absurd (hno gd he) (not_le.mpr hp.2.2)
    · exact hquiet htup
  refine ⟨hent, hrow, iff_of_false hnot (by simp), iff_of_false (fun htrap => ?_) (by simp),
    fun hl => absurd hl hnot⟩
  obtain ⟨gd, he, -, hlive⟩ := htraps htrap
  exact absurd (hno gd he) (not_le.mpr hlive)

theorem renewed_settled (h : SameEntries b t) (order : CursorOrder b)
    (hst : modScanDb (ipCheckAddr numericHost) .none now whiteExp b order.keys = some st)
    (hno : b.NoLiveEntry now ip) (hpt : b.PassingTuple ip now) (hnt : ¬ b.Trapped ip)
    (hwhite : 0 < whiteExp)
    (hsame : ∀ gt gd gt' gd', b.Promotes ip now gt gd → b.Promotes ip now gt' gd' → gd.Alike gd')
    (hread : FamilyRead numericHost ip) :
    ∃ gd, Settled numericHost ip st (t.scanned now whiteExp) (some gd) := by
  obtain ⟨gt, gd, hprom⟩ := hpt
  obtain ⟨gt₁, gd₁, hprom₁, hent⟩ := scanKeys_ip_promoted hst (order.mem hprom.2.1) hprom hnt hno hwhite
  obtain ⟨gt₂, gd₂, hof, hrow⟩ := @SqlTable.Keyed.scanned_ip_turned _ _ _ _ _ whiteExp h.rows
    (h.noLive_iff.mp hno) (h.promotes_iff.mp hprom)
  have heq := (GreyData.whitened_inj (now + whiteExp)).mpr
    (hsame _ _ _ _ hprom₁ (h.promotes_iff.mpr hof))
  have hlist : st.Lists (ipCheckAddr numericHost) ip := by
    obtain ⟨rfl, he, hp⟩ := hprom
    exact (scanKeys_passing_tuple hst (order.mem he) he hp hnt).1
  refine ⟨gd₁.whitened (now + whiteExp), hent, by rw [hrow, ← heq],
    iff_of_true hlist ⟨_, rfl, hprom₁.2.2.1⟩, iff_of_false (fun htrap => ?_) ?_, fun _ => hread⟩
  · obtain ⟨own, he, -, hlive⟩ := (scanKeys_justified hst (by simp [DbScan.Lists, DbScan.whitelistOf])
      List.not_mem_nil).2 htrap
    exact absurd (hno own he) (not_le.mpr hlive)
  · rintro ⟨own, hown, hneg⟩
    cases hown
    exact absurd hprom₁.2.2.1 (not_le.mpr hneg)

theorem Bdb.AlikeAt.settled (hal : b.AlikeAt numericHost now whiteExp ip) (h : SameEntries b t)
    (order : CursorOrder b)
    (hst : modScanDb (ipCheckAddr numericHost) .none now whiteExp b order.keys = some st) :
    ∃ own, Settled numericHost ip st (t.scanned now whiteExp) own := by
  cases hal with
  | trapped he hlive hp => exact ⟨_, trapped_settled h order hst he hlive hp⟩
  | white he hp hquiet hread => exact ⟨_, white_settled h order hst he hp hquiet hread⟩
  | quiet hno hquiet hlow => exact ⟨_, quiet_settled h order hst hno hquiet hlow⟩
  | renewed hno hpt hne hwhite hsame hread =>
    have hnt : ¬ b.Trapped ip := fun ⟨gd, he, hp⟩ => hne gd he hp
    obtain ⟨gd, hset⟩ := renewed_settled h order hst hno hpt hnt hwhite hsame hread
    exact ⟨some gd, hset⟩

/-- The entries of the address's tuples, after either scan. -/
theorem Bdb.AlikeAt.tuple (hal : b.AlikeAt numericHost now whiteExp gt.ip) (h : SameEntries b t)
    (order : CursorOrder b)
    (hst : modScanDb (ipCheckAddr numericHost) .none now whiteExp b order.keys = some st)
    (hlow : ∀ gd, b.entry (.tuple gt) = some gd → gd.expire ≤ now → -2 < gd.pcount)
    (hfrom : gt.from_ ≠ []) (hto : gt.to_ ≠ []) :
    st.db.entry (.tuple gt) = (t.scanned now whiteExp).lookup gt := by
  have hsame := h.tuple gt hfrom hto
  by_cases hgone : ∃ gd, b.entry (.tuple gt) = some gd ∧ gd.Passing now ∧ b.NoLiveEntry now gt.ip
  · obtain ⟨gd, he, hp, hno⟩ := hgone
    have hnt : ¬ b.Trapped gt.ip := by
      cases hal with
      | trapped he hlive => exact absurd (hno _ he) (not_le.mpr hlive)
      | white he hpass => exact absurd (hno _ he) (not_le.mpr hpass.2.2)
      | quiet _ hquiet => exact absurd ⟨gt, gd, rfl, he, hp⟩ hquiet
      | renewed _ _ hne => exact fun ⟨own, hown, htrap⟩ => hne own hown htrap
    rw [(scanKeys_passing_tuple hst (order.mem he) he hp hnt).2.2,
      h.rows.scanned_tuple_gone hfrom hto (hsame ▸ he) hp (h.noLive_iff.mp hno)]
  · refine Option.ext fun gd => ?_
    rw [h.rows.scanned_tuple_kept hfrom fun gd' he' hp hno =>
      hgone ⟨gd', hsame.trans he', hp, h.noLive_iff.mpr hno⟩, ← hsame]
    cases he : b.entry (.tuple gt) with
    | none =>
      refine iff_of_false (fun he' => ?_) (by simp)
      rcases scanKeys_keys hst he' with ⟨ip, hk⟩ | hold
      · cases hk
      · exact Option.some_ne_none gd (hold.symm.trans he)
    | some data =>
      by_cases hlive : now < data.expire
      · have hkept : st.db.entry (.tuple gt) = some data := by
          have hnx : ¬ data.Expired now := fun hx => absurd hx.1 (not_le.mpr hlive)
          by_cases hr : data.Ready now
          · have hp : data.Passing now := (data.passing_iff now).mpr ⟨hnx, hr⟩
            cases hal with
            | trapped hown hlive' htrap =>
              exact scanKeys_tuple_trapped hst order.nodup (order.mem he) he hnx hown htrap hlive'
            | white _ _ hquiet => exact absurd ⟨gt, data, rfl, he, hp⟩ hquiet
            | quiet hno => exact absurd ⟨data, he, hp, hno⟩ hgone
            | renewed hno => exact absurd ⟨data, he, hp, hno⟩ hgone
          · exact scanKeys_tuple_waiting hst order.nodup (order.mem he) he hnx hr
        rw [hkept]
        exact (and_iff_left_of_imp fun heq => Option.some.inj heq ▸ hlive).symm
      · have hx : data.Expired now := ⟨not_lt.mp hlive, hlow data he (not_lt.mp hlive)⟩
        rw [scanKeys_tuple_expired hst order.nodup (order.mem he) he hx]
        refine iff_of_false (by simp) fun hno => hlive ?_
        rw [Option.some.inj hno.1]
        exact hno.2

/-- Entries that are alike at every address give the same scan. -/
theorem alike_sameScan (h : SameEntries b t) (order : CursorOrder b)
    (hst : modScanDb (ipCheckAddr numericHost) .none now whiteExp b order.keys = some st)
    (hlow : ∀ gt gd, b.entry (.tuple gt) = some gd → gd.expire ≤ now → -2 < gd.pcount)
    (hal : ∀ ip, b.AlikeAt numericHost now whiteExp ip) :
    SameScan st ⟨t.scanned now whiteExp, false, (t.scanned now whiteExp).lists⟩ := by
  have hkeyed : (t.scanned now whiteExp).Keyed := h.rows.scanned
  refine ⟨fun ip => ?_, fun ip => ?_, fun ip => ?_, ⟨fun ip => ?_, fun gt hfrom hto => ?_, ?_, hkeyed⟩⟩
  · obtain ⟨own, hset⟩ := (hal ip).settled h order hst
    rw [(scanKeys_families hst).1, hkeyed.mem_whitelist, hset.row, ← hset.white]
    exact and_congr_right fun hl => not_congr (hset.family hl).iff
  · obtain ⟨own, hset⟩ := (hal ip).settled h order hst
    rw [(scanKeys_families hst).2, hkeyed.mem_whitelistIpv6, hset.row, ← hset.white]
    exact and_congr_right fun hl => (hset.family hl).iff
  · obtain ⟨own, hset⟩ := (hal ip).settled h order hst
    rw [hkeyed.mem_traplist, hset.row]
    exact hset.trap
  · obtain ⟨own, hset⟩ := (hal ip).settled h order hst
    exact hset.entry.trans hset.row.symm
  · exact (hal gt.ip).tuple h order hst (hlow gt) hfrom hto
  · intro key gd he
    rcases scanKeys_keys hst he with hip | hold
    · exact .inl hip
    · exact h.keys key gd hold

/-! ## Where they do not -/

/-- A cursor that comes across one key before all others. -/
def Bdb.startingAt (b : Bdb) (key : DbKey) : CursorOrder b where
  keys := key :: b.db.keys.erase key
  nodup := List.nodup_cons.mpr ⟨b.db.keys_nodup.not_mem_erase, b.db.keys_nodup.erase key⟩
  covers k hk := by
    by_cases hkey : k = key
    · exact List.mem_cons.mpr (.inl hkey)
    · exact List.mem_cons.mpr (.inr ((List.mem_erase_of_ne hkey).mpr hk))

/-- A cursor that comes across one key after all others. -/
def Bdb.endingAt (b : Bdb) (key : DbKey) : CursorOrder b where
  keys := b.db.keys.erase key ++ [key]
  nodup := List.nodup_append_comm.mp (b.startingAt key).nodup
  covers k hk := List.perm_append_comm.mem_iff.mp ((b.startingAt key).covers k hk)

theorem SqlTable.exists_listed_last (he : t.lookup gt = some gd) :
    ∃ (t' : SqlTable) (rows : List (Sigma fun _ : GreyTuple => GreyData)),
      t'.entries.Perm t.entries ∧ t'.entries = rows ++ [⟨gt, gd⟩] := by
  obtain ⟨front, back, hrows⟩ := List.append_of_mem (SqlTable.lookup_eq_some.mp he)
  have hperm : (front ++ back ++ [(⟨gt, gd⟩ : Sigma fun _ : GreyTuple => GreyData)]).Perm
      t.entries := by
    rw [hrows]
    exact (List.perm_append_singleton _ _).trans List.perm_middle.symm
  exact ⟨⟨_, (List.perm_nodupKeys hperm).mpr t.nodupKeys⟩, _, hperm, rfl⟩

section Apart

variable (h : SameEntries b t) (order : CursorOrder b)
  (hst : modScanDb (ipCheckAddr numericHost) .none now whiteExp b order.keys = some st)
  (hsame : SameScan st ⟨t.scanned now whiteExp, false, (t.scanned now whiteExp).lists⟩)

include h hst hsame

/-- A spamtrap's or a domain's tuple that has expired is kept by one driver only. -/
theorem SameScan.low (he : b.entry (.tuple gt) = some gd) (hx : gd.expire ≤ now) :
    -2 < gd.pcount := by
  by_contra hlow
  obtain ⟨hfrom, hto⟩ := h.named he
  have hkept := scanKeys_tuple_waiting hst order.nodup (order.mem he) he
    (fun hexp => hlow hexp.2) fun hr => hlow (lt_of_lt_of_le (by decide) hr.1)
  have hrow := (hsame.entries.tuple gt hfrom hto).symm.trans hkept
  rw [h.rows.scanned_tuple_kept hfrom fun gd' he' hp _ => by
    rw [← h.tuple gt hfrom hto, he] at he'
    cases he'
    exact absurd hp.2.2 (not_lt.mpr hx)] at hrow
  exact absurd hrow.2 (not_lt.mpr hx)

/-- An address the SQL scan whitelists is one the other scan lists, in the same family. -/
theorem SameScan.listed (hrow : (t.scanned now whiteExp).lookup (ipRow ip) = some gd)
    (hp : 0 ≤ gd.pcount) :
    st.Lists (ipCheckAddr numericHost) ip ∧ FamilyRead numericHost ip := by
  have hkeyed : (t.scanned now whiteExp).Keyed := h.rows.scanned
  by_cases hcolon : ':' ∈ ip
  · have hmem := (hsame.whiteIpv6 ip).mpr (hkeyed.mem_whitelistIpv6.mpr ⟨⟨gd, hrow, hp⟩, hcolon⟩)
    obtain ⟨hl, hread⟩ := (scanKeys_families hst).2.mp hmem
    exact ⟨hl, fun _ => ((checkAddr_iff ip).mp hread).2⟩
  · have hmem := (hsame.white ip).mpr (hkeyed.mem_whitelist.mpr ⟨⟨gd, hrow, hp⟩, hcolon⟩)
    exact ⟨((scanKeys_families hst).1.mp hmem).1, fun hc => absurd hc hcolon⟩

/-- A live entry that is not a trap passes, and no tuple of its address does. -/
theorem SameScan.live (he : b.entry (.ip ip) = some gd) (hlive : now < gd.expire)
    (hp : gd.pcount ≠ -1) :
    gd.Passing now ∧ ¬ b.PassingTuple ip now ∧ FamilyRead numericHost ip := by
  have hnt : ¬ b.Trapped ip := by
    rintro ⟨gd', he', hp'⟩
    rw [he] at he'; cases he'
    exact hp hp'
  have hown : t.lookup (ipRow ip) = some gd := by rw [← h.own, he]
  have hrow : (t.scanned now whiteExp).lookup (ipRow ip) = some gd :=
    h.rows.scanned_ip_live hown hlive
  have hquiet : ¬ b.PassingTuple ip now := by
    rintro ⟨gt, data, rfl, hgt, hpass⟩
    obtain ⟨hfrom, hto⟩ := h.named hgt
    have hkept : (t.scanned now whiteExp).lookup gt = some data := by
      rw [h.rows.scanned_tuple_kept hfrom fun _ _ _ hno => absurd (hno gd hown) (not_le.mpr hlive)]
      exact ⟨by rw [← h.tuple gt hfrom hto, hgt], hpass.2.2⟩
    have hgone := (scanKeys_passing_tuple hst (order.mem hgt) hgt hpass hnt).2.2
    exact Option.some_ne_none data (hkept.symm.trans ((hsame.entries.tuple gt hfrom hto).symm.trans hgone))
  obtain ⟨hlists, htraps⟩ := @scanKeys_justified _ _ _ _ _ _ _ ip hst
    (by simp [DbScan.Lists, DbScan.whitelistOf]) List.not_mem_nil
  have hpos : 0 ≤ gd.pcount := by
    by_contra hneg
    have hkeyed : (t.scanned now whiteExp).Keyed := h.rows.scanned
    have htrap := (hsame.trap ip).mpr (hkeyed.mem_traplist.mpr ⟨gd, hrow, not_le.mp hneg⟩)
    obtain ⟨gd', he', hp', -⟩ := htraps htrap
    exact hnt ⟨gd', he', hp'⟩
  obtain ⟨hl, hread⟩ := hsame.listed h order hst hrow hpos
  refine ⟨?_, hquiet, hread⟩
  rcases hlists hl with ⟨gd', he', hpass⟩ | htup
  · rw [he] at he'; cases he'
    exact hpass
  · exact absurd htup hquiet

/-- An expired entry that the cursor leaves is not there among the rows. -/
theorem SameScan.quiet (hno : b.NoLiveEntry now ip) (hquiet : ¬ b.PassingTuple ip now)
    (he : b.entry (.ip ip) = some gd) : -1 ≤ gd.pcount := by
  by_contra hlow
  have hkept := scanKeys_ip_kept hst hquiet order.nodup (order.mem he) he
    fun hx => absurd hx.2 (by omega)
  have hrow : (t.scanned now whiteExp).lookup (ipRow ip) = none :=
    h.rows.scanned_ip_none (h.noLive_iff.mp hno) fun gt data hof =>
      hquiet ⟨gt, data, h.promotes_iff.mpr hof⟩
  exact Option.some_ne_none gd (hkept.symm.trans ((hsame.entries.own ip).trans hrow))

end Apart

section Orders

variable (h : SameEntries b t)
  (hall : ∀ (order : CursorOrder b) (t' : SqlTable), t'.entries.Perm t.entries →
    ScansAgree numericHost now whiteExp b order.keys t')

include hall

/-- What agreement gives for one order of the cursor and one of the rows. -/
theorem agreed (order : CursorOrder b) {t' : SqlTable} (hperm : t'.entries.Perm t.entries) :
    ∃ st, modScanDb (ipCheckAddr numericHost) .none now whiteExp b order.keys = some st ∧
      SameScan st ⟨t'.scanned now whiteExp, false, (t'.scanned now whiteExp).lists⟩ := by
  obtain ⟨st, txn, hst, htxn, hsame⟩ := hall order t' hperm
  cases htxn
  exact ⟨st, hst, hsame⟩

include h

/-- An expired trap holds back the tuples that the cursor comes across before it. -/
theorem agreed_not_trapped (hno : b.NoLiveEntry now ip) (hprom : b.Promotes ip now gt gd) :
    ¬ b.Trapped ip := by
  intro ht
  obtain ⟨rfl, he, hp⟩ := hprom
  obtain ⟨hfrom, hto⟩ := h.named he
  obtain ⟨st, hst, hsame⟩ := agreed hall (b.startingAt (.tuple gt)) .rfl
  obtain ⟨mid, hmid, hrest⟩ := Option.bind_eq_some_iff.mp hst
  have hkept : mid.db.entry (.tuple gt) = some gd :=
    (scanKey_step hmid).tuple_kept he ((gd.passing_iff now).mp hp).1 (.inr ht)
  have hend := scanKeys_entry_tuple hrest (b.db.keys_nodup.not_mem_erase)
  have hgone : (t.scanned now whiteExp).lookup gt = none :=
    h.rows.scanned_tuple_gone hfrom hto (by rw [← h.tuple gt hfrom hto, he]) hp (h.noLive_iff.mp hno)
  exact Option.some_ne_none gd ((hend.trans hkept).symm.trans
    ((hsame.entries.tuple gt hfrom hto).trans hgone))

/-- An entry that is expired from the start is taken away when the cursor comes across it. -/
theorem agreed_whiteExp (hno : b.NoLiveEntry now ip) (hprom : b.Promotes ip now gt gd)
    (hnt : ¬ b.Trapped ip) : 0 < whiteExp := by
  by_contra hw
  obtain ⟨rfl, he, hp⟩ := hprom
  obtain ⟨st, hst, hsame⟩ := agreed hall (b.endingAt (.ip gt.ip)) .rfl
  have hsplit := @scanKeys_append (ipCheckAddr numericHost) now whiteExp .none ⟨b, [], [], []⟩
    (b.db.keys.erase (.ip gt.ip)) [.ip gt.ip]
  obtain ⟨mid, hmid, hlast⟩ := Option.bind_eq_some_iff.mp (hsplit.symm.trans hst)
  obtain ⟨st', hstep, hend⟩ := Option.bind_eq_some_iff.mp hlast
  cases hend
  have hkey : DbKey.tuple gt ∈ b.db.keys.erase (.ip gt.ip) :=
    (List.mem_erase_of_ne (by simp)).mpr (b.cursor.mem he)
  obtain ⟨-, hrenewed, -⟩ := scanKeys_passing_tuple hmid hkey he hp hnt
  have hnone : st.db.entry (.ip gt.ip) = none := by
    rcases hrenewed with ⟨own, hown, hpos, -, hexp⟩ | ⟨-, hnone⟩
    · exact (scanKey_step hstep).ip_expired hown ⟨by omega, by omega⟩
    · exact (scanKey_step hstep).ip_absent hnone
  obtain ⟨gt', gd', -, hrow⟩ := @SqlTable.Keyed.scanned_ip_turned _ _ _ _ _ whiteExp h.rows
    (h.noLive_iff.mp hno) (h.promotes_iff.mp ⟨rfl, he, hp⟩)
  exact Option.some_ne_none _ (hrow.symm.trans ((hsame.entries.own gt.ip).symm.trans hnone))

/-- Of two tuples the rows can list either last. -/
theorem agreed_alike {gt' : GreyTuple} {gd' : GreyData} (hno : b.NoLiveEntry now ip)
    (hprom : b.Promotes ip now gt gd) (hprom' : b.Promotes ip now gt' gd') : gd.Alike gd' := by
  have hlast : ∀ {gt gd st}, b.Promotes ip now gt gd →
      modScanDb (ipCheckAddr numericHost) .none now whiteExp b b.cursor.keys = some st →
      st.db.entry (.ip ip) = some (gd.whitened (now + whiteExp)) := by
    intro gt gd st hprom hst
    have hof := h.promotes_iff.mp hprom
    obtain ⟨t', rows, hperm, hrows⟩ := SqlTable.exists_listed_last hof.2.1
    obtain ⟨st', hst', hsame⟩ := agreed hall b.cursor hperm
    cases hst.symm.trans hst'
    have h' := h.perm hperm
    rw [hsame.entries.own]
    exact h'.rows.scanned_ip_last (h'.noLive_iff.mp hno) (h'.promotes_iff.mp hprom) hrows
  obtain ⟨st, hst, -⟩ := agreed hall b.cursor .rfl
  exact (GreyData.whitened_inj (now + whiteExp)).mp
    (Option.some.inj ((hlast hprom hst).symm.trans (hlast hprom' hst)))

theorem agreed_alikeAt (ip : CStr) : b.AlikeAt numericHost now whiteExp ip := by
  obtain ⟨st, hst, hsame⟩ := agreed hall b.cursor .rfl
  by_cases hno : b.NoLiveEntry now ip
  · by_cases hpt : b.PassingTuple ip now
    · have hnt : ¬ b.Trapped ip := by
        obtain ⟨gt, gd, hprom⟩ := hpt
        exact agreed_not_trapped h hall hno hprom
      have hwhite : 0 < whiteExp := by
        obtain ⟨gt, gd, hprom⟩ := hpt
        exact agreed_whiteExp h hall hno hprom hnt
      refine .renewed hno hpt (fun gd he hp => hnt ⟨gd, he, hp⟩) hwhite
        (fun gt gd gt' gd' => agreed_alike h hall hno) ?_
      obtain ⟨gt, gd, hprom⟩ := hpt
      obtain ⟨gt', gd', hof, hrow⟩ := h.rows.scanned_ip_turned (h.noLive_iff.mp hno)
        (h.promotes_iff.mp hprom)
      exact (hsame.listed h b.cursor hst hrow hof.2.2.2.2.1).2
    · exact .quiet hno hpt fun gd => hsame.quiet h b.cursor hst hno hpt
  · obtain ⟨gd, hlive⟩ := not_forall.mp hno
    obtain ⟨he, hlive⟩ := Classical.not_imp.mp hlive
    by_cases hp : gd.pcount = -1
    · exact .trapped he (not_le.mp hlive) hp
    · obtain ⟨hpass, hquiet, hread⟩ := hsame.live h b.cursor hst he (not_le.mp hlive) hp
      exact .white he hpass hquiet hread

end Orders

end

/-- The drivers scan a set of entries with the same result, in whatever order the cursor
comes across the records and the rows are listed, exactly when the entries are alike at
every address and no tuple of a spamtrap or a domain has expired. -/
theorem scans_agree_iff (numericHost : SaFamily → CStr → Bool) (now whiteExp : Int) (b : Bdb)
    (t : SqlTable) (h : SameEntries b t) :
    (∀ (order : CursorOrder b) (t' : SqlTable), t'.entries.Perm t.entries →
        ScansAgree numericHost now whiteExp b order.keys t') ↔
      (∀ gt gd, b.entry (.tuple gt) = some gd → gd.expire ≤ now → -2 < gd.pcount) ∧
        ∀ ip, b.AlikeAt numericHost now whiteExp ip := by
  constructor
  · intro hall
    obtain ⟨st, hst, hsame⟩ := agreed hall b.cursor .rfl
    exact ⟨fun gt gd => hsame.low h b.cursor hst, agreed_alikeAt h hall⟩
  · rintro ⟨hlow, hal⟩ order t' hperm
    obtain ⟨st, hst⟩ := @scanKeys_total (ipCheckAddr numericHost) now whiteExp ⟨b, [], [], []⟩ order.keys
    exact ⟨st, _, hst, rfl, alike_sameScan (h.perm hperm) order hst hlow hal⟩

/-! ## A whitelisted address with a tuple that passes -/

def anotherTry : GreyTuple := ⟨"10.0.0.1".toList, "h".toList, "f@a".toList, "t@b".toList⟩

def whitelistedBdb : Bdb :=
  (Bdb.empty.putEntry (.tuple anotherTry) ⟨0, 5, 100, 2, 0⟩).putEntry (.ip "10.0.0.1".toList)
    ⟨0, 5, 100, 1, 1⟩

def whitelistedRows : SqlTable :=
  ((∅ : SqlTable).insert anotherTry ⟨0, 5, 100, 2, 0⟩).insert (ipRow "10.0.0.1".toList)
    ⟨0, 5, 100, 1, 1⟩

theorem whitelisted_sameEntries : SameEntries whitelistedBdb whitelistedRows :=
  (@SameEntries.putTuple _ _ sameEntries_empty anotherTry (by decide) (by decide) _).putIp _ _

theorem scans_agree_whitelisted :
    (∀ (order : CursorOrder whitelistedBdb) (t' : SqlTable),
        t'.entries.Perm whitelistedRows.entries →
        ScansAgree (fun _ _ => true) 10 3600 whitelistedBdb order.keys t') ↔
      (∀ gt gd, whitelistedBdb.entry (.tuple gt) = some gd → gd.expire ≤ 10 → -2 < gd.pcount) ∧
        ∀ ip, whitelistedBdb.AlikeAt (fun _ _ => true) 10 3600 ip :=
  scans_agree_iff (fun _ _ => true) 10 3600 whitelistedBdb whitelistedRows whitelisted_sameEntries

/-- The cursor's driver puts the tuple's data in the place of the white entry and deletes
the tuple; the other keeps both. -/
theorem scans_differ : SameEntries whitelistedBdb whitelistedRows ∧
    ¬ ScansAgree (fun _ _ => true) 10 3600 whitelistedBdb whitelistedBdb.db.keys whitelistedRows := by
  refine ⟨whitelisted_sameEntries, ?_⟩
  rintro ⟨st, txn, hst, htxn, hsame⟩
  cases htxn
  have hown : whitelistedBdb.entry (.ip "10.0.0.1".toList) = some ⟨0, 5, 100, 1, 1⟩ := by decide
  have hgt : whitelistedBdb.entry (.tuple anotherTry) = some ⟨0, 5, 100, 2, 0⟩ := by decide
  obtain ⟨-, hquiet, -⟩ := hsame.live whitelisted_sameEntries whitelistedBdb.cursor hst hown
    (by decide) (by decide)
  exact hquiet ⟨anotherTry, _, rfl, hgt, by decide, by decide, by decide⟩

end Greyd
