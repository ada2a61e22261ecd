import Greyd.AddressSteps
import Greyd.ScanDrivers

/-!
# What the three statements leave (sqlite.c)

A scan by SQL seen from one row: the row of a tuple stays, is deleted or gives its data to
the row of its address, and the row of an address is the one it was, that of a tuple, or
none. The order in which the table lists its rows decides only between tuples of one
address.
-/
namespace Greyd

namespace SqlTable

variable {now expire : Int} {start t : SqlTable} {gts : List GreyTuple} {gt : GreyTuple}
  {gd : GreyData} {ip : CStr}

theorem lookup_eq_some : t.lookup gt = some gd ↔ ⟨gt, gd⟩ ∈ t.entries := AList.mem_lookup_iff

theorem lookup_deleteExpired : (t.deleteExpired now).lookup gt = some gd ↔
    t.lookup gt = some gd ∧ now < gd.expire := by
  rw [lookup_eq_some, lookup_eq_some]
  show _ ∈ t.entries.filter _ ↔ _
  rw [List.mem_filter, decide_eq_true_eq]

/-! ## The changes of `UPDATE OR REPLACE` -/

theorem lookup_replaceRow_ip (expire : Int) (t : SqlTable) (gt : GreyTuple) (gd : GreyData) :
    (t.replaceRow expire gt gd).lookup (ipRow gt.ip) = some (gd.whitened expire) :=
  AList.lookup_insert _

/-- Rows other than the one that is changed and the one it becomes stay. -/
theorem lookup_replaceRow_of_ne {gt' : GreyTuple} (hip : gt' ≠ ipRow gt.ip) (hne : gt' ≠ gt) :
    (t.replaceRow expire gt gd).lookup gt' = t.lookup gt' := by
  unfold replaceRow
  rw [AList.lookup_insert_ne hip, AList.lookup_erase_ne hne]

theorem lookup_replaceRow_self (hne : gt ≠ ipRow gt.ip) :
    (t.replaceRow expire gt gd).lookup gt = none := by
  unfold replaceRow
  rw [AList.lookup_insert_ne hne, AList.lookup_erase]

theorem ipRow_ne (h : gt.from_ ≠ []) (ip : CStr) : gt ≠ ipRow ip := by
  rintro rfl
  exact h rfl

/-- The row of a tuple that `UPDATE` turns into the row of its address. -/
def Turns (now : Int) (start : SqlTable) (gt : GreyTuple) (gd : GreyData) : Prop :=
  start.lookup gt = some gd ∧ Promoted now start gt gd

theorem Turns.eq {gd' : GreyData} (h : Turns now start gt gd) (he : start.lookup gt = some gd') :
    gd' = gd := by
  rw [h.1] at he
  exact (Option.some.inj he).symm

/-- One turn of the update. -/
theorem promoteRows_cons (expire now : Int) (start t : SqlTable) (gt : GreyTuple)
    (gts : List GreyTuple) :
    (∃ gd, Turns now start gt gd ∧ promoteRows expire now start (gt :: gts) t =
        promoteRows expire now start gts (t.replaceRow expire gt gd)) ∨
      (∀ gd, ¬ Turns now start gt gd) ∧ promoteRows expire now start (gt :: gts) t =
        promoteRows expire now start gts t := by
  rw [promoteRows]
  cases he : start.lookup gt with
  | none => exact .inr ⟨fun gd h => Option.some_ne_none gd (h.1.symm.trans he), rfl⟩
  | some gd =>
    by_cases hp : Promoted now start gt gd
    · exact .inl ⟨gd, ⟨he, hp⟩, by simp only [if_pos hp]⟩
    · refine .inr ⟨fun gd' h => hp ?_, by simp only [if_neg hp]⟩
      rw [h.eq he]
      exact h.2

theorem promoteRows_append (expire now : Int) (start : SqlTable) (gts gts' : List GreyTuple)
    (t : SqlTable) : promoteRows expire now start (gts ++ gts') t =
      promoteRows expire now start gts' (promoteRows expire now start gts t) := by
  induction gts generalizing t with
  | nil => rfl
  | cons gt gts ih =>
    rw [List.cons_append, promoteRows, promoteRows]
    cases start.lookup gt with
    | none => exact ih t
    | some gd => exact ih _

/-- The row of a tuple is gone if it was its turn, and is as it was otherwise. -/
theorem lookup_promoteRows_tuple (hfrom : gt.from_ ≠ []) :
    ((∃ gd, Turns now start gt gd) ∧ gt ∈ gts → (promoteRows expire now start gts t).lookup gt = none) ∧
      ((∀ gd, ¬ Turns now start gt gd) →
        (promoteRows expire now start gts t).lookup gt = t.lookup gt) := by
  have gone : ∀ (gts : List GreyTuple) (t : SqlTable), t.lookup gt = none →
      (promoteRows expire now start gts t).lookup gt = none := by
    intro gts
    induction gts with
    | nil => exact fun t h => h
    | cons gt' gts ih =>
      intro t h
      rcases promoteRows_cons expire now start t gt' gts with ⟨gd, -, heq⟩ | ⟨-, heq⟩
      · rw [heq]
        apply ih
        by_cases hgt : gt = gt'
        · subst hgt
          exact lookup_replaceRow_self (ipRow_ne hfrom _)
        · rwa [lookup_replaceRow_of_ne (ipRow_ne hfrom _) hgt]
      · rw [heq]
        exact ih t h
  induction gts generalizing t with
  | nil => exact ⟨fun h => absurd h.2 List.not_mem_nil, fun _ => rfl⟩
  | cons gt' gts ih =>
    rcases promoteRows_cons expire now start t gt' gts with ⟨gd, hturns, heq⟩ | ⟨hno, heq⟩
    · rw [heq]
      by_cases hgt : gt = gt'
      · subst hgt
        exact ⟨fun _ => gone gts _ (lookup_replaceRow_self (ipRow_ne hfrom _)),
          fun hno => absurd hturns (hno gd)⟩
      · obtain ⟨hgone, hkept⟩ := @ih (t.replaceRow expire gt' gd)
        rw [lookup_replaceRow_of_ne (ipRow_ne hfrom _) hgt] at hkept
        exact ⟨fun h => hgone ⟨h.1, (List.mem_cons.mp h.2).resolve_left hgt⟩, hkept⟩
    · rw [heq]
      obtain ⟨hgone, hkept⟩ := @ih t
      refine ⟨fun h => hgone ⟨h.1, (List.mem_cons.mp h.2).resolve_left ?_⟩, hkept⟩
      rintro rfl
      obtain ⟨gd, hturns⟩ := h.1
      exact hno gd hturns

/-- The row of an address stays where none of its tuples gets its turn. -/
theorem lookup_promoteRows_ip (hno : ∀ gt ∈ gts, ∀ gd, Turns now start gt gd → gt.ip ≠ ip) :
    (promoteRows expire now start gts t).lookup (ipRow ip) = t.lookup (ipRow ip) := by
  induction gts generalizing t with
  | nil => rfl
  | cons gt gts ih =>
    have ih := fun t => @ih t fun gt' hgt' => hno gt' (List.mem_cons_of_mem _ hgt')
    rcases promoteRows_cons expire now start t gt gts with ⟨gd, hturns, heq⟩ | ⟨-, heq⟩
    · rw [heq, ih, lookup_replaceRow_of_ne]
      · intro h
        exact hno gt List.mem_cons_self gd hturns (congrArg GreyTuple.ip h).symm
      · exact (ipRow_ne hturns.2.1 ip).symm
    · rw [heq, ih]

/-- Otherwise it has the data of one of them. -/
theorem lookup_promoteRows_turned (h : ∃ gt ∈ gts, ∃ gd, Turns now start gt gd ∧ gt.ip = ip) :
    ∃ gt gd, Turns now start gt gd ∧ gt.ip = ip ∧
      (promoteRows expire now start gts t).lookup (ipRow ip) = some (gd.whitened expire) := by
  induction gts generalizing t with
  | nil =>
    obtain ⟨gt, hmem, -⟩ := h
    exact absurd hmem List.not_mem_nil
  | cons gt gts ih =>
    by_cases hlater : ∃ gt ∈ gts, ∃ gd, Turns now start gt gd ∧ gt.ip = ip
    · rcases promoteRows_cons expire now start t gt gts with ⟨gd, -, heq⟩ | ⟨-, heq⟩ <;> rw [heq]
      · exact ih hlater
      · exact ih hlater
    · obtain ⟨gt', hmem, gd', hturns', hip⟩ := h
      have hgt : gt' = gt := (List.mem_cons.mp hmem).resolve_right fun hmem =>
        hlater ⟨gt', hmem, gd', hturns', hip⟩
      subst hgt hip
      rcases promoteRows_cons expire now start t gt' gts with ⟨gd, hturns, heq⟩ | ⟨hno, -⟩
      · refine ⟨gt', gd, hturns, rfl, ?_⟩
        rw [heq, lookup_promoteRows_ip fun gt hgt gd hturns hip =>
          hlater ⟨gt, hgt, gd, hturns, hip⟩]
        exact lookup_replaceRow_ip expire t gt' gd
      · exact absurd hturns' (hno gd')

/-- The row a table lists last has the last word. -/
theorem lookup_promoteRows_last (h : Turns now start gt gd) :
    (promoteRows expire now start (gts ++ [gt]) t).lookup (ipRow gt.ip) =
      some (gd.whitened expire) := by
  rw [promoteRows_append]
  rcases promoteRows_cons expire now start (promoteRows expire now start gts t) gt [] with
    ⟨gd', hturns, heq⟩ | ⟨hno, -⟩
  · rw [heq, ← h.eq hturns.1]
    exact lookup_replaceRow_ip ..
  · exact absurd h (hno gd)

/-- Every row that is left was there, or is the row of an address. -/
theorem lookup_promoteRows_cases (h : (promoteRows expire now start gts t).lookup gt = some gd) :
    t.lookup gt = some gd ∨ gt = ipRow gt.ip := by
  induction gts generalizing t with
  | nil => exact .inl h
  | cons gt' gts ih =>
    rcases promoteRows_cons expire now start t gt' gts with ⟨gd', -, heq⟩ | ⟨-, heq⟩
    · rw [heq] at h
      rcases ih h with hold | hip
      · by_cases hip : gt = ipRow gt'.ip
        · exact .inr (by rw [hip]; rfl)
        · by_cases hgt : gt = gt'
          · subst hgt
            rw [lookup_replaceRow_self hip] at hold
            cases hold
          · rw [lookup_replaceRow_of_ne hip hgt] at hold
            exact .inl hold
      · exact .inr hip
    · rw [heq] at h
      exact ih h

/-! ## A whole scan -/

/-- Every row is that of an address, or of a tuple with a sender and a recipient. -/
def Keyed (t : SqlTable) : Prop :=
  ∀ gt gd, t.lookup gt = some gd → gt = ipRow gt.ip ∨ gt.from_ ≠ [] ∧ gt.to_ ≠ []

/-- The table after the first two statements of `Mod_scan_db`. -/
def scanned (now whiteExp : Int) (t : SqlTable) : SqlTable :=
  tableSql.update (now + whiteExp) now (tableSql.delete now t)

/-- The address has no row that has not expired. -/
def NoLiveRow (t : SqlTable) (ip : CStr) (now : Int) : Prop :=
  ∀ gd, t.lookup (ipRow ip) = some gd → gd.expire ≤ now

theorem Keyed.turns_iff (hkeyed : t.Keyed) : Turns now (t.deleteExpired now) gt gd ↔
    t.lookup gt = some gd ∧ gt.from_ ≠ [] ∧ gt.to_ ≠ [] ∧ gd.Passing now ∧
      t.NoLiveRow gt.ip now := by
  unfold Turns Promoted GreyData.Passing
  rw [lookup_deleteExpired]
  constructor
  · rintro ⟨⟨he, hlive⟩, hfrom, hto, hp, hpass, hother⟩
    refine ⟨he, hfrom, hto, ⟨hp, hpass, hlive⟩, fun d hd => not_lt.mp fun hdlive => ?_⟩
    exact hother ⟨ipRow gt.ip, d⟩ (lookup_eq_some.mp (lookup_deleteExpired.mpr ⟨hd, hdlive⟩))
      rfl rfl rfl
  · rintro ⟨he, hfrom, hto, ⟨hp, hpass, hlive⟩, hno⟩
    refine ⟨⟨he, hlive⟩, hfrom, hto, hp, hpass, ?_⟩
    rintro ⟨gt', d⟩ hmem hfrom' hto' hip
    obtain ⟨hd, hdlive⟩ := lookup_deleteExpired.mp (lookup_eq_some.mpr hmem)
    rcases hkeyed gt' d hd with hrow | ⟨hne, -⟩
    · rw [hrow, show gt'.ip = gt.ip from hip] at hd
      exact absurd (hno d hd) (not_le.mpr hdlive)
    · exact hne hfrom'

variable {whiteExp : Int}

theorem mem_keys_of_turns (h : Turns now start gt gd) : gt ∈ start.keys := by
  show gt ∈ start
  rw [← AList.lookup_isSome, h.1]
  rfl

theorem Keyed.scanned_tuple_gone (hkeyed : t.Keyed) (hfrom : gt.from_ ≠ []) (hto : gt.to_ ≠ [])
    (he : t.lookup gt = some gd) (hp : gd.Passing now) (hno : t.NoLiveRow gt.ip now) :
    (t.scanned now whiteExp).lookup gt = none := by
  have hturns : Turns now (t.deleteExpired now) gt gd := hkeyed.turns_iff.mpr ⟨he, hfrom, hto, hp, hno⟩
  exact (lookup_promoteRows_tuple hfrom).1 ⟨⟨gd, hturns⟩, mem_keys_of_turns hturns⟩

/-- A tuple that is not promoted stays until it expires. -/
theorem Keyed.scanned_tuple_kept (hkeyed : t.Keyed) (hfrom : gt.from_ ≠ [])
    (hno : ∀ gd, t.lookup gt = some gd → gd.Passing now → ¬ t.NoLiveRow gt.ip now) :
    (t.scanned now whiteExp).lookup gt = some gd ↔ t.lookup gt = some gd ∧ now < gd.expire := by
  have hstays : ∀ gd, ¬ Turns now (t.deleteExpired now) gt gd := by
    intro gd' hturns
    obtain ⟨he, -, -, hp, hlive⟩ := hkeyed.turns_iff.mp hturns
    exact hno gd' he hp hlive
  rw [← lookup_deleteExpired]
  exact iff_of_eq (congrArg (· = some gd) ((lookup_promoteRows_tuple hfrom).2 hstays))

/-- A live row of an address stays. -/
theorem Keyed.scanned_ip_live (hkeyed : t.Keyed) (he : t.lookup (ipRow ip) = some gd)
    (hlive : now < gd.expire) : (t.scanned now whiteExp).lookup (ipRow ip) = some gd := by
  rw [← lookup_deleteExpired.mpr ⟨he, hlive⟩]
  apply lookup_promoteRows_ip
  rintro gt - gd' hturns rfl
  exact absurd ((hkeyed.turns_iff.mp hturns).2.2.2.2 gd he) (not_le.mpr hlive)

/-- The tuples of an address that turn into its row. -/
def TupleOf (t : SqlTable) (ip : CStr) (now : Int) (gt : GreyTuple) (gd : GreyData) : Prop :=
  gt.ip = ip ∧ t.lookup gt = some gd ∧ gt.from_ ≠ [] ∧ gt.to_ ≠ [] ∧ gd.Passing now

theorem Keyed.scanned_ip_none (hkeyed : t.Keyed) (hno : t.NoLiveRow ip now)
    (hquiet : ∀ gt gd, ¬ t.TupleOf ip now gt gd) :
    (t.scanned now whiteExp).lookup (ipRow ip) = none := by
  have hdeleted : (t.deleteExpired now).lookup (ipRow ip) = none := by
    rw [Option.eq_none_iff_forall_ne_some]
    intro gd he
    obtain ⟨he, hlive⟩ := lookup_deleteExpired.mp he
    exact absurd (hno gd he) (not_le.mpr hlive)
  rw [← hdeleted]
  apply lookup_promoteRows_ip
  intro gt _ gd hturns hip
  obtain ⟨he, hfrom, hto, hp, -⟩ := hkeyed.turns_iff.mp hturns
  exact hquiet gt gd ⟨hip, he, hfrom, hto, hp⟩

theorem Keyed.scanned_ip_turned (hkeyed : t.Keyed) (hno : t.NoLiveRow ip now)
    (h : t.TupleOf ip now gt gd) : ∃ gt gd, t.TupleOf ip now gt gd ∧
      (t.scanned now whiteExp).lookup (ipRow ip) = some (gd.whitened (now + whiteExp)) := by
  obtain ⟨rfl, he, hfrom, hto, hp⟩ := h
  have hturns : Turns now (t.deleteExpired now) gt gd := hkeyed.turns_iff.mpr ⟨he, hfrom, hto, hp, hno⟩
  obtain ⟨gt', gd', hturns', hip, hrow⟩ := @lookup_promoteRows_turned now (now + whiteExp)
    (t.deleteExpired now) (t.deleteExpired now) _ gt.ip ⟨gt, mem_keys_of_turns hturns, gd, hturns, rfl⟩
  obtain ⟨he', hfrom', hto', hp', -⟩ := hkeyed.turns_iff.mp hturns'
  exact ⟨gt', gd', ⟨hip, he', hfrom', hto', hp'⟩, hrow⟩

/-- Of several tuples the one whose row is listed last leaves its data. -/
theorem Keyed.scanned_ip_last (hkeyed : t.Keyed) (hno : t.NoLiveRow ip now)
    (h : t.TupleOf ip now gt gd) {rows : List (Sigma fun _ : GreyTuple => GreyData)}
    (hrows : t.entries = rows ++ [⟨gt, gd⟩]) :
    (t.scanned now whiteExp).lookup (ipRow ip) = some (gd.whitened (now + whiteExp)) := by
  obtain ⟨rfl, he, hfrom, hto, hp⟩ := h
  have hturns : Turns now (t.deleteExpired now) gt gd := hkeyed.turns_iff.mpr ⟨he, hfrom, hto, hp, hno⟩
  have hkeys : (t.deleteExpired now).keys =
      ((rows.filter fun e => decide (now < e.2.expire)).map Sigma.fst) ++ [gt] := by
    show (t.entries.filter fun e => decide (now < e.2.expire)).map Sigma.fst = _
    rw [hrows, List.filter_append, List.map_append]
    simp [hp.2.2]
  show (promoteRows _ now _ (t.deleteExpired now).keys _).lookup _ = _
  rw [hkeys]
  exact lookup_promoteRows_last hturns

theorem Keyed.scanned (hkeyed : t.Keyed) : (t.scanned now whiteExp).Keyed := by
  intro gt gd he
  rcases lookup_promoteRows_cases he with hold | hip
  · exact hkeyed gt gd (lookup_deleteExpired.mp hold).1
  · exact .inl hip

/-! ## The lists -/

/-- The lists the rows of the last statement fill. -/
def lists (t : SqlTable) : ScanLists := t.scanRows.foldl ScanLists.take ⟨[], [], []⟩

theorem mem_selectIps {p : GreyTuple → GreyData → Bool} :
    ip ∈ t.selectIps p ↔ ∃ gt gd, t.lookup gt = some gd ∧ p gt gd = true ∧ gt.ip = ip := by
  unfold selectIps
  rw [List.mem_map]
  constructor
  · rintro ⟨⟨gt, gd⟩, hmem, hip⟩
    obtain ⟨hmem, hp⟩ := List.mem_filter.mp hmem
    exact ⟨gt, gd, lookup_eq_some.mpr hmem, hp, hip⟩
  · rintro ⟨gt, gd, he, hp, hip⟩
    exact ⟨⟨gt, gd⟩, List.mem_filter.mpr ⟨lookup_eq_some.mp he, hp⟩, hip⟩

/-- The rows with neither sender nor recipient are those of the addresses. -/
theorem Keyed.mem_selectIps (hkeyed : t.Keyed) {p : GreyTuple → GreyData → Bool}
    (q : CStr → GreyData → Bool) (hp : ∀ gt gd, p gt gd = (keyedByIp gt && q gt.ip gd)) :
    ip ∈ t.selectIps p ↔ ∃ gd, t.lookup (ipRow ip) = some gd ∧ q ip gd = true := by
  rw [SqlTable.mem_selectIps]
  constructor
  · rintro ⟨gt, gd, he, hpgt, rfl⟩
    rw [hp, Bool.and_eq_true] at hpgt
    rcases hkeyed gt gd he with hrow | ⟨hfrom, -⟩
    · exact ⟨gd, hrow ▸ he, hpgt.2⟩
    · have hfrom' : gt.from_ = [] := by
        have hkey := hpgt.1
        simp only [keyedByIp, Bool.and_eq_true, decide_eq_true_eq] at hkey
        exact hkey.2
      exact absurd hfrom' hfrom
  · rintro ⟨gd, he, hq⟩
    exact ⟨ipRow ip, gd, he, by rw [hp]; exact Bool.and_eq_true_iff.mpr ⟨rfl, hq⟩, rfl⟩

theorem foldl_take (rows : List ScanRow) (ip : CStr) (lists : ScanLists) :
    (ip ∈ (rows.foldl ScanLists.take lists).whitelist ↔
        ip ∈ lists.whitelist ∨ ∃ row ∈ rows, row.white = some ip) ∧
      (ip ∈ (rows.foldl ScanLists.take lists).whitelistIpv6 ↔
        ip ∈ lists.whitelistIpv6 ∨ ∃ row ∈ rows, row.white = none ∧ row.whiteIpv6 = some ip) ∧
      (ip ∈ (rows.foldl ScanLists.take lists).traplist ↔ ip ∈ lists.traplist ∨
        ∃ row ∈ rows, row.white = none ∧ row.whiteIpv6 = none ∧ row.trap = some ip) := by
  induction rows generalizing lists with
  | nil => simp
  | cons row rows ih =>
    obtain ⟨hwhite, hwhite6, htrap⟩ := ih (lists.take row)
    rw [List.foldl_cons, hwhite, hwhite6, htrap]
    obtain ⟨white, whiteIpv6, trap⟩ := row
    cases white <;> cases whiteIpv6 <;> cases trap <;>
      simp [ScanLists.take, or_assoc, eq_comm]

theorem mem_lists (t : SqlTable) (ip : CStr) :
    (ip ∈ t.lists.whitelist ↔ ip ∈ t.selectIps fun gt gd =>
        keyedByIp gt && !decide (':' ∈ gt.ip) && decide (0 ≤ gd.pcount)) ∧
      (ip ∈ t.lists.whitelistIpv6 ↔ ip ∈ t.selectIps fun gt gd =>
        keyedByIp gt && decide (':' ∈ gt.ip) && decide (0 ≤ gd.pcount)) ∧
      (ip ∈ t.lists.traplist ↔ ip ∈ t.selectIps fun gt gd =>
        keyedByIp gt && decide (gd.pcount < 0)) := by
  obtain ⟨hwhite, hwhite6, htrap⟩ := foldl_take t.scanRows ip ⟨[], [], []⟩
  refine ⟨hwhite.trans ?_, hwhite6.trans ?_, htrap.trans ?_⟩ <;>
    simp only [scanRows, List.mem_dedup, List.mem_append, List.mem_map, List.not_mem_nil, false_or]
  · constructor
    · rintro ⟨row, (⟨ip', hmem, rfl⟩ | ⟨ip', -, rfl⟩) | ⟨ip', -, rfl⟩, heq⟩
      · exact Option.some.inj heq ▸ hmem
      · cases heq
      · cases heq
    · exact fun hmem => ⟨⟨some ip, none, none⟩, .inl (.inl ⟨ip, hmem, rfl⟩), rfl⟩
  · constructor
    · rintro ⟨row, (⟨ip', -, rfl⟩ | ⟨ip', hmem, rfl⟩) | ⟨ip', -, rfl⟩, hnone, heq⟩
      · cases hnone
      · exact Option.some.inj heq ▸ hmem
      · cases heq
    · exact fun hmem => ⟨⟨none, some ip, none⟩, .inl (.inr ⟨ip, hmem, rfl⟩), rfl, rfl⟩
  · constructor
    · rintro ⟨row, (⟨ip', -, rfl⟩ | ⟨ip', -, rfl⟩) | ⟨ip', hmem, rfl⟩, hnone, hnone6, heq⟩
      · cases hnone
      · cases hnone6
      · exact Option.some.inj heq ▸ hmem
    · exact fun hmem => ⟨⟨none, none, some ip⟩, .inr ⟨ip, hmem, rfl⟩, rfl, rfl, rfl⟩

theorem Keyed.mem_whitelist (hkeyed : t.Keyed) : ip ∈ t.lists.whitelist ↔
    (∃ gd, t.lookup (ipRow ip) = some gd ∧ 0 ≤ gd.pcount) ∧ ':' ∉ ip := by
  rw [(t.mem_lists ip).1, hkeyed.mem_selectIps
    (fun ip gd => !decide (':' ∈ ip) && decide (0 ≤ gd.pcount)) fun gt gd => Bool.and_assoc ..]
  simp only [Bool.and_eq_true, Bool.not_eq_true', decide_eq_false_iff_not, decide_eq_true_eq]
  tauto

theorem Keyed.mem_whitelistIpv6 (hkeyed : t.Keyed) : ip ∈ t.lists.whitelistIpv6 ↔
    (∃ gd, t.lookup (ipRow ip) = some gd ∧ 0 ≤ gd.pcount) ∧ ':' ∈ ip := by
  rw [(t.mem_lists ip).2.1, hkeyed.mem_selectIps
    (fun ip gd => decide (':' ∈ ip) && decide (0 ≤ gd.pcount)) fun gt gd => Bool.and_assoc ..]
  simp only [Bool.and_eq_true, decide_eq_true_eq]
  tauto

theorem Keyed.mem_traplist (hkeyed : t.Keyed) : ip ∈ t.lists.traplist ↔
    ∃ gd, t.lookup (ipRow ip) = some gd ∧ gd.pcount < 0 := by
  rw [(t.mem_lists ip).2.2,
    hkeyed.mem_selectIps (fun _ gd => decide (gd.pcount < 0)) fun gt gd => rfl]
  simp only [decide_eq_true_eq]

end SqlTable

end Greyd
