import Greyd.Greydb

/-!
# The table of entries (sqlite.c)

A row is stored under its primary key, the four strings; an entry for an address is the row
whose other three strings are empty. The three statements are those `Mod_scan_db` executes.
-/
namespace Greyd

abbrev SqlTable := AList fun _ : GreyTuple => GreyData

/-- The key of the row for an address. -/
def ipRow (ip : CStr) : GreyTuple := ⟨ip, [], [], []⟩

/-- A row of the last statement: three columns, of which two are NULL. -/
structure ScanRow where
  white : Option CStr
  whiteIpv6 : Option CStr
  trap : Option CStr
  deriving DecidableEq

namespace SqlTable

/-- `DELETE FROM entries WHERE expire <= now` -/
def deleteExpired (now : Int) (t : SqlTable) : SqlTable where
  entries := t.entries.filter fun e => decide (now < e.2.expire)
  nodupKeys := t.nodupKeys.sublist List.filter_sublist

/-- The rows that `UPDATE` selects; the subquery is evaluated once, before a row changes. -/
def Promoted (now : Int) (t : SqlTable) (gt : GreyTuple) (gd : GreyData) : Prop :=
  gt.from_ ≠ [] ∧ gt.to_ ≠ [] ∧ 0 ≤ gd.pcount ∧ gd.pass ≤ now ∧
    ∀ e ∈ t.entries, e.1.from_ = [] → e.1.to_ = [] → e.1.ip ≠ gt.ip

instance {now : Int} {t : SqlTable} {gt : GreyTuple} {gd : GreyData} :
    Decidable (Promoted now t gt gd) := by
  unfold Promoted
  infer_instance

/-- The change of one row, which takes the place of a row with the same key. -/
def replaceRow (expire : Int) (t : SqlTable) (gt : GreyTuple) (gd : GreyData) : SqlTable :=
  (t.erase gt).insert (ipRow gt.ip) { gd with expire := expire }

/-- The changes of `UPDATE OR REPLACE`, row by row. -/
def promoteRows (expire now : Int) (start : SqlTable) : List GreyTuple → SqlTable → SqlTable
  | [], t => t
  | gt :: gts, t =>
    match start.lookup gt with
    | some gd =>
      promoteRows expire now start gts
        (if Promoted now start gt gd then t.replaceRow expire gt gd else t)
    | none => promoteRows expire now start gts t

/-- The first column of the rows that meet a condition. -/
def selectIps (p : GreyTuple → GreyData → Bool) (t : SqlTable) : List CStr :=
  (t.entries.filter fun e => p e.1 e.2).map fun e => e.1.ip

def keyedByIp (gt : GreyTuple) : Bool := decide (gt.to_ = []) && decide (gt.from_ = [])

/-- The three parts of the `UNION`, which drops rows that are there already. -/
def scanRows (t : SqlTable) : List ScanRow :=
  let whites := t.selectIps fun gt gd =>
    keyedByIp gt && !decide (':' ∈ gt.ip) && decide (0 ≤ gd.pcount)
  let whitesIpv6 := t.selectIps fun gt gd =>
    keyedByIp gt && decide (':' ∈ gt.ip) && decide (0 ≤ gd.pcount)
  let traps := t.selectIps fun gt gd => keyedByIp gt && decide (gd.pcount < 0)
  (whites.map (fun ip => ScanRow.mk (some ip) none none) ++
    whitesIpv6.map (fun ip => ScanRow.mk none (some ip) none) ++
    traps.map (fun ip => ScanRow.mk none none (some ip))).dedup

end SqlTable

end Greyd
