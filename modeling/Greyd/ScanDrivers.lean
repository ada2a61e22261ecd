import Greyd.ConfigPipe
import Greyd.SqlEntries

/-!
# A scan that fails (sqlite.c, mysql.c, postgresql.c, grey.c)

The SQL drivers scan with three statements inside one transaction. What the statements do
where they succeed is a parameter here; what becomes of each call of the library is another.
-/
namespace Greyd

/-- What the statements of `Mod_scan_db` do: `delete now`, `update expire now` and the rows
that the last one selects. -/
structure ScanSql (Db : Type) where
  delete : Int → Db → Db
  update : Int → Int → Db → Db
  rows : Db → List ScanRow

inductive ScanStatement
  | delete
  | update
  | select
  deriving DecidableEq

/-- What becomes of a statement: it is carried out; the library does not take it (a prepare,
a bind or a query fails); or an error is reported while it runs, after so many rows. -/
inductive SqlOutcome
  | done
  | refused
  | broken (rows : Nat)
  deriving DecidableEq

/-- GREYDB_OK or GREYDB_ERR. -/
inductive DbRet
  | ok
  | err
  deriving DecidableEq

/-- The lists a scan fills. -/
structure ScanLists where
  whitelist : List CStr
  whitelistIpv6 : List CStr
  traplist : List CStr
  deriving DecidableEq

/-- A row goes to the list of its first column that is not NULL. -/
def ScanLists.take (lists : ScanLists) (row : ScanRow) : ScanLists :=
  match row.white, row.whiteIpv6, row.trap with
  | some ip, _, _ => { lists with whitelist := lists.whitelist ++ [ip] }
  | none, some ip, _ => { lists with whitelistIpv6 := lists.whitelistIpv6 ++ [ip] }
  | none, none, some ip => { lists with traplist := lists.traplist ++ [ip] }
  | none, none, none => lists

/-- A transaction: the entries as it sees them, and whether a failed statement has put it
into the state in which it can only be rolled back. -/
structure SqlTxn (Db : Type) where
  db : Db
  aborted : Bool
  lists : ScanLists

variable {Db : Type} (sql : ScanSql Db) (outcome : ScanStatement → SqlOutcome) (now whiteExp : Int)

def SqlTxn.delete (txn : SqlTxn Db) : SqlTxn Db := { txn with db := sql.delete now txn.db }

def SqlTxn.update (txn : SqlTxn Db) : SqlTxn Db :=
  { txn with db := sql.update (now + whiteExp) now txn.db }

def SqlTxn.fill (rows : List ScanRow) (txn : SqlTxn Db) : SqlTxn Db :=
  { txn with lists := rows.foldl ScanLists.take txn.lists }

/-- `Mod_scan_db` of sqlite.c. The loop over the rows ends with the first result of
`sqlite3_step` that is not SQLITE_ROW, whatever it is. -/
def Sqlite.modScanDb (txn : SqlTxn Db) : DbRet × SqlTxn Db :=
  if outcome .delete ≠ .done then (.err, txn)
  else
    let txn := txn.delete sql now
    if outcome .update ≠ .done then (.err, txn)
    else
      let txn := txn.update sql now whiteExp
      match outcome .select with
      | .done => (.ok, txn.fill (sql.rows txn.db))
      | .refused => (.err, txn)
      | .broken rows => (.ok, txn.fill ((sql.rows txn.db).take rows))

/-- `Mod_scan_db` of mysql.c and of postgresql.c: `ret` is GREYDB_OK from the start, and the
jumps to `err` do not change it. The result of the last statement is fetched as a whole. -/
def scanIgnoringErrors (fail : SqlTxn Db → SqlTxn Db) (txn : SqlTxn Db) : DbRet × SqlTxn Db :=
  if outcome .delete ≠ .done then (.ok, fail txn)
  else
    let txn := txn.delete sql now
    if outcome .update ≠ .done then (.ok, fail txn)
    else
      let txn := txn.update sql now whiteExp
      if outcome .select ≠ .done then (.ok, fail txn)
      else (.ok, txn.fill (sql.rows txn.db))

def Mysql.modScanDb (txn : SqlTxn Db) : DbRet × SqlTxn Db :=
  scanIgnoringErrors sql outcome now whiteExp id txn

/-- A statement that fails aborts the transaction. -/
def Postgresql.modScanDb (txn : SqlTxn Db) : DbRet × SqlTxn Db :=
  scanIgnoringErrors sql outcome now whiteExp (fun txn => { txn with aborted := true }) txn

inductive SqlDriver
  | sqlite
  | mysql
  | postgresql
  deriving DecidableEq

def SqlDriver.scan : SqlDriver → SqlTxn Db → DbRet × SqlTxn Db
  | .sqlite => Sqlite.modScanDb sql outcome now whiteExp
  | .mysql => Mysql.modScanDb sql outcome now whiteExp
  | .postgresql => Postgresql.modScanDb sql outcome now whiteExp

/-- What a commit stores: the entries as the transaction sees them, unless it is aborted. -/
def SqlTxn.commit (before : Db) (txn : SqlTxn Db) : Db := if txn.aborted then before else txn.db

/-! ## Grey_scan_db -/

/-- The settings a scan publishes its lists with; `checkAddr` is `IP_check_addr`. -/
structure ScanNames where
  traplistName : CStr
  traplistMsg : CStr
  whitelistName : CStr
  whitelistNameIpv6 : CStr
  enableIpv6 : Bool
  checkAddr : CStr → Option SaFamily

/-- What `update_firewall` writes for the list of a family. -/
def updateFirewall (name : CStr) (af : SaFamily) : List CStr → CStr
  | [] => []
  | first :: others =>
    "type=\"replace\"\nname=\"".toList ++ name ++ "\"\naf=".toList ++ decimal af.toNat ++
      "\nips=[".toList ++ quoted first ++ commaText (others.map quoted) ++ "]\n%\n".toList

/-- A call of `Grey_scan_db`: what `Mod_scan_db` returns and what it returns itself, whether
it rolls back, the texts for the daemon and for the firewall, and the entries stored then. -/
structure ScanOutput (Db : Type) where
  scan : DbRet
  ret : Int
  rolledBack : Bool
  trapOut : CStr
  fwOut : CStr
  entries : Db

def sqlGreyScanDb (names : ScanNames) (driver : SqlDriver) (before : Db) : ScanOutput Db :=
  match driver.scan sql outcome now whiteExp ⟨before, false, ⟨[], [], []⟩⟩ with
  | (.err, _) => ⟨.err, -1, true, [], [], before⟩
  | (.ok, txn) =>
    { scan := .ok
      ret := 0
      rolledBack := false
      trapOut := greydSendConfig names.checkAddr names.traplistName names.traplistMsg
        txn.lists.traplist
      fwOut := updateFirewall names.whitelistName afInet txn.lists.whitelist ++
        if names.enableIpv6 then
          updateFirewall names.whitelistNameIpv6 afInet6 txn.lists.whitelistIpv6
        else []
      entries := txn.commit before }

/-- The scan is reported as failed, nothing is published, and the entries are those stored
before it. -/
structure ScanOutput.Undone (out : ScanOutput Db) (before : Db) : Prop where
  scan : out.scan = .err
  ret : out.ret = -1
  rolledBack : out.rolledBack = true
  trapOut : out.trapOut = []
  fwOut : out.fwOut = []
  entries : out.entries = before

theorem ScanOutput.undone_of_err {names : ScanNames} {driver : SqlDriver} {before : Db}
    (h : (driver.scan sql outcome now whiteExp ⟨before, false, ⟨[], [], []⟩⟩).1 = .err) :
    (sqlGreyScanDb sql outcome now whiteExp names driver before).Undone before := by
  unfold sqlGreyScanDb
  split
  · exact ⟨rfl, rfl, rfl, rfl, rfl, rfl⟩
  · next hscan =>
    rw [hscan] at h
    cases h

theorem ScanOutput.scan_eq (names : ScanNames) (driver : SqlDriver) (before : Db) :
    (sqlGreyScanDb sql outcome now whiteExp names driver before).scan =
      (driver.scan sql outcome now whiteExp ⟨before, false, ⟨[], [], []⟩⟩).1 := by
  unfold sqlGreyScanDb
  split <;> next hscan => rw [hscan]

theorem scanIgnoringErrors_ok (fail : SqlTxn Db → SqlTxn Db) (txn : SqlTxn Db) :
    (scanIgnoringErrors sql outcome now whiteExp fail txn).1 = .ok := by
  unfold scanIgnoringErrors
  split
  · rfl
  · dsimp only
    split
    · rfl
    · split <;> rfl

/-- The sqlite driver reports every failure, except one that comes while it reads the rows of
its last statement. -/
theorem Sqlite.modScanDb_err_iff (txn : SqlTxn Db) (hfails : ∃ s, outcome s ≠ .done) :
    (Sqlite.modScanDb sql outcome now whiteExp txn).1 = .err ↔
      ¬ (outcome .delete = .done ∧ outcome .update = .done ∧ ∃ n, outcome .select = .broken n) := by
  unfold Sqlite.modScanDb
  by_cases hdelete : outcome .delete = .done
  · rw [if_neg (not_not.mpr hdelete)]
    dsimp only
    by_cases hupdate : outcome .update = .done
    · rw [if_neg (not_not.mpr hupdate)]
      split
      · next hselect =>
        obtain ⟨s, hs⟩ := hfails
        cases s with
        | delete => exact absurd hdelete hs
        | update => exact absurd hupdate hs
        | select => exact absurd hselect hs
      · next hselect => simp [hselect]
      · next n hselect => simp [hdelete, hupdate, hselect]
    · simp [hupdate]
  · simp [hdelete]

/-- A failed scan is undone exactly in the sqlite driver, unless what fails is the reading of
the rows. -/
theorem failed_scan_undone_iff (names : ScanNames) (driver : SqlDriver) (before : Db)
    (hfails : ∃ s, outcome s ≠ .done) :
    (sqlGreyScanDb sql outcome now whiteExp names driver before).Undone before ↔
      driver = .sqlite ∧
        ¬ (outcome .delete = .done ∧ outcome .update = .done ∧
          ∃ n, outcome .select = .broken n) := by
  have hundone : (sqlGreyScanDb sql outcome now whiteExp names driver before).Undone before ↔
      (driver.scan sql outcome now whiteExp ⟨before, false, ⟨[], [], []⟩⟩).1 = .err := by
    refine ⟨fun h => ?_, ScanOutput.undone_of_err sql outcome now whiteExp⟩
    rw [← ScanOutput.scan_eq sql outcome now whiteExp names]
    exact h.scan
  rw [hundone]
  cases driver with
  | sqlite =>
    rw [eq_self_iff_true, true_and]
    exact Sqlite.modScanDb_err_iff sql outcome now whiteExp _ hfails
  | mysql =>
    have hok : (SqlDriver.mysql.scan sql outcome now whiteExp ⟨before, false, ⟨[], [], []⟩⟩).1 =
        .ok := scanIgnoringErrors_ok ..
    simp [hok]
  | postgresql =>
    have hok : (SqlDriver.postgresql.scan sql outcome now whiteExp
        ⟨before, false, ⟨[], [], []⟩⟩).1 = .ok := scanIgnoringErrors_ok ..
    simp [hok]

/-! ## A scan of one expired and one passing tuple -/

/-- The statements on the table of entries, rows changed in the order they are listed. -/
def tableSql : ScanSql SqlTable where
  delete := SqlTable.deleteExpired
  update expire now t := t.promoteRows expire now t.keys t
  rows := SqlTable.scanRows

def plainNames : ScanNames where
  traplistName := "greyd-greytrap".toList
  traplistMsg := "trapped".toList
  whitelistName := "greyd-whitelist".toList
  whitelistNameIpv6 := "greyd-whitelist-ipv6".toList
  enableIpv6 := true
  checkAddr := fun _ => some afInet

def expiredTuple : GreyTuple := ⟨"10.0.0.1".toList, "h".toList, "f@a".toList, "t@b".toList⟩

def passingTuple : GreyTuple := ⟨"10.0.0.2".toList, "h".toList, "f@a".toList, "t@b".toList⟩

/-- At 100 one tuple has expired, and the other may pass. -/
def twoTuples : SqlTable :=
  ((∅ : SqlTable).insert expiredTuple ⟨10, 20, 90, 1, 0⟩).insert passingTuple ⟨10, 20, 900, 1, 0⟩

def failingUpdate : ScanStatement → SqlOutcome
  | .update => .refused
  | _ => .done

theorem failed_scan_undone_iff_sqlite :
    (sqlGreyScanDb tableSql failingUpdate 100 500 plainNames .sqlite twoTuples).Undone twoTuples ↔
      SqlDriver.sqlite = .sqlite ∧
        ¬ (failingUpdate .delete = .done ∧ failingUpdate .update = .done ∧
          ∃ n, failingUpdate .select = .broken n) :=
  failed_scan_undone_iff tableSql failingUpdate 100 500 plainNames .sqlite twoTuples
    ⟨.update, by decide⟩

/-- With mysql the scan goes on as if it had succeeded: the deletions are committed. -/
theorem failed_scan_committed :
    ¬ (sqlGreyScanDb tableSql failingUpdate 100 500 plainNames .mysql twoTuples).Undone twoTuples ∧
      (sqlGreyScanDb tableSql failingUpdate 100 500 plainNames .mysql twoTuples).ret = 0 ∧
      (sqlGreyScanDb tableSql failingUpdate 100 500 plainNames .mysql twoTuples).entries =
        twoTuples.erase expiredTuple := by
  have hret : (sqlGreyScanDb tableSql failingUpdate 100 500 plainNames .mysql twoTuples).ret = 0 :=
    rfl
  refine ⟨fun h => ?_, hret, AList.ext (by decide +kernel)⟩
  rw [h.ret] at hret
  exact absurd hret (by decide)

end Greyd
