import Mathlib.Data.List.AList
import Greyd.Ip

/-!
# The greylisting database (greydb.h, greydb.c, bdb.c)

The Berkeley DB driver keeps three files of records: the greylisting entries, the
spamtraps and the permitted domains. A record is stored under its packed key; keys of
different types or strings never share a record, so a file is a finite map on the keys
themselves. `DbFaults` names the keys on which an operation of the library fails.
-/
namespace Greyd

/-- `struct Grey_tuple`. -/
structure GreyTuple where
  ip : CStr
  helo : CStr
  from_ : CStr
  to_ : CStr
  deriving DecidableEq

/-- `struct Grey_data`. -/
structure GreyData where
  first : Int
  pass : Int
  expire : Int
  bcount : Int
  pcount : Int
  deriving DecidableEq

/-- `struct DB_key`; a DB_KEY_DOM_PART key is only ever the argument of `checkPartialDom`. -/
inductive DbKey
  | ip (s : CStr)
  | mail (s : CStr)
  | tuple (gt : GreyTuple)
  | dom (s : CStr)
  deriving DecidableEq

abbrev DbFile := AList fun _ : DbKey => GreyData

structure Bdb where
  db : DbFile
  spamtraps : DbFile
  domains : DbFile

def Bdb.empty : Bdb := ⟨∅, ∅, ∅⟩

structure DbFaults where
  get : DbKey → Bool
  put : DbKey → Bool
  del : DbKey → Bool

def DbFaults.none : DbFaults := ⟨fun _ => false, fun _ => false, fun _ => false⟩

/-- GREYDB_FOUND with the value, GREYDB_NOT_FOUND or GREYDB_ERR. -/
inductive DbGet
  | found (val : GreyData)
  | notFound
  | err

/-- The file a key's records are kept in. -/
def Bdb.file (b : Bdb) : DbKey → DbFile
  | .mail _ => b.spamtraps
  | .dom _ => b.domains
  | _ => b.db

def Bdb.setFile (b : Bdb) (key : DbKey) (file : DbFile) : Bdb :=
  match key with
  | .mail _ => { b with spamtraps := file }
  | .dom _ => { b with domains := file }
  | _ => { b with db := file }

/-- `Mod_db_put`; `none` is GREYDB_ERR. -/
def modDbPut (f : DbFaults) (b : Bdb) (key : DbKey) (val : GreyData) : Option Bdb :=
  if f.put key then none else some (b.setFile key ((b.file key).insert key val))

/-- `Mod_db_get`. -/
def modDbGet (f : DbFaults) (b : Bdb) (key : DbKey) : DbGet :=
  if f.get key then .err
  else match (b.file key).lookup key with
    | some val => .found val
    | none => .notFound

/-- `Mod_db_del`; `none` is GREYDB_ERR. -/
def modDbDel (f : DbFaults) (b : Bdb) (key : DbKey) : Option Bdb :=
  if f.del key then none else some (b.setFile key ((b.file key).erase key))

/-- `Mod_db_itr_del_curr` on a cursor over the entries that is on the key. -/
def modDbItrDelCurr (f : DbFaults) (b : Bdb) (key : DbKey) : Option Bdb :=
  if f.del key then none else some { b with db := b.db.erase key }

/-- `check_partial_dom`: is one of the permitted domains a suffix of the address? -/
def checkPartialDom (b : Bdb) (part : CStr) : Bool :=
  b.domains.keys.any fun key => match key with
    | .dom domain => decide (domain.length ≤ part.length) &&
        equalNocase (part.drop (part.length - domain.length)) domain
    | _ => false

/-- What `DB_addr_state` returns: 0, 1, 2 or -1. -/
inductive AddrState
  | unknown
  | trapped
  | known
  | err
  deriving DecidableEq

def dbAddrState (f : DbFaults) (b : Bdb) (addr : CStr) : AddrState :=
  match modDbGet f b (.ip addr) with
  | .notFound => .unknown
  | .found gd => if gd.pcount = -1 then .trapped else .known
  | .err => .err

/-! ## The scan -/

/-- `IP_check_addr`; `numericHost` tells which texts getaddrinfo reads as an address of
the family. -/
def ipCheckAddr (numericHost : SaFamily → CStr → Bool) (addr : CStr) : Option SaFamily :=
  let sa := if ':' ∈ addr then afInet6 else afInet
  if numericHost sa addr then some sa else none

/-- The database together with the three lists a scan fills. -/
structure DbScan where
  db : Bdb
  whitelist : List CStr
  whitelistIpv6 : List CStr
  traplist : List CStr

def DbScan.setDb (st : DbScan) (db : Bdb) : DbScan := { st with db := db }

def DbScan.trap (st : DbScan) (ip : CStr) : DbScan := { st with traplist := st.traplist ++ [ip] }

/-- Put an address on the whitelist of its family. -/
def DbScan.white (checkAddr : CStr → Option SaFamily) (st : DbScan) (ip : CStr) : DbScan :=
  if checkAddr ip = some afInet6 then { st with whitelistIpv6 := st.whitelistIpv6 ++ [ip] }
  else { st with whitelist := st.whitelist ++ [ip] }

section Scan

variable (checkAddr : CStr → Option SaFamily) (f : DbFaults) (now whiteExp : Int)

/-- The branch of `Mod_scan_db` for a tuple that is ready to pass. -/
def promote (st : DbScan) (gt : GreyTuple) (gd : GreyData) : Option DbScan :=
  match dbAddrState f st.db gt.ip with
  | .trapped => some st
  | .err => none
  | _ => do
    let db ← modDbPut f st.db (.ip gt.ip) { gd with expire := now + whiteExp }
    let db ← modDbItrDelCurr f db (.tuple gt)
    pure ((st.white checkAddr gt.ip).setDb db)

/-- The body of the loop of `Mod_scan_db`, for the record the cursor is on. -/
def scanRecord (st : DbScan) (key : DbKey) (gd : GreyData) : Option DbScan :=
  if gd.expire ≤ now ∧ gd.pcount > -2 then (modDbItrDelCurr f st.db key).map st.setDb
  else match key with
    | .ip s =>
      if gd.pcount = -1 then some (st.trap s)
      else if gd.pcount ≥ 0 ∧ gd.pass ≤ now then some (st.white checkAddr s)
      else some st
    | .tuple gt =>
      if gd.pcount ≥ 0 ∧ gd.pass ≤ now then promote checkAddr f now whiteExp st gt gd
      else some st
    | _ => some st

/-- The cursor passes a key; nothing happens where no record is stored any more. -/
def scanKey (st : DbScan) (key : DbKey) : Option DbScan :=
  match st.db.db.lookup key with
  | none => some st
  | some gd => scanRecord checkAddr f now whiteExp st key gd

/-- The loop of `Mod_scan_db` over the keys in the order the cursor comes across them. -/
def scanKeys (st : DbScan) : List DbKey → Option DbScan
  | [] => some st
  | key :: keys => do scanKeys (← scanKey checkAddr f now whiteExp st key) keys

end Scan

/-- `Mod_scan_db`; `none` is GREYDB_ERR. -/
def modScanDb (checkAddr : CStr → Option SaFamily) (f : DbFaults) (now whiteExp : Int) (b : Bdb)
    (order : List DbKey) : Option DbScan :=
  scanKeys checkAddr f now whiteExp ⟨b, [], [], []⟩ order

/-- The order of a cursor: no key twice, and every record stored when the scan starts is
met. Keys stored while the scan goes on may be met or not. -/
structure CursorOrder (b : Bdb) where
  keys : List DbKey
  nodup : keys.Nodup
  covers : ∀ key ∈ b.db, key ∈ keys

end Greyd
