import Greyd.Config
import Greyd.Greydb

/-!
# The greylisting engine (grey.h, grey.c)

The reader's side of the engine: how the messages of the other processes change the
database, and the scan that is run every minute.
-/
namespace Greyd

/-- The fields of `struct Greylister_T` and the settings of the configuration the engine
consults. `spfLookup` is `spf_lookup`, absent when built without SPF; `checkAddr` is
`IP_check_addr`. -/
structure Greylister where
  lowPrioMx : Option CStr
  startup : Int
  greyExp : Int
  trapExp : Int
  whiteExp : Int
  passTime : Int
  domains : List CStr
  dbPermittedDomains : Bool
  whitelistOnPass : Bool
  spfLookup : Option (GreyTuple → Int)
  checkAddr : CStr → Option SaFamily

/-- What `trap_check` returns: 0, 1 or -1. -/
inductive TrapCheck
  | spamtrap
  | noTrap
  | err
  deriving DecidableEq

/-- Is the address in one of the domains of the permitted_domains file? -/
def permittedDomain (g : Greylister) (to_ : CStr) : Bool :=
  g.domains.any fun domain => decide (domain.length ≤ to_.length) &&
    equalNocase (to_.drop (to_.length - domain.length)) domain

def trapCheck (g : Greylister) (f : DbFaults) (b : Bdb) (to_ : CStr) : TrapCheck :=
  let permitted := permittedDomain g to_ || (g.dbPermittedDomains && checkPartialDom b to_)
  let checkDomains := decide (g.domains ≠ []) ||
    (!permittedDomain g to_ && g.dbPermittedDomains)
  if checkDomains && !permitted then .spamtrap
  else match modDbGet f b (.mail to_) with
    | .found _ => .spamtrap
    | .notFound => .noTrap
    | .err => .err

/-! ## process_grey -/

/-- The key of the entry `process_grey` looks up and writes. -/
def greyKey (spamtrap : Bool) (gt : GreyTuple) : DbKey :=
  if spamtrap then .ip gt.ip else .tuple gt

def greyExpire (g : Greylister) (spamtrap : Bool) : Int :=
  if spamtrap then g.trapExp else g.greyExp

/-- First seen on a low priority MX, more than a minute after the start. -/
def triedLowPrio (g : Greylister) (now : Int) (sync : Bool) (dstIp : CStr) : Bool :=
  sync && decide (g.lowPrioMx = some dstIp) && decide (g.startup + 60 < now)

/-- Pass and expire time are the same: the entry is not whitelisted without a retry. -/
def newGrey (g : Greylister) (now : Int) (spamtrap : Bool) : GreyData where
  first := now
  pass := now + greyExpire g spamtrap
  expire := now + greyExpire g spamtrap
  bcount := 1
  pcount := if spamtrap then -1 else 0

def seenGrey (g : Greylister) (now : Int) (spamtrap : Bool) (gd : GreyData) : GreyData where
  first := gd.first
  pass := if gd.first + g.passTime < now then now else gd.pass
  expire := gd.expire
  bcount := gd.bcount + 1
  pcount := if spamtrap then -1 else 0

/-- The transaction of `process_grey`; a rollback leaves the database as it was. -/
def recordGrey (g : Greylister) (f : DbFaults) (now : Int) (gt : GreyTuple) (sync : Bool)
    (dstIp : CStr) (spamtrap : Bool) (b : Bdb) : Bdb :=
  match modDbGet f b (greyKey spamtrap gt) with
  | .notFound =>
    let spamtrap := spamtrap || triedLowPrio g now sync dstIp
    (modDbPut f b (greyKey spamtrap gt) (newGrey g now spamtrap)).getD b
  | .found gd => (modDbPut f b (greyKey spamtrap gt) (seenGrey g now spamtrap gd)).getD b
  | .err => b

/-- The entry of an address whose sender policy is met. -/
def spfPassed (g : Greylister) (now : Int) : GreyData := ⟨now, now, now + g.whiteExp, 0, 0⟩

/-- The verdict of `spf_lookup` where `process_grey` asks for it; 1 is no result. -/
def spfVerdict (g : Greylister) (gt : GreyTuple) (sync spamtrap : Bool) : Int :=
  match g.spfLookup with
  | none => 1
  | some lookup => if sync && !spamtrap then lookup gt else 1

def processGrey (g : Greylister) (f : DbFaults) (now : Int) (gt : GreyTuple) (sync : Bool)
    (dstIp : CStr) (b : Bdb) : Bdb :=
  match trapCheck g f b gt.to_ with
  | .err => b
  | check =>
    let spamtrap := decide (check = .spamtrap)
    let verdict := spfVerdict g gt sync spamtrap
    if verdict = 0 ∧ g.whitelistOnPass then
      (modDbPut f b (.ip gt.ip) (spfPassed g now)).getD b
    else recordGrey g f now gt sync dstIp (spamtrap || decide (verdict = 2)) b

/-! ## process_non_grey -/

def longMax : Int := 2 ^ 63 - 1
def longMin : Int := -2 ^ 63

/-- `strtol(s, &end, 10)`: the value, the text at `end`, and whether the value is out of
range (ERANGE). -/
def strtol (s : CStr) : Int × CStr × Bool :=
  let t := s.dropWhile isspace
  let (neg, u) := match t with
    | '-' :: u => (true, u)
    | '+' :: u => (false, u)
    | u => (false, u)
  let digits := u.takeWhile Char.isDigit
  if digits = [] then (0, s, false)
  else
    let n : Nat := digits.foldl (fun n c => n * 10 + digitVal c) 0
    let v : Int := if neg then -(n : Int) else n
    (max longMin (min longMax v), u.dropWhile Char.isDigit, decide (v < longMin ∨ longMax < v))

/-- The expiry time of a TRAP or WHITE message, where it is one `process_non_grey` takes. -/
def parseExpires (expires : CStr) : Option Int :=
  let (expire, end_, erange) := strtol expires
  if expire = 0 ∨ expires = [] ∨ end_ ≠ [] ∨ erange then none else some expire

def newNonGrey (spamtrap : Bool) (now expire : Int) : GreyData where
  first := now
  pass := if spamtrap then expire else now
  expire := expire
  bcount := 0
  pcount := if spamtrap then -1 else 0

def seenNonGrey (spamtrap : Bool) (gd : GreyData) : GreyData :=
  if spamtrap then { gd with pcount := -1, bcount := gd.bcount + 1 }
  else { gd with pcount := gd.pcount + 1 }

def processNonGrey (f : DbFaults) (now : Int) (spamtrap : Bool) (ip expires : CStr)
    (delete : Bool) (b : Bdb) : Bdb :=
  match parseExpires expires, delete with
  | none, false => b
  | expire, _ =>
    match modDbGet f b (.ip ip) with
    | .notFound =>
      if delete then b
      else (modDbPut f b (.ip ip) (newNonGrey spamtrap now (expire.getD 0))).getD b
    | .found gd =>
      if delete then (modDbDel f b (.ip ip)).getD b
      else (modDbPut f b (.ip ip) (seenNonGrey spamtrap gd)).getD b
    | .err => b

/-! ## process_message -/

def greyMsgGrey : Int := 1
def greyMsgTrap : Int := 2
def greyMsgWhite : Int := 3

/-- The envelope of a GREY message, where it names all four parts. -/
def messageTuple (message : Config) : Option GreyTuple := do
  let ip ← configGetStr message "ip".toList none none
  let helo ← configGetStr message "helo".toList none none
  let from_ ← configGetStr message "from".toList none none
  let to_ ← configGetStr message "to".toList none none
  pure ⟨ip, helo, from_, to_⟩

/-- `process_message`; `none` is the result -1 that stops the reader. -/
def processMessage (g : Greylister) (f : DbFaults) (now : Int) (message : Config) (b : Bdb) :
    Option Bdb :=
  let type := configGetInt message "type".toList none (-1)
  let dstIp := (configGetStr message "dst_ip".toList none (some [])).getD []
  let sync := decide (configGetInt message "sync".toList none 1 ≠ 0)
  if type = greyMsgGrey then
    match messageTuple message with
    | some gt => some (processGrey g f now gt sync dstIp b)
    | none => some b
  else if type = greyMsgTrap ∨ type = greyMsgWhite then
    let ip := configGetStr message "ip".toList none none
    let source := configGetStr message "source".toList none none
    let expires := configGetStr message "expires".toList none none
    let delete := decide (configGetInt message "delete".toList none 0 ≠ 0)
    match ip, source, expires with
    | some ip, some _, some expires =>
      some (processNonGrey f now (decide (type = greyMsgTrap)) ip expires delete b)
    | _, _, _ => some b
  else none

end Greyd
