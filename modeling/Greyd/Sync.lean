import Greyd.Cidr
import Greyd.Greydb

/-!
# Synchronisation between hosts (sync.h, sync.c)

A packet is the bytes of a header, of one entry and of an end marker; numbers are in network
order. An address (`struct in_addr`) is the number its four bytes are the digits of. The
HMAC is a parameter.
-/
namespace Greyd

/-! ## Numbers and addresses -/

def byte (n : Nat) : Char := Char.ofNat (n % 256)

/-- The bytes of `htons`. -/
def be16 (n : Nat) : List Char := [byte (n / 256), byte n]

/-- The bytes of `htonl`. -/
def be32 (n : Int) : List Char :=
  let n := (n % 2 ^ 32).toNat
  [byte (n / 2 ^ 24), byte (n / 2 ^ 16), byte (n / 2 ^ 8), byte n]

/-- The number some bytes stand for. -/
def ntoh (bytes : List Char) : Nat := bytes.foldl (fun n c => n * 256 + c.toNat) 0

/-- The field of so many bytes at an offset. -/
def field (p : List Char) (off size : Nat) : Nat := ntoh ((p.drop off).take size)

/-- `inet_ntoa`. -/
def addrText (addr : Nat) : CStr := inetNtoa (htonl (BitVec.ofNat 32 addr))

def isXDigit (c : Char) : Bool := (hexVal c.toLower).isSome

def isOctDigit (c : Char) : Bool := decide ('0' ≤ c ∧ c ≤ '7')

/-- `strtoul(cp, &end, 0)` where `cp` begins with a digit: the value and the text at `end`. -/
def strtoul0 (cp : CStr) : Nat × CStr :=
  match cp with
  | '0' :: x :: rest =>
    if (x = 'x' ∨ x = 'X') ∧ rest.head?.any isXDigit then
      ((rest.takeWhile isXDigit).foldl (fun n c => n * 16 + (hexVal c.toLower).getD 0) 0,
        rest.dropWhile isXDigit)
    else
      (((x :: rest).takeWhile isOctDigit).foldl (fun n c => n * 8 + digitVal c) 0,
        (x :: rest).dropWhile isOctDigit)
  | _ =>
    ((cp.takeWhile Char.isDigit).foldl (fun n c => n * 10 + digitVal c) 0,
      cp.dropWhile Char.isDigit)

/-- `inet_aton`: up to four numbers, the last of which fills the bytes the others leave. A
blank ends the text. -/
def inetAtonLoop : Nat → List Nat → CStr → Option Nat
  | 0, _, _ => none
  | fuel + 1, parts, cp =>
    if cp.head?.any Char.isDigit then
      let (val, rest) := strtoul0 cp
      if rest.head? = some '.' then
        if val > 255 then none else inetAtonLoop fuel (parts ++ [val]) rest.tail
      else if rest.head?.all isspace ∧ val < 256 ^ (4 - parts.length) then
        some (parts.foldl (fun n part => n * 256 + part) 0 * 256 ^ (4 - parts.length) + val)
      else none
    else none

def inetAton (cp : CStr) : Option Nat := inetAtonLoop 4 [] cp

/-- `inet_addr`, which returns INADDR_NONE for what is no address. -/
def inetAddr (cp : CStr) : Nat := (inetAton cp).getD (2 ^ 32 - 1)

/-! ## Packets -/

def syncVersion : Nat := 2
def syncHmacLen : Nat := 20
def syncMaxsize : Nat := 1408
def syncEnd : Nat := 0
def syncGrey : Nat := 1
def syncWhiteType : Nat := 2
def syncTrappedType : Nat := 3
def syncDelWhite : Nat := 4
def syncDelTrapped : Nat := 5

/-- `SYNC_ALIGN`. -/
def syncAlign (p : Nat) : Nat := (p + 15) / 16 * 16

/-- `HMAC(EVP_sha1(), key, bytes)`. -/
structure HmacSha1 where
  digest : List Char → List Char → List Char
  length : ∀ key bytes, (digest key bytes).length = syncHmacLen

/-- The fields of an engine that are used: the key, the counter, the address of its own
interface and whether greylisting is enabled. -/
structure SyncEngine where
  key : List Char
  counter : Int
  addr : Nat
  greyEnabled : Bool

/-- `struct Sync_hdr`. -/
def syncHdr (length : Nat) (counter : Int) (hmac : List Char) : List Char :=
  [byte syncVersion, byte afInet.toNat] ++ be16 length ++ be32 counter ++ hmac ++
    List.replicate 4 nul

def syncHdrSize : Nat := 32
def syncTlvHdrSize : Nat := 4
def syncTlvGreySize : Nat := 18
def syncTlvAddrSize : Nat := 16

/-- `struct Sync_tlv_hdr`, as the end marker. -/
def syncEndMarker : List Char := be16 syncEnd ++ be16 syncTlvHdrSize

/-- The bytes of the message: the digest is taken with its own field zero. -/
def syncPacket (hmac : HmacSha1) (engine : SyncEngine) (length : Nat) (body : List Char) :
    List Char :=
  syncHdr length engine.counter (hmac.digest engine.key
    (syncHdr length engine.counter (List.replicate syncHmacLen nul) ++ body)) ++ body

/-- The bytes `iov_base` points to, with the length a u_int16_t holds. -/
def syncString (s : CStr) : List Char := (s ++ [nul]).take ((s.length + 1) % 2 ^ 16)

def syncStringLen (s : CStr) : Nat := (s.length + 1) % 2 ^ 16

/-- `Sync_update`. -/
def syncUpdate (hmac : HmacSha1) (engine : SyncEngine) (gt : GreyTuple) (now : Int) : List Char :=
  let sglen := (syncTlvGreySize + syncStringLen gt.from_ + syncStringLen gt.to_ +
    syncStringLen gt.helo) % 2 ^ 16
  let padlen := (syncAlign sglen - sglen) % 2 ^ 16
  syncPacket hmac engine (syncHdrSize + sglen + padlen + syncTlvHdrSize)
    (be16 syncGrey ++ be16 (sglen + padlen) ++ be32 now ++ be32 (inetAddr gt.ip) ++
      be16 (syncStringLen gt.from_) ++ be16 (syncStringLen gt.to_) ++
      be16 (syncStringLen gt.helo) ++ syncString gt.from_ ++ syncString gt.to_ ++
      syncString gt.helo ++ List.replicate padlen nul ++ syncEndMarker)

/-- `send_address`. -/
def sendAddress (hmac : HmacSha1) (engine : SyncEngine) (ip : CStr) (now expire : Int)
    (type : Nat) : List Char :=
  syncPacket hmac engine (syncHdrSize + syncTlvAddrSize + syncTlvHdrSize)
    (be16 type ++ be16 syncTlvAddrSize ++ be32 now ++ be32 expire ++ be32 (inetAddr ip) ++
      syncEndMarker)

def syncWhite (hmac : HmacSha1) (engine : SyncEngine) (ip : CStr) (now expire : Int)
    (delete : Bool) : List Char :=
  sendAddress hmac engine ip now expire (if delete then syncDelWhite else syncWhiteType)

def syncTrapped (hmac : HmacSha1) (engine : SyncEngine) (ip : CStr) (now expire : Int)
    (delete : Bool) : List Char :=
  sendAddress hmac engine ip now expire (if delete then syncDelTrapped else syncTrappedType)

/-! ## Sync_recv -/

/-- A message for the greylister. -/
inductive SyncMessage
  | grey (ip helo from_ to_ : CStr)
  | addr (trap : Bool) (ip source : CStr) (expires : Nat) (delete : Bool)
  deriving DecidableEq

def SyncMessage.ip : SyncMessage → CStr
  | .grey ip _ _ _ => ip
  | .addr _ ip _ _ _ => ip

/-- The text `Sync_recv` writes. -/
def SyncMessage.text : SyncMessage → CStr
  | .grey ip helo from_ to_ =>
    "type = 1\nsync = 0\nip = \"".toList ++ ip ++ "\"\nhelo = \"".toList ++ helo ++
      "\"\nfrom = \"".toList ++ from_ ++ "\"\nto = \"".toList ++ to_ ++ "\"\n%\n".toList
  | .addr trap ip source expires delete =>
    "type = ".toList ++ decimal (if trap then 2 else 3) ++ "\nsync = 0\nip = \"".toList ++ ip ++
      "\"\nsource = \"".toList ++ source ++ "\"\nexpires = \"".toList ++ decimal expires ++
      "\"\ndelete = ".toList ++ decimal (if delete then 1 else 0) ++ "\n%\n".toList

/-- The loop over the entries, at `p`; it ends at the end marker or where a packet is not
valid. An entry it goes on behind has 16 bytes at least. -/
def syncEntries (engine : SyncEngine) (srcIp : CStr) :
    Nat → Nat → Bool → List Char → List SyncMessage
  | 0, _, _, _ => []
  | fuel + 1, len, delete, p =>
    let type := field p 0 2
    let length := field p 2 2
    let written (m : SyncMessage) : List SyncMessage := if engine.greyEnabled then [m] else []
    if len = 0 ∨ len < syncTlvHdrSize ∨ len < length then []
    else if type = syncGrey then
      let fromLen := field p 12 2
      let toLen := field p 14 2
      let heloLen := field p 16 2
      if syncTlvGreySize + fromLen + toLen + heloLen > length then []
      else
        written (.grey (addrText (field p 8 4))
          (cstr (p.drop (syncTlvGreySize + fromLen + toLen))) (cstr (p.drop syncTlvGreySize))
          (cstr (p.drop (syncTlvGreySize + fromLen)))) ++
        syncEntries engine srcIp fuel (len - length) delete (p.drop length)
    else if type = syncDelWhite ∨ type = syncWhiteType ∨ type = syncDelTrapped ∨
        type = syncTrappedType then
      let delete := delete || decide (type = syncDelWhite ∨ type = syncDelTrapped)
      if syncTlvAddrSize ≠ length then []
      else
        written (.addr (decide (type = syncDelTrapped ∨ type = syncTrappedType))
          (addrText (field p 12 4)) srcIp (field p 8 4) delete) ++
        syncEntries engine srcIp fuel (len - length) delete (p.drop length)
    else []

/-- `Sync_recv` of a packet from the address `src`: the messages it writes. -/
def syncRecv (hmac : HmacSha1) (engine : SyncEngine) (src : Nat) (packet : List Char) :
    List SyncMessage :=
  let len := min packet.length syncMaxsize
  let buf := packet.take syncMaxsize ++ List.replicate (syncMaxsize - len) nul
  if len < 1 ∨ (src ≠ 0 ∧ engine.addr = src) then []
  else if len < syncHdrSize ∨ field buf 0 1 ≠ syncVersion ∨ field buf 1 1 ≠ afInet.toNat ∨
      len < field buf 2 2 then []
  else
    let len := field buf 2 2
    let zeroed := buf.take 8 ++ List.replicate syncHmacLen nul ++ buf.drop 28
    if hmac.digest engine.key (zeroed.take len) ≠ (buf.drop 8).take syncHmacLen then []
    else syncEntries engine (addrText src) (len + 1) len false (buf.drop syncHdrSize)

end Greyd
