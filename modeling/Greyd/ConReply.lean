import Greyd.Blacklist
import Greyd.Config

/-!
# Connections and the reject reply (con.h, con.c)

The output buffer is the bytes written to it so far, read as NUL behind them; its
allocated size is a field of its own, as in the source. `realloc` succeeds.
-/
namespace Greyd

def greyMaxMail : Nat := 1024
def inet6AddrStrlen : Nat := 46
def conBufSize : Nat := 8192
def conOutBufSize : Nat := 8192
def conClientTolerence : Int := 5
def conMaxBadCmd : Nat := 20

/-- The states of the SMTP dialogue. -/
inductive ConState
  | proxyIn | proxyOut | bannerIn | bannerOut | heloIn | heloOut | mailIn | mailOut | rcptIn
  | rcptOut | dataIn | dataOut | message | reply | close
  deriving DecidableEq

/-- The numbers behind the CON_STATE names, which `Con_next_state` compares. -/
def ConState.code : ConState → Int
  | .proxyIn => -3
  | .proxyOut => -2
  | .bannerIn => -1
  | .bannerOut => 0
  | .heloIn => 1
  | .heloOut => 2
  | .mailIn => 3
  | .mailOut => 4
  | .rcptIn => 5
  | .rcptOut => 6
  | .dataIn => 50
  | .dataOut => 60
  | .message => 70
  | .reply => 98
  | .close => 99

structure Sockaddr where
  family : SaFamily
  addr : IpAddr
  port : Nat

/-- `struct Con`. A closed descriptor (-1) is `none`; `lists`, a text for the log, is left
out. `inP` and `outP` are offsets into their buffers. -/
structure Con where
  fd : Option Nat
  state : ConState
  lastState : ConState
  src : Sockaddr
  srcAddr : CStr
  dstAddr : CStr
  helo : CStr
  mail : List Char
  rcpt : List Char
  blacklists : List Blacklist
  r : Int
  w : Int
  s : Int
  inBuf : List Char
  inP : Nat
  inRemaining : Int
  rEndChars : List Char
  outBuf : List Char
  outSize : Nat
  outP : Nat
  outRemaining : Int
  dataLines : Nat
  dataBody : Bool
  stutter : Int
  badCmd : Nat
  seenCr : Bool

/-- `memset(con, 0, sizeof *con)`; state 0 is CON_STATE_BANNER_OUT. -/
def Con.zero : Con where
  fd := some 0
  state := .bannerOut
  lastState := .bannerOut
  src := ⟨0, .zero, 0⟩
  srcAddr := []
  dstAddr := []
  helo := []
  mail := List.replicate greyMaxMail nul
  rcpt := List.replicate greyMaxMail nul
  blacklists := []
  r := 0
  w := 0
  s := 0
  inBuf := []
  inP := 0
  inRemaining := 0
  rEndChars := []
  outBuf := []
  outSize := 0
  outP := 0
  outRemaining := 0
  dataLines := 0
  dataBody := false
  stutter := 0
  badCmd := 0
  seenCr := false

/-- `List_size(con->blacklists) > 0`. -/
def Con.listed (con : Con) : Bool := !con.blacklists.isEmpty

/-- `Con_grow_out_buf`. -/
def Con.growOutBuf (con : Con) : Con := { con with outSize := con.outSize + conOutBufSize }

/-! ## Con_append_error_string -/

/-- `size_t` subtraction. -/
def sizeSub (a b : Nat) : Nat := (a + 2 ^ 64 - b % 2 ^ 64) % 2 ^ 64

/-- The variables of `Con_append_error_string`: the buffer and its size, the offset `off`
the text is appended at, the length appended so far, `error_str_len`, the escape character
not yet resolved (`saved`) and `*last_line_cont`. -/
structure Append where
  buf : List Char
  size : Nat
  off : Nat
  appended : Nat
  strLen : Nat
  saved : Option Char
  lastLineCont : Nat

/-- Store a character and a NUL behind it. -/
def Append.put (a : Append) (c : Char) : Append :=
  { a with buf := overwrite a.buf (a.off + a.appended) [c, nul], appended := a.appended + 1 }

/-- Mark the last response code as one that is continued. -/
def Append.continueLine (a : Append) : Append :=
  if a.lastLineCont ≠ 0 then { a with buf := a.buf.set a.lastLineCont '-' } else a

/-- `snprintf` of the response code and a blank, at most `error_str_len` bytes. -/
def Append.code (a : Append) (errorCode : CStr) : Append :=
  let text := snprintf a.strLen (errorCode ++ [' '])
  { a with
    buf := if a.strLen = 0 then a.buf else overwrite a.buf (a.off + a.appended) (text ++ [nul])
    appended := a.appended + text.length
    lastLineCont := a.off + (a.appended + text.length) - 1 }

/-- Make room for a response code and an address when the buffer is nearly full. -/
def Append.room (a : Append) (errorCode : CStr) : Append :=
  if a.appended ≥ sizeSub a.strLen (inet6AddrStrlen + (errorCode.length + 1) + 1) then
    let size := a.size + conOutBufSize
    { a with size := size, strLen := sizeSub size (a.off + a.appended) }
  else a

/-- The room that is asked for, counted out. -/
theorem Append.room_eq (a : Append) (code : CStr) : a.room code =
    if a.appended ≥ sizeSub a.strLen (code.length + 48) then
      { a with
        size := a.size + conOutBufSize
        strLen := sizeSub (a.size + conOutBufSize) (a.off + a.appended) }
    else a := by
  have hk : inet6AddrStrlen + (code.length + 1) + 1 = code.length + 48 := by
    unfold inet6AddrStrlen
    omega
  rw [Append.room, hk]

/-- Start a new line of the reply where the last one has ended. -/
def Append.line (a : Append) (errorCode : CStr) : Append :=
  if a.buf.getD (a.off + a.appended - 1) nul = '\n' then a.continueLine.code errorCode else a

/-- `strncpy` of the client's address, which pads with NULs. -/
def Append.addr (a : Append) (srcAddr : CStr) : Append :=
  { a with
    buf := overwrite a.buf (a.off + a.appended)
      (srcAddr ++ List.replicate (inet6AddrStrlen - srcAddr.length) nul)
    appended := a.appended + srcAddr.length }

/-- The switch of `Con_append_error_string`. -/
def Append.char (a : Append) (srcAddr : CStr) (c : Char) : Append :=
  if c = '\\' ∨ c = '%' then
    match a.saved with
    | none => { a with saved := some c }
    | some e => { a.put e with saved := none }
  else if a.saved = some '\\' ∧ c = 'n' then { a.put '\n' with saved := none }
  else if a.saved = some '%' ∧ c = 'A' then { a.addr srcAddr with saved := none }
  else
    match a.saved with
    | none => a.put c
    | some e => { (a.put e).put c with saved := none }

/-- The loop over the message. -/
def Append.run (a : Append) (srcAddr errorCode : CStr) : CStr → Append
  | [] => a
  | c :: rest => (((a.room errorCode).line errorCode).char srcAddr c).run srcAddr errorCode rest

def Append.start (con : Con) (off lastLineCont : Nat) (errorCode : CStr) : Append :=
  let a : Append := ⟨con.outBuf, con.outSize, off, 0, sizeSub con.outSize off, none,
    if off = 0 then 0 else lastLineCont⟩
  let a := a.continueLine
  let a := if a.strLen < errorCode.length + 1 then
      { a with size := a.size + conOutBufSize, strLen := sizeSub (a.size + conOutBufSize) off }
    else a
  a.code errorCode

/-- `Con_append_error_string`. -/
def conAppendErrorString (con : Con) (off : Nat) (fmt errorCode : CStr) (lastLineCont : Nat) :
    Append :=
  (Append.start con off lastLineCont errorCode).run con.srcAddr errorCode fmt

/-! ## Con_build_reply -/

/-- `snprintf` into the output buffer. -/
def Con.print (con : Con) (text : CStr) : Con :=
  { con with
    outBuf := if con.outSize = 0 then con.outBuf
      else overwrite con.outBuf 0 (snprintf con.outSize text ++ [nul]) }

/-- Have the whole text of the output buffer written. -/
def Con.window (con : Con) : Con :=
  { con with outP := 0, outRemaining := (cstr con.outBuf).length }

/-- One turn of the loop over the blacklists, with `off` and `last_line_cont`. -/
def replyBlacklist (errorCode : CStr) (st : Con × Nat × Nat) (blacklist : Blacklist) :
    Con × Nat × Nat :=
  let (con, off, lastLineCont) := st
  let a := conAppendErrorString con off blacklist.message errorCode lastLineCont
  let remaining : Int := (con.outSize : Int) - off - a.appended
  let con := { con with outBuf := a.buf, outSize := a.size }
  let off := off + a.appended
  if con.outBuf.getD (off - 1) nul ≠ '\n' then
    let con := if remaining < 1 then con.growOutBuf else con
    let con := { con with outBuf := overwrite con.outBuf off ['\n', nul] }
    (con.window, off + 1, a.lastLineCont)
  else (con, off, a.lastLineCont)

def temporaryFailure : CStr := "451 Temporary failure, please try again later.\r\n".toList

/-- `Con_build_reply`. -/
def conBuildReply (con : Con) (errorCode : CStr) : Con :=
  if con.listed then (con.blacklists.foldl (replyBlacklist errorCode) (con, 0, 0)).1
  else (con.print temporaryFailure).window

example :
    let con : Con :=
      { Con.zero with
        outSize := conOutBufSize
        srcAddr := "10.0.0.2".toList
        blacklists := [blacklistCreate [] "You (%A) are listed".toList .trie,
          blacklistCreate [] "Your address %A\\nis listed".toList .trie] }
    cstr (conBuildReply con "451".toList).outBuf =
      "451-You (10.0.0.2) are listed\n451-Your address 10.0.0.2\n451 is listed\n".toList := by
  decide +kernel

end Greyd
