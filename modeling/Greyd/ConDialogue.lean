import Greyd.ConReply

/-!
# The SMTP dialogue (con.c)

The functions take the connection and the daemon's state and return both. What the rest of
the system answers (read, write, the NAT lookup, the clock) is an argument.
-/
namespace Greyd

/-- The fields of a grey message. -/
structure GreyMessage where
  dstIp : CStr
  ip : CStr
  helo : CStr
  from_ : CStr
  to_ : CStr
  deriving DecidableEq

/-- The text `Con_next_state` prints for a grey message. -/
def GreyMessage.text (m : GreyMessage) : CStr :=
  "type = 1\ndst_ip = \"".toList ++ m.dstIp ++ "\"\nip = \"".toList ++ m.ip ++
    "\"\nhelo = \"".toList ++ m.helo ++ "\"\nfrom = \"".toList ++ m.from_ ++
    "\"\nto = \"".toList ++ m.to_ ++ "\"\n%\n".toList

/-- The part of `struct Greyd_state` the connections use. `greyOut` are the messages
written to the grey pipe and `closed` the descriptors `Con_close` has closed. -/
structure GreydState where
  config : Config
  slowUntil : Int
  maxCons : Int
  maxBlack : Int
  clients : Int
  blackClients : Int
  blacklists : Hash Blacklist
  proxyProtocolEnabled : Bool
  permittedProxies : Blacklist
  greyOut : List GreyMessage
  closed : List (Option Nat)

section Settings

variable (state : GreydState)

def GreydState.greylist : Bool := configGetInt state.config "enable".toList (some "grey".toList) 1 ≠ 0

def GreydState.greyStutter : Int :=
  configGetInt state.config "stutter".toList (some "grey".toList) 10

def GreydState.stutter : Int := configGetInt state.config "stutter".toList none 1

/-- A missing hostname (NULL) is printed as glibc does. -/
def GreydState.hostname : CStr :=
  (configGetStr state.config "hostname".toList none none).getD "(null)".toList

def GreydState.errorCode : CStr :=
  (configGetStr state.config "error_code".toList none (some "450".toList)).getD []

def GreydState.banner : CStr :=
  (configGetStr state.config "banner".toList none (some "greyd IP-based SPAM blocker".toList)).getD []

end Settings

/-- Library functions: `getnameinfo` with NI_NUMERICHOST, `inet_ntop` and `ctime` without
its newline. -/
structure ConEnv where
  numericHost : Sockaddr → CStr
  inetNtop : SaFamily → IpAddr → CStr
  ctime : Int → CStr

/-- What `Con_get_orig_dst` gets: nothing (it returns before it clears `dst_addr`), or the
address it stores, empty when there is no answer. -/
abbrev NatReply := Option CStr

/-! ## Con_close -/

def conClose (con : Con) (state : GreydState) : Con × GreydState :=
  ({ con with fd := none, blacklists := [], outBuf := [], outSize := 0, outP := 0 },
    { state with
      slowUntil := 0
      closed := state.closed ++ [con.fd]
      blackClients := if con.listed then state.blackClients - 1 else state.blackClients
      clients := state.clients - 1 })

/-! ## The commands -/

/-- The string at the front of the input buffer. -/
def Con.input (con : Con) : CStr := cstr con.inBuf

/-- `match(con->in_buf, command)`. -/
def Con.hasCommand (con : Con) (command : CStr) : Bool := hasPrefixNocase con.input command

def isBlank (c : Char) : Bool := c = ' ' ∨ c = '\t'

/-- `get_helo`: the first word after the command. The NULs `strsep` leaves in the input
buffer are not modelled: nothing reads the line again but for its first four bytes. -/
def getHelo (len : Nat) (f : CStr) : CStr :=
  let s := (strsep " \t".toList ((f.drop 4).dropWhile isBlank)).1
  (strsep " \t\n\r".toList (sstrncpy s len)).1

/-- `set_log`: the first word after the colon. -/
def setLog (len : Nat) (f : CStr) : CStr :=
  match (strsep ":".toList f).2 with
  | none => []
  | some f =>
    let s := (strsep " \t".toList (f.dropWhile isBlank)).1
    (strsep " \t\n\r".toList (sstrncpy s len)).1

/-- `strtok` with a blank as the only delimiter: the next token and what is left. -/
def strtok (f : CStr) : Option (CStr × CStr) :=
  let t := f.dropWhile (· = ' ')
  if t = [] then none else some (t.takeWhile (· ≠ ' '), (t.dropWhile (· ≠ ' ')).tail)

inductive ProxyResult
  | ok
  | unknown
  | error
  deriving DecidableEq

/-- `parse_proxy_protocol_header`, with the source and destination texts as it leaves
them. -/
def parseProxyProtocolHeader (env : ConEnv) (src dst : CStr) (header : CStr) :
    ProxyResult × CStr × CStr :=
  match (strtok header).bind (fun t => strtok t.2) with
  | none => (.error, src, dst)
  | some (family, rest) =>
    if family = "UNKNOWN".toList then (.unknown, src, dst)
    else if family = "TCP4".toList ∨ family = "TCP6".toList then
      let af := if family = "TCP4".toList then afInet else afInet6
      match strtok rest with
      | none => (.error, src, dst)
      | some (token, rest) =>
        match inetPton af token with
        | none => (.error, src, dst)
        | some sa =>
          let src := env.inetNtop af sa
          match strtok rest with
          | none => (.error, src, dst)
          | some (token, _) =>
            match inetPton af token with
            | none => (.error, src, dst)
            | some sa => (.ok, src, env.inetNtop af sa)
    else (.error, src, dst)

/-- `allow_proxy`. -/
def allowProxy (con : Con) (state : GreydState) : Bool :=
  blacklistMatch state.permittedProxies con.src.addr con.src.family

/-- `Con_get_orig_dst`. -/
def conGetOrigDst (con : Con) (state : GreydState) (nat : NatReply) : Con :=
  if state.proxyProtocolEnabled then con
  else match nat with
    | none => con
    | some dst => { con with dstAddr := sstrncpy dst inet6AddrStrlen }

/-! ## Con_next_state -/

/-- `in_p = in_buf; in_remaining = sizeof(in_buf) - 1`. -/
def Con.resetInput (con : Con) : Con := { con with inP := 0, inRemaining := conBufSize - 1 }

/-- Wait for input in the given state. -/
def Con.await (con : Con) (next : ConState) (now : Int) : Con :=
  { con.resetInput with lastState := con.state, state := next, r := now }

/-- Send a reply and go on to the given state. -/
def Con.reply (con : Con) (text : CStr) (next : ConState) (now : Int) : Con :=
  { (con.print text).window with
    w := now + con.stutter
    lastState := con.state
    state := next }

section NextState

variable (env : ConEnv) (now : Int) (nat : NatReply)

/-- The label `done`. -/
def conDone (con : Con) (state : GreydState) : Con × GreydState :=
  ({ conBuildReply con state.errorCode with
      w := now + con.stutter
      lastState := con.state
      state := .close }, state)

/-- The label `start`. -/
def conStart (con : Con) (state : GreydState) : Con × GreydState :=
  (con.reply ("220 ".toList ++ state.hostname ++ " ESMTP ".toList ++ state.banner ++ "; ".toList ++
    env.ctime now ++ "\r\n".toList) .bannerOut now, state)

/-- `con->state = con->last_state` and a reply, for a command that changes nothing. -/
def Con.stay (con : Con) : Con :=
  { con.resetInput.window with state := con.lastState, w := now + con.stutter }

/-- The label `spam`. -/
def conSpam (con : Con) (state : GreydState) : Con × GreydState :=
  if con.hasCommand "DATA".toList then
    let con := { con.print "354 End data with <CR><LF>.<CR><LF>\r\n".toList with state := .dataOut }
    let con := { con.resetInput.window with w := now + con.stutter }
    if state.greylist ∧ !con.listed then
      conDone now { con with lastState := con.state, state := .reply } state
    else (con, state)
  else if con.hasCommand "NOOP".toList then ((con.print "250 OK\r\n".toList).stay now, state)
  else
    let con := { con.print "500 Command unrecognized\r\n".toList with badCmd := con.badCmd + 1 }
    if con.badCmd > conMaxBadCmd then
      conDone now { con with lastState := con.state, state := .reply } state
    else (con.stay now, state)

/-- The grey message for the connection as it is. -/
def Con.greyMessage (con : Con) : GreyMessage :=
  ⟨con.dstAddr, con.srcAddr, con.helo, cstr con.mail, cstr con.rcpt⟩

/-- The label `rcpt`. -/
def conRcpt (con : Con) (state : GreydState) : Con × GreydState :=
  if con.hasCommand "RCPT".toList then
    let con := { con with
      rcpt := normalizeEmailAddr (setLog greyMaxMail con.input) con.rcpt greyMaxMail }
    let con := con.reply "250 OK\r\n".toList .rcptOut now
    if cstr con.mail ≠ [] ∧ cstr con.rcpt ≠ [] ∧ state.greylist ∧ !con.listed then
      let con := conGetOrigDst con state nat
      (con, { state with greyOut := state.greyOut ++ [con.greyMessage] })
    else (con, state)
  else conSpam now con state

/-- The label `mail`. -/
def conMail (con : Con) (state : GreydState) : Con × GreydState :=
  if con.hasCommand "MAIL".toList then
    let con := { con with
      mail := normalizeEmailAddr (setLog greyMaxMail con.input) con.mail greyMaxMail }
    (con.reply "250 OK\r\n".toList .mailOut now, state)
  else conRcpt now nat con state

def conHelo (con : Con) (state : GreydState) : Con × GreydState :=
  if con.hasCommand "HELO".toList ∨ con.hasCommand "EHLO".toList then
    let con := { con with helo := getHelo greyMaxMail con.input }
    if con.helo = [] then
      let command := if con.hasCommand "HELO".toList then "HELO".toList else "EHLO".toList
      (con.reply ("501 Syntax: ".toList ++ command ++ " hostname\r\n".toList) .bannerOut now, state)
    else (con.reply ("250 ".toList ++ state.hostname ++ "\r\n".toList) .heloOut now, state)
  else conMail now nat con state

def conProxy (con : Con) (state : GreydState) : Con × GreydState :=
  if con.hasCommand "PROXY".toList ∧ allowProxy con state then
    match parseProxyProtocolHeader env con.srcAddr con.dstAddr con.input with
    | (.ok, src, dst) => conStart env now { con with srcAddr := src, dstAddr := dst } state
    | (_, src, dst) => conDone now { con with srcAddr := src, dstAddr := dst } state
  else conDone now con state

/-- The variables of the loop over the message body. -/
structure Body where
  buf : List Char
  lines : Nat
  inBody : Bool

/-- The end of a line of the body at `q`, where the line begins at `p`; the result tells
whether the message ends here. -/
def Body.line (b : Body) (p q : Nat) : Body × Bool :=
  let buf := b.buf.set q nul
  let buf := if q > p ∧ buf.getD (q - 1) nul = '\r' then buf.set (q - 1) nul else buf
  let text := cstr (buf.drop p)
  if text = ".".toList then (⟨buf, b.lines, b.inBody⟩, true)
  else
    let lines := if b.inBody then b.lines + 1 else b.lines
    if b.inBody ∧ lines ≥ 10 then (⟨buf, lines, b.inBody⟩, true)
    else (⟨buf, lines, b.inBody || decide (text = [])⟩, false)

/-- The loop over the input in CON_STATE_MESSAGE, with the number of turns it may take: `q`
grows in each. -/
def bodyLoop (inP : Nat) : Nat → Nat → Nat → Body → Body × Bool
  | 0, _, _, b => (b, false)
  | fuel + 1, p, q, b =>
    if q ≤ inP then
      if b.buf.getD q nul = '\n' ∨ q = inP then
        let (b, ended) := b.line p q
        if ended then (b, true) else bodyLoop inP fuel (q + 1) (q + 2) b
      else bodyLoop inP fuel p (q + 1) b
    else (b, false)

def conMessage (con : Con) (state : GreydState) : Con × GreydState :=
  let (b, ended) := bodyLoop con.inP (con.inP + 1) 0 0 ⟨con.inBuf, con.dataLines, con.dataBody⟩
  let con := { con with inBuf := b.buf, dataLines := b.lines, dataBody := b.inBody }
  if ended then conDone now { con with lastState := con.state, state := .reply } state
  else ({ con.resetInput with r := now }, state)

/-- `Con_next_state`. -/
def conNextState (con : Con) (state : GreydState) : Con × GreydState :=
  if con.hasCommand "QUIT".toList ∧ con.state.code < ConState.close.code then
    (con.reply ("221 ".toList ++ state.hostname ++ "\r\n".toList) .close now, state)
  else if con.hasCommand "RSET".toList ∧ con.state.code > ConState.heloOut.code ∧
      con.state.code < ConState.dataIn.code then
    (con.reply "250 OK\r\n".toList .heloOut now, state)
  else match con.state with
    | .proxyIn => (con.await .proxyOut now, state)
    | .proxyOut => conProxy env now con state
    | .bannerIn => conStart env now con state
    | .bannerOut => (con.await .heloIn now, state)
    | .heloIn => conHelo now nat con state
    | .heloOut => (con.await .mailIn now, state)
    | .mailIn => conMail now nat con state
    | .mailOut => (con.await .rcptIn now, state)
    | .rcptIn => conRcpt now nat con state
    | .rcptOut => (con.await .rcptIn now, state)
    | .dataIn => conSpam now con state
    | .dataOut => (con.await .message now, state)
    | .message => conMessage now con state
    | .reply => conDone now con state
    | .close => conClose con state

end NextState

/-! ## Con_init -/

/-- The blacklists that match the client's address, copied without their entries. -/
def attachedLists (state : GreydState) (src : Sockaddr) : List Blacklist :=
  (hashKeys state.blacklists).filterMap fun name =>
    (hashGet state.blacklists name).bind fun blacklist =>
      if blacklistMatch blacklist src.addr src.family then
        some (blacklistCreate name blacklist.message .trie)
      else none

/-- What is left of an `int` in a `short`. -/
def toShort (n : Int) : Int := n.bmod (2 ^ 16)

/-- `Con_init`, which keeps two settings in `short`s. What the struct held before is
cleared. -/
def conInit (env : ConEnv) (fd : Nat) (src : Sockaddr) (now : Int) (nat : NatReply)
    (state : GreydState) : Con × GreydState :=
  let blacklists := attachedLists state src
  let blackClients := if blacklists.isEmpty then state.blackClients else state.blackClients + 1
  let greylist := toShort (configGetInt state.config "enable".toList (some "grey".toList) 1) ≠ 0
  let stutter := if greylist ∧ toShort state.greyStutter = 0 then 0 else state.stutter
  let con : Con := { Con.zero.growOutBuf with
    fd := some fd
    src := src
    srcAddr := env.numericHost src
    rEndChars := ['\n']
    blacklists := blacklists
    stutter := if !blacklists.isEmpty ∧ greylist ∧ blackClients > state.maxBlack then 0 else stutter
    state := if state.proxyProtocolEnabled then .proxyIn else .bannerIn
    s := now }
  conNextState env now nat con
    { state with clients := state.clients + 1, blackClients := blackClients }

/-! ## Con_handle_read, Con_handle_write -/

inductive ReadResult
  | error
  | eof
  | data (bytes : List Char)

/-- The end of the input without the trailing CRs and LFs in front of `inP`. -/
def trimEnd (buf : List Char) : Nat → Nat
  | 0 => 0
  | inP + 1 =>
    if buf.getD inP nul = '\r' ∨ buf.getD inP nul = '\n' then trimEnd buf inP else inP + 1

/-- The call of `read`: the flag tells whether the input now contains an end character. -/
def conRead (con : Con) (state : GreydState) (result : ReadResult) : (Con × GreydState) × Bool :=
  match result with
  | .error | .eof => (conClose con state, false)
  | .data bytes =>
    let inBuf := overwrite con.inBuf con.inP (bytes ++ [nul])
    let ends := con.rEndChars ≠ [] ∧ (cstr (inBuf.drop con.inP)).any (· ∈ con.rEndChars)
    (({ con with
        inBuf := inBuf
        inP := con.inP + bytes.length
        inRemaining := con.inRemaining - bytes.length }, state), ends)

def conHandleRead (env : ConEnv) (now : Int) (nat : NatReply) (result : ReadResult) (con : Con)
    (state : GreydState) : Con × GreydState :=
  let ((con, state), ends) := if con.r ≠ 0 then conRead con state result else ((con, state), false)
  if ends ∨ con.inRemaining = 0 then
    let inP := trimEnd con.inBuf con.inP
    conNextState env now nat { con with inP := inP, inBuf := overwrite con.inBuf inP [nul], r := 0 }
      state
  else (con, state)

/-- The results of the two calls of `write`, for the CR and for the text. -/
structure WriteResult where
  cr : Int
  text : Int

/-- The number of bytes `Con_handle_write` asks to be written. -/
def toBeWritten (con : Con) (state : GreydState) : Int :=
  if state.clients + conClientTolerence < state.maxCons ∧ con.stutter ≠ 0 then 1
  else con.outRemaining

/-- The calls of `write`. -/
def conWrite (con : Con) (state : GreydState) (result : WriteResult) : Con × GreydState :=
  let c := con.outBuf.getD con.outP nul
  if c = '\n' ∧ !con.seenCr ∧ (result.cr = -1 ∨ result.cr = 0) then conClose con state
  else
    let con := { con with seenCr := decide (c = '\r') }
    if result.text = -1 ∨ result.text = 0 then conClose con state
    else ({ con with
        outP := con.outP + result.text.toNat
        outRemaining := con.outRemaining - result.text }, state)

def conHandleWrite (env : ConEnv) (now : Int) (nat : NatReply) (result : WriteResult) (con : Con)
    (state : GreydState) : Con × GreydState :=
  let con := if con.stutter ≠ 0 ∧ state.greylist ∧ !con.listed ∧
      now - con.s > state.greyStutter then { con with stutter := 0 } else con
  let (con, state) := if con.w ≠ 0 then conWrite con state result else (con, state)
  let con := { con with w := now + con.stutter }
  if con.outRemaining = 0 then conNextState env now nat { con with w := 0 } state
  else (con, state)

end Greyd
