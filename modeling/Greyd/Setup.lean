import Greyd.ConfigPipe
import Greyd.FeedLines
import Greyd.RangeCalls

/-!
# Preparing the blacklists (main_greyd_setup.c)

One current blacklist is carried over the sequence of the configured lists. What the files,
the downloads and the commands give is taken from outside: `opened n` is what the source of the
list at place `n` holds when it is opened, if it can be. The firewall and the connection to
the daemon take what they are sent; where one of them fails, the program exits.
-/
namespace Greyd

def defaultMsg : CStr := "You have been blacklisted...".toList

def configGetBlacklist (config : Config) (listName : CStr) : Option ConfigSection :=
  hashGet config.blacklists listName

def configGetWhitelist (config : Config) (listName : CStr) : Option ConfigSection :=
  hashGet config.whitelists listName

/-- Where a feed is read from. -/
inductive FeedSource
  | file (path : CStr)
  | url (url : CStr)
  | exec (command : CStr)

def methodFile : CStr := "file".toList
def methodHttp : CStr := "http".toList
def methodFtp : CStr := "ftp".toList
def methodExec : CStr := "exec".toList

/-- `strncmp(s, prefix, strlen(prefix)) == 0` -/
def beginsWith (s start : CStr) : Bool := start.isPrefixOf s

/-- The source that `get_parser` opens. -/
def feedSource (section' : ConfigSection) : Option FeedSource :=
  match configSectionGetStr section' "file".toList none with
  | none => none
  | some file =>
    match configSectionGetStr section' "method".toList none with
    | none => some (.file file)
    | some method =>
      if beginsWith method methodFile then some (.file file)
      else if beginsWith method methodHttp || beginsWith method methodFtp then
        some (.url (method ++ "://".toList ++ file))
      else if beginsWith method methodExec then some (.exec file)
      else none

/-- What is around the program. -/
structure SetupEnv where
  config : Config
  opened : Nat → FeedSource → Option (List Char)
  qsort : Qsort BlacklistEntry cmpIpv4Entry

/-- `get_parser`: the text in front of the parser, or NULL. -/
def getParser (env : SetupEnv) (n : Nat) (section' : ConfigSection) : Option (List Char) :=
  (feedSource section').bind (env.opened n)

/-- What has been sent: the lists to greyd, the collected blocks, and what the firewall got. -/
structure SetupOutput where
  sent : List ListConfig
  allCidrs : List CStr
  firewall : Option (List CStr)

/-- `send_blacklist`. Without `greyonly` the list is walked through, NULL or not. -/
def sendBlacklist (env : SetupEnv) (greyonly finalList : Bool) (blacklist : Blacklist)
    (out : SetupOutput) : Option SetupOutput :=
  (blacklistCollapse env.qsort blacklist).bind fun (_, cidrs) =>
    let sent := out.sent ++ [⟨blacklist.name, blacklist.message, cidrs.getD []⟩]
    if greyonly then some { out with sent := sent }
    else
      cidrs.map fun cidrs =>
        let allCidrs := out.allCidrs ++ cidrs
        ⟨sent, allCidrs, if finalList then some allCidrs else out.firewall⟩

structure SetupFlags where
  dryrun : Bool
  greyonly : Bool

/-- The current blacklist is sent, unless there is none or nothing is to be sent. -/
def sendCurrent (env : SetupEnv) (flags : SetupFlags) (finalList : Bool)
    (blacklist : Option Blacklist) (out : SetupOutput) : Option SetupOutput :=
  match blacklist with
  | none => some out
  | some blacklist =>
    if flags.dryrun then some out else sendBlacklist env flags.greyonly finalList blacklist out

/-- The entries of a feed go into the current blacklist, whatever the parser's result is. -/
def parseList (env : SetupEnv) (n : Nat) (section' : ConfigSection) (bltype : BlType)
    (blacklist : Blacklist) : Option Blacklist :=
  match getParser env n section' with
  | none => some blacklist
  | some text =>
    (spamdParserStart spamdLexerNextToken (text.length + 1) (spamdLexerCreate text) blacklist
      bltype).map fun r => r.2.blacklist

/-- One turn of the loop over the lists. -/
def setupList (env : SetupEnv) (flags : SetupFlags) (n : Nat) (val : ConfigValue)
    (state : Option Blacklist × SetupOutput) : Option (Option Blacklist × SetupOutput) :=
  match cvStr val with
  | none => some state
  | some listName =>
    match configGetBlacklist env.config listName with
    | some section' => do
      let out ← sendCurrent env flags false state.1 state.2
      let message := (configSectionGetStr section' "message".toList (some defaultMsg)).getD []
      let blacklist ← parseList env n section' .black (blacklistCreate listName message .list)
      pure (some blacklist, out)
    | none =>
      match configGetWhitelist env.config listName, state.1 with
      | some section', some blacklist => do
        let blacklist ← parseList env n section' .white blacklist
        pure (some blacklist, state.2)
      | _, _ => some state

def setupLists (env : SetupEnv) (flags : SetupFlags) :
    Nat → List ConfigValue → Option Blacklist × SetupOutput → Option (Option Blacklist × SetupOutput)
  | _, [], state => some state
  | n, val :: lists, state =>
    (setupList env flags n val state).bind (setupLists env flags (n + 1) lists)

/-- The loop over the lists, and the last blacklist. -/
def setup (env : SetupEnv) (flags : SetupFlags) (lists : List ConfigValue) : Option SetupOutput :=
  (setupLists env flags 0 lists (none, ⟨[], [], none⟩)).bind fun state =>
    sendCurrent env flags true state.1 state.2

end Greyd
