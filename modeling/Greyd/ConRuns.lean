import Greyd.ConSteps

/-!
# Runs of connections (main_greyd.c, con.c)

The main loop hands each connection its events one at a time: bytes to read, room to write,
and the timeouts and hang-ups that close it. A life is what happens to one connection from
its acceptance on; a table is what the loop keeps of all of them.
-/
namespace Greyd

/-- What the main loop does with an open connection. -/
inductive ConAct
  | read (result : ReadResult)
  | write (result : WriteResult)
  | close

/-- Con_handle_write stops the stutter of grey connections after the initial delay. -/
def Con.settleStutter (con : Con) (now : Int) (state : GreydState) : Con :=
  if con.stutter ≠ 0 ∧ state.greylist ∧ !con.listed ∧ now - con.s > state.greyStutter then
    { con with stutter := 0 }
  else con

theorem Con.settleStutter_frame (con : Con) (now : Int) (state : GreydState) :
    ∃ stutter, con.settleStutter now state = { con with stutter := stutter } := by
  unfold Con.settleStutter
  split <;> exact ⟨_, rfl⟩

/-- The loop polls for what the connection waits for; `read` and `write` handle at most the
bytes they are asked to. -/
def ConAct.Enabled (act : ConAct) (now : Int) (con : Con) (state : GreydState) : Prop :=
  con.fd ≠ none ∧
    match act with
    | .read (.data bytes) => con.r ≠ 0 ∧ bytes ≠ [] ∧ (bytes.length : Int) ≤ con.inRemaining
    | .read _ => con.r ≠ 0
    | .write result => con.w ≠ 0 ∧ con.w ≤ now ∧ -1 ≤ result.text ∧
      result.text ≤ toBeWritten (con.settleStutter now state) state
    | .close => True

instance (act : ConAct) (now : Int) (con : Con) (state : GreydState) :
    Decidable (act.Enabled now con state) := by
  unfold ConAct.Enabled
  match act with
  | .read (.data _) => exact inferInstanceAs (Decidable (_ ∧ _ ∧ _ ∧ _))
  | .read .error => exact inferInstanceAs (Decidable (_ ∧ _))
  | .read .eof => exact inferInstanceAs (Decidable (_ ∧ _))
  | .write _ => exact inferInstanceAs (Decidable (_ ∧ _ ∧ _ ∧ _ ∧ _))
  | .close => exact inferInstanceAs (Decidable (_ ∧ True))

theorem ConAct.Enabled.reads {result : ReadResult} {now : Int} {con : Con} {state : GreydState}
    (h : ConAct.Enabled (.read result) now con state) : con.r ≠ 0 := by
  cases result with
  | data bytes => exact h.2.1
  | error => exact h.2
  | eof => exact h.2

def ConAct.run (env : ConEnv) (now : Int) (nat : NatReply) (act : ConAct) (con : Con)
    (state : GreydState) : Con × GreydState :=
  match act with
  | .read result => conHandleRead env now nat result con state
  | .write result => conHandleWrite env now nat result con state
  | .close => conClose con state

/-! ## What a turn can do -/

/-- The connection with bytes read into its buffer. -/
def Con.store (con : Con) (bytes : List Char) : Con :=
  { con with
    inBuf := overwrite con.inBuf con.inP (bytes ++ [nul])
    inP := con.inP + bytes.length
    inRemaining := con.inRemaining - bytes.length }

/-- The connection with bytes read that complete a line. -/
def Con.received (con : Con) (bytes : List Char) : Con :=
  let con := con.store bytes
  let inP := trimEnd con.inBuf con.inP
  { con with inP := inP, inBuf := overwrite con.inBuf inP [nul], r := 0 }

/-- The bytes end a line, or fill the buffer. -/
def Con.Completes (con : Con) (bytes : List Char) : Prop :=
  (con.rEndChars ≠ [] ∧
    (cstr ((con.store bytes).inBuf.drop con.inP)).any (· ∈ con.rEndChars) = true) ∨
    (con.store bytes).inRemaining = 0

instance (con : Con) (bytes : List Char) : Decidable (con.Completes bytes) :=
  inferInstanceAs (Decidable (_ ∨ _))

def Con.sawCr (con : Con) (seen : Bool) : Con := { con with seenCr := seen }

def Con.wait (con : Con) (w : Int) : Con := { con with w := w }

/-- The connection with part of its output written. -/
def Con.sent (con : Con) (n : Int) : Con :=
  { con with outP := con.outP + n.toNat, outRemaining := con.outRemaining - n }

/-- What the calls of `write` leave: the connection is closed, or bytes are sent. -/
inductive Wrote (con : Con) (state : GreydState) (result : WriteResult) : Con × GreydState → Prop
  | closed {seen} : Wrote con state result (conClose (con.sawCr seen) state)
  | sent {seen} : result.text ≠ -1 → result.text ≠ 0 →
      Wrote con state result ((con.sawCr seen).sent result.text, state)

/-- Every way a turn of an open connection can go. -/
inductive TurnStep (env : ConEnv) (now : Int) (nat : NatReply) (con : Con) (state : GreydState) :
    ConAct → Con × GreydState → Prop
  | readClosed {result} : result = .error ∨ result = .eof →
      TurnStep env now nat con state (.read result) (conClose con state)
  | readMore {bytes} : ¬ con.Completes bytes →
      TurnStep env now nat con state (.read (.data bytes)) (con.store bytes, state)
  | readLine {bytes} : con.Completes bytes → TurnStep env now nat con state (.read (.data bytes))
      (conNextState env now nat (con.received bytes) state)
  | writeMore {result con' state'} :
      Wrote (con.settleStutter now state) state result (con', state') → con'.outRemaining ≠ 0 →
      TurnStep env now nat con state (.write result) (con'.wait (now + con'.stutter), state')
  | writeDone {result con' state'} :
      Wrote (con.settleStutter now state) state result (con', state') → con'.outRemaining = 0 →
      TurnStep env now nat con state (.write result)
        (conNextState env now nat (con'.wait 0) state')
  | close : TurnStep env now nat con state .close (conClose con state)

theorem conWrite_wrote (con : Con) (state : GreydState) (result : WriteResult) :
    Wrote con state result (conWrite con state result) := by
  unfold conWrite
  dsimp only
  split
  · exact @Wrote.closed con state result con.seenCr
  · split
    · exact .closed
    · next h =>
      rw [not_or] at h
      exact @Wrote.sent con state result (decide (con.outBuf.getD con.outP nul = '\r')) h.1 h.2

/-- The calls of `write` and what follows on them, where there is something to write. -/
theorem conHandleWrite_eq (env : ConEnv) (now : Int) (nat : NatReply) (result : WriteResult)
    (con : Con) (state : GreydState) (hw : con.w ≠ 0) : conHandleWrite env now nat result con state =
      (let written := conWrite (con.settleStutter now state) state result
      if written.1.outRemaining = 0 then
        conNextState env now nat (written.1.wait 0) written.2
      else (written.1.wait (now + written.1.stutter), written.2)) := by
  have hw' : (con.settleStutter now state).w ≠ 0 := by
    unfold Con.settleStutter
    split <;> exact hw
  have hif : (if (con.settleStutter now state).w ≠ 0 then
      conWrite (con.settleStutter now state) state result
      else (con.settleStutter now state, state)) =
        conWrite (con.settleStutter now state) state result := if_pos hw'
  exact congrArg (fun written : Con × GreydState =>
    let con := { written.1 with w := now + written.1.stutter }
    if con.outRemaining = 0 then conNextState env now nat { con with w := 0 } written.2
    else (con, written.2)) hif

theorem conHandleWrite_step (env : ConEnv) (now : Int) (nat : NatReply) (result : WriteResult)
    (con : Con) (state : GreydState) (hw : con.w ≠ 0) :
    TurnStep env now nat con state (.write result) (conHandleWrite env now nat result con state) := by
  have hwrote := conWrite_wrote (con.settleStutter now state) state result
  rw [conHandleWrite_eq env now nat result con state hw]
  generalize conWrite (con.settleStutter now state) state result = written at hwrote
  obtain ⟨con', state'⟩ := written
  dsimp only
  split
  · next h => exact .writeDone hwrote h
  · next h => exact .writeMore hwrote h

theorem conHandleRead_step (env : ConEnv) (now : Int) (nat : NatReply) (result : ReadResult)
    (con : Con) (state : GreydState) (hr : con.r ≠ 0)
    (hroom : con.inRemaining ≠ 0) :
    TurnStep env now nat con state (.read result) (conHandleRead env now nat result con state) := by
  unfold conHandleRead
  rw [if_pos hr]
  cases result with
  | error =>
    dsimp only [conRead, conClose]
    rw [if_neg (by simp [hroom])]
    exact .readClosed (.inl rfl)
  | eof =>
    dsimp only [conRead, conClose]
    rw [if_neg (by simp [hroom])]
    exact .readClosed (.inr rfl)
  | data bytes =>
    show TurnStep env now nat con state (.read (.data bytes))
      (if decide (_ ∧ _) = true ∨ (con.store bytes).inRemaining = 0 then
        conNextState env now nat (con.received bytes) state else (con.store bytes, state))
    split
    · next h => exact .readLine (h.imp_left of_decide_eq_true)
    · next h => exact .readMore fun hc => h (hc.imp_left decide_eq_true)

/-- An enabled turn goes one of the ways. -/
theorem ConAct.run_step (env : ConEnv) {now : Int} (nat : NatReply) (act : ConAct) {con : Con}
    {state : GreydState} (henabled : act.Enabled now con state)
    (hroom : con.r ≠ 0 → con.inRemaining ≠ 0) :
    TurnStep env now nat con state act (act.run env now nat con state) := by
  cases act with
  | read result =>
    exact conHandleRead_step env now nat result con state henabled.reads (hroom henabled.reads)
  | write result => exact conHandleWrite_step env now nat result con state henabled.2.1
  | close => exact .close

section Turns

variable {env : ConEnv} {now : Int} {nat : NatReply} {con : Con} {state : GreydState}

/-- Two connections that agree on the dialogue: everything the next step reads but for the
buffers and counters. -/
structure Con.SameDialogue (con con' : Con) : Prop where
  state : con'.state = con.state
  lastState : con'.lastState = con.lastState
  src : con'.src = con.src
  srcAddr : con'.srcAddr = con.srcAddr
  helo : con'.helo = con.helo
  mail : con'.mail = con.mail
  rcpt : con'.rcpt = con.rcpt

theorem Con.SameDialogue.trans {con con' con'' : Con} (h : con.SameDialogue con')
    (h' : con'.SameDialogue con'') : con.SameDialogue con'' where
  state := h'.state.trans h.state
  lastState := h'.lastState.trans h.lastState
  src := h'.src.trans h.src
  srcAddr := h'.srcAddr.trans h.srcAddr
  helo := h'.helo.trans h.helo
  mail := h'.mail.trans h.mail
  rcpt := h'.rcpt.trans h.rcpt

theorem Con.SameDialogue.settleStutter (con : Con) (now : Int) (state : GreydState) :
    con.SameDialogue (con.settleStutter now state) := by
  unfold Con.settleStutter
  split <;> constructor <;> rfl

theorem Con.SameDialogue.received (con : Con) (bytes : List Char) :
    con.SameDialogue (con.received bytes) := by
  constructor <;> rfl

theorem Wrote.sameDialogue {result : WriteResult} {next : Con × GreydState}
    (h : Wrote con state result next) (w : Int) :
    con.SameDialogue (next.1.wait w) ∧ next.2.greyOut = state.greyOut := by
  cases h with
  | closed => exact ⟨by constructor <;> rfl, rfl⟩
  | sent _ _ => exact ⟨by constructor <;> rfl, rfl⟩

theorem Wrote.r {result : WriteResult} {next : Con × GreydState}
    (h : Wrote (con.settleStutter now state) state result next) : next.1.r = con.r := by
  have hsettled : (con.settleStutter now state).r = con.r := by
    unfold Con.settleStutter
    split <;> rfl
  rw [← hsettled]
  generalize con.settleStutter now state = settled at h
  cases h <;> rfl

/-- What writing leaves alone. -/
theorem Wrote.same {result : WriteResult} {next : Con × GreydState}
    (h : Wrote (con.settleStutter now state) state result next) (w : Int) :
    con.SameDialogue (next.1.wait w) ∧ next.2.greyOut = state.greyOut :=
  ⟨(Con.SameDialogue.settleStutter con now state).trans (h.sameDialogue w).1,
    (h.sameDialogue w).2⟩

theorem Con.settleStutter_hasRoom (h : con.HasRoom) : (con.settleStutter now state).HasRoom := by
  unfold Con.settleStutter
  split
  · exact h.congr rfl rfl
  · exact h

theorem Wrote.hasRoom {result : WriteResult} {next : Con × GreydState}
    (h : Wrote con state result next) (hroom : con.HasRoom) : next.1.HasRoom := by
  cases h <;> exact hroom.congr rfl rfl

theorem TurnStep.hasRoom {act : ConAct} {next : Con × GreydState}
    (h : TurnStep env now nat con state act next) (henabled : act.Enabled now con state)
    (hroom : con.HasRoom) : next.1.HasRoom := by
  cases h with
  | readClosed _ => exact hroom.congr rfl rfl
  | readMore hmore =>
    intro _
    have hlen := henabled.2.2.2
    have hleft := (not_or.mp hmore).2
    have hremaining : ∀ bytes, (con.store bytes).inRemaining = con.inRemaining - bytes.length :=
      fun _ => rfl
    rw [hremaining] at hleft ⊢
    omega
  | readLine _ => exact (conNextState_step _ _ _ _ _).hasRoom fun hr => absurd rfl hr
  | writeMore hwrote _ =>
    exact (hwrote.hasRoom (Con.settleStutter_hasRoom hroom)).congr rfl rfl
  | writeDone hwrote _ =>
    apply (conNextState_step _ _ _ _ _).hasRoom
    exact (hwrote.hasRoom (Con.settleStutter_hasRoom hroom)).congr rfl rfl
  | close => exact hroom.congr rfl rfl

/-- An enabled turn of a connection with room for its input goes one of the ways. -/
theorem ConAct.Enabled.step {act : ConAct} (env : ConEnv) (nat : NatReply)
    (h : act.Enabled now con state) (hroom : con.HasRoom) :
    TurnStep env now nat con state act (act.run env now nat con state) :=
  act.run_step env nat h fun hr => (hroom hr).ne'

theorem conInit_hasRoom (fd : Nat) (src : Sockaddr) :
    (conInit env fd src now nat state).1.HasRoom :=
  (conNextState_step _ _ _ _ _).hasRoom fun hr => absurd rfl hr

end Turns

/-! ## The life of one connection -/

/-- A turn the main loop gives a connection, with what the connection and the daemon were
before it. -/
structure Turn where
  con : Con
  state : GreydState
  now : Int
  nat : NatReply
  act : ConAct

def Turn.next (env : ConEnv) (t : Turn) : Con × GreydState :=
  t.act.run env t.now t.nat t.con t.state

/-- The grey messages written in a turn. -/
def Turn.emitted (env : ConEnv) (t : Turn) : List GreyMessage :=
  (t.next env).2.greyOut.drop t.state.greyOut.length

/-- The turns of one connection, the latest first, and what they leave. Between two turns
the rest of the daemon may change its state, but for what is read when the daemon starts.
`accepts` restricts what the connection is accepted under. -/
inductive ConLife (env : ConEnv) (accepts : GreydState → Sockaddr → Prop) :
    List Turn → Con × GreydState → Prop
  | accept {fd src now nat state} : accepts state src →
      ConLife env accepts [] (conInit env fd src now nat state)
  | turn {turns con state t} : ConLife env accepts turns (con, state) → t.con = con →
      t.state.proxyProtocolEnabled = state.proxyProtocolEnabled → t.state.config = state.config →
      t.act.Enabled t.now t.con t.state → ConLife env accepts (t :: turns) (t.next env)

theorem ConLife.hasRoom {env : ConEnv} {accepts : GreydState → Sockaddr → Prop}
    {turns : List Turn} {p : Con × GreydState} (h : ConLife env accepts turns p) : p.1.HasRoom := by
  induction h with
  | accept _ => exact conInit_hasRoom _ _
  | turn _ hcon _ _ henabled ih =>
    subst hcon
    exact (henabled.step env _ ih).hasRoom henabled ih

/-- The turns that follow when the loop delivers the given acts, with the clock. -/
def playTurns (env : ConEnv) (nat : NatReply) :
    List (Int × ConAct) → List Turn → Con × GreydState → List Turn × (Con × GreydState)
  | [], turns, p => (turns, p)
  | (now, act) :: rest, turns, p =>
    let t : Turn := ⟨p.1, p.2, now, nat, act⟩
    playTurns env nat rest (t :: turns) (t.next env)

/-- All of them can be delivered. -/
def Playable (env : ConEnv) (nat : NatReply) : List (Int × ConAct) → Con × GreydState → Prop
  | [], _ => True
  | (now, act) :: rest, p =>
    act.Enabled now p.1 p.2 ∧ Playable env nat rest (act.run env now nat p.1 p.2)

instance decidablePlayable (env : ConEnv) (nat : NatReply) :
    (acts : List (Int × ConAct)) → (p : Con × GreydState) → Decidable (Playable env nat acts p)
  | [], _ => inferInstanceAs (Decidable True)
  | (now, act) :: rest, p =>
    have := decidablePlayable env nat rest (act.run env now nat p.1 p.2)
    inferInstanceAs (Decidable (_ ∧ _))

theorem ConLife.play {env : ConEnv} {accepts : GreydState → Sockaddr → Prop} {nat : NatReply}
    {acts : List (Int × ConAct)} {turns : List Turn} {p : Con × GreydState}
    (h : ConLife env accepts turns p) (hplay : Playable env nat acts p) :
    ConLife env accepts (playTurns env nat acts turns p).1 (playTurns env nat acts turns p).2 := by
  induction acts generalizing turns p with
  | nil => exact h
  | cons step rest ih =>
    obtain ⟨now, act⟩ := step
    have hturn : ConLife env accepts (⟨p.1, p.2, now, nat, act⟩ :: turns)
        (act.run env now nat p.1 p.2) := .turn h rfl rfl rfl hplay.1
    exact ih hturn hplay.2

/-! ## The table of connections -/

def numBlacklists : Nat := 10

/-- The daemon's state when its main loop begins. -/
def GreydState.start (config : Config) (maxCons maxBlack : Int) (proxyProtocolEnabled : Bool)
    (permittedProxies : Blacklist) : GreydState where
  config := config
  slowUntil := 0
  maxCons := maxCons
  maxBlack := maxBlack
  clients := 0
  blackClients := 0
  blacklists := hashCreate numBlacklists
  proxyProtocolEnabled := proxyProtocolEnabled
  permittedProxies := permittedProxies
  greyOut := []
  closed := []

structure ConTable where
  cons : List Con
  state : GreydState

/-- The table when the main loop begins: `max_cons` closed connections. -/
def ConTable.start (state : GreydState) : ConTable :=
  ⟨List.replicate state.maxCons.toNat { Con.zero with fd := none }, state⟩

inductive ConEvent
  | accept (fd : Nat) (src : Sockaddr)
  | act (i : Nat) (turn : ConAct)
  | configure (blacklists : Hash Blacklist)
  | slow (ended : Int)

/-- The first slot of the table without an open connection. -/
def ConTable.freeSlot (table : ConTable) : Option Nat :=
  table.cons.findIdx? (fun con => con.fd.isNone)

def ConEvent.Enabled (now : Int) (table : ConTable) : ConEvent → Prop
  | .act i turn => ∃ con, table.cons[i]? = some con ∧ turn.Enabled now con table.state
  | _ => True

/-- `Con_accept`, the turns of the connections, and what the rest of the main loop changes
of the state. A client is turned away when no slot is free. -/
def ConTable.step (env : ConEnv) (now : Int) (nat : NatReply) (table : ConTable) :
    ConEvent → ConTable
  | .accept fd src =>
    match table.freeSlot with
    | none => { table with state := { table.state with slowUntil := 0 } }
    | some i =>
      let (con, state) := conInit env fd src now nat table.state
      ⟨table.cons.set i con, state⟩
  | .act i turn =>
    match table.cons[i]? with
    | none => table
    | some con =>
      let (con, state) := turn.run env now nat con table.state
      ⟨table.cons.set i con, state⟩
  | .configure blacklists => { table with state := { table.state with blacklists := blacklists } }
  | .slow ended => { table with state := { table.state with slowUntil := ended } }

/-- The runs of the main loop from a table on whose events meet a condition. -/
inductive ConRun (env : ConEnv) (meets : ConTable → ConEvent → Prop) (start : ConTable) :
    ConTable → Prop
  | start : ConRun env meets start start
  | step {table event} (now : Int) (nat : NatReply) : ConRun env meets start table →
      event.Enabled now table → meets table event →
      ConRun env meets start (table.step env now nat event)

end Greyd
