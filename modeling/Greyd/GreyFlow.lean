import Greyd.GreyPipe
import Greyd.SyncReads
import Greyd.Support.SerialRuns

/-!
# From the connections to the database

The main loop serves the connections and the socket of the cluster, and everything it has for
the greylister goes through one pipe. Nothing is lost on the way, nothing is handled twice,
and the order is kept.
-/
namespace Greyd

open SerialRuns

/-- The table of the connections, and what has been written on the grey pipe. -/
structure Daemon where
  table : ConTable
  piped : List PipeItem

/-- The events of the connections, and a datagram for `Sync_recv`. -/
inductive DaemonEvent
  | con (event : ConEvent)
  | datagram (src : Nat) (packet : List Char)

structure DaemonTick where
  now : Int
  nat : NatReply
  event : DaemonEvent

section Daemon

variable (env : ConEnv) (hmac : HmacSha1) (engine : SyncEngine)

/-- What `Sync_recv` writes at the event. -/
def DaemonTick.received (t : DaemonTick) : List SyncMessage :=
  match t.event with
  | .con _ => []
  | .datagram src packet => syncRecv hmac engine src packet

def daemonStep (t : DaemonTick) (d : Daemon) : Daemon :=
  match t.event with
  | .con event =>
    let table := d.table.step env t.now t.nat event
    ⟨table, d.piped ++
      (table.state.greyOut.drop d.table.state.greyOut.length).map PipeItem.con⟩
  | .datagram src packet => ⟨d.table, d.piped ++ (syncRecv hmac engine src packet).map PipeItem.sync⟩

def DaemonTick.Fits (t : DaemonTick) (d : Daemon) : Prop :=
  match t.event with
  | .con event => event.Enabled t.now d.table
  | .datagram _ _ => True

abbrev DaemonRun (first : Daemon) : List DaemonTick → Daemon → Prop :=
  Run DaemonTick.Fits (daemonStep env hmac engine) first

end Daemon

/-- The messages of the connections, and those of `Sync_recv`. -/
def PipeItem.con? : PipeItem → Option GreyMessage
  | .con m => some m
  | .sync _ => none

def PipeItem.sync? : PipeItem → Option SyncMessage
  | .con _ => none
  | .sync m => some m

section Flow

variable {env : ConEnv} {hmac : HmacSha1} {engine : SyncEngine} {now : Int} {nat : NatReply}
  {con : Con} {state : GreydState}

/-! ## Messages are only ever added -/

theorem conNextState_greyOut (env : ConEnv) (now : Int) (nat : NatReply) (con : Con)
    (state : GreydState) : state.greyOut <+: (conNextState env now nat con state).2.greyOut := by
  rcases (conNextState_step env now nat con state).emits with hsame | ⟨-, -, -, -, hnew⟩
  · rw [hsame]
  · rw [hnew]
    exact List.prefix_append _ _

theorem conHandleRead_greyOut (result : ReadResult) :
    state.greyOut <+: (conHandleRead env now nat result con state).2.greyOut := by
  have hread : (if con.r ≠ 0 then conRead con state result else ((con, state), false)).1.2.greyOut =
      state.greyOut := by
    split
    · cases result <;> rfl
    · rfl
  unfold conHandleRead
  generalize (if con.r ≠ 0 then conRead con state result else ((con, state), false)) = p at hread
  obtain ⟨⟨con', state'⟩, ends⟩ := p
  dsimp only at hread ⊢
  rw [← hread]
  split
  · exact conNextState_greyOut _ _ _ _ _
  · exact List.prefix_rfl

theorem conWrite_greyOut (con : Con) (state : GreydState) (result : WriteResult) :
    (conWrite con state result).2.greyOut = state.greyOut := by
  have hwrote := conWrite_wrote con state result
  generalize conWrite con state result = p at hwrote
  cases hwrote <;> rfl

theorem conHandleWrite_greyOut (result : WriteResult) :
    state.greyOut <+: (conHandleWrite env now nat result con state).2.greyOut := by
  have hwrite : ∀ con' : Con,
      (if con'.w ≠ 0 then conWrite con' state result else (con', state)).2.greyOut = state.greyOut := by
    intro con'
    split
    · exact conWrite_greyOut con' state result
    · rfl
  unfold conHandleWrite
  dsimp only
  generalize (if con.stutter ≠ 0 ∧ state.greylist = true ∧ (!con.listed) = true ∧
    now - con.s > state.greyStutter then { con with stutter := 0 } else con) = settled
  have hsettled := hwrite settled
  generalize (if settled.w ≠ 0 then conWrite settled state result else (settled, state)) = p at hsettled
  obtain ⟨con', state'⟩ := p
  dsimp only at hsettled ⊢
  rw [← hsettled]
  split
  · exact conNextState_greyOut _ _ _ _ _
  · exact List.prefix_rfl

theorem conInit_greyOut (fd : Nat) (src : Sockaddr) :
    state.greyOut <+: (conInit env fd src now nat state).2.greyOut := by
  have hstep : ∀ con (next : GreydState), next.greyOut = state.greyOut →
      state.greyOut <+: (conNextState env now nat con next).2.greyOut := by
    intro con next hnext
    rw [← hnext]
    exact conNextState_greyOut env now nat con next
  exact hstep _ _ rfl

theorem conTable_greyOut (table : ConTable) (event : ConEvent) :
    table.state.greyOut <+: (table.step env now nat event).state.greyOut := by
  cases event with
  | accept fd src =>
    dsimp only [ConTable.step]
    cases table.freeSlot with
    | none => exact List.prefix_rfl
    | some i => exact conInit_greyOut fd src
  | act i turn =>
    dsimp only [ConTable.step]
    cases table.cons[i]? with
    | none => exact List.prefix_rfl
    | some con =>
      cases turn with
      | read result => exact conHandleRead_greyOut result
      | write result => exact conHandleWrite_greyOut result
      | close => exact List.prefix_rfl
  | configure => exact List.prefix_rfl
  | slow => exact List.prefix_rfl

/-! ## What is on the pipe -/

theorem filterMap_con (ms : List GreyMessage) : (ms.map PipeItem.con).filterMap PipeItem.con? = ms := by
  rw [List.filterMap_map]
  exact List.filterMap_some

theorem filterMap_sync (ms : List SyncMessage) :
    (ms.map PipeItem.sync).filterMap PipeItem.sync? = ms := by
  rw [List.filterMap_map]
  exact List.filterMap_some

theorem filterMap_con_sync (ms : List SyncMessage) :
    (ms.map PipeItem.sync).filterMap PipeItem.con? = [] := by
  rw [List.filterMap_map]
  exact List.filterMap_eq_nil_iff.mpr fun _ _ => rfl

theorem filterMap_sync_con (ms : List GreyMessage) :
    (ms.map PipeItem.con).filterMap PipeItem.sync? = [] := by
  rw [List.filterMap_map]
  exact List.filterMap_eq_nil_iff.mpr fun _ _ => rfl

theorem daemonStep_con (t : DaemonTick) (d : Daemon)
    (h : d.piped.filterMap PipeItem.con? = d.table.state.greyOut) :
    (daemonStep env hmac engine t d).piped.filterMap PipeItem.con? =
      (daemonStep env hmac engine t d).table.state.greyOut := by
  obtain ⟨now, nat, event⟩ := t
  cases event with
  | con event =>
    show (d.piped ++ (((d.table.step env now nat event).state.greyOut).drop _).map _).filterMap _ = _
    obtain ⟨new, hnew⟩ := @conTable_greyOut env now nat d.table event
    rw [List.filterMap_append, h, filterMap_con]
    show _ = (d.table.step env now nat event).state.greyOut
    rw [← hnew, List.drop_left]
  | datagram src packet =>
    show (d.piped ++ (syncRecv hmac engine src packet).map _).filterMap _ = _
    rw [List.filterMap_append, h, filterMap_con_sync, List.append_nil]
    rfl

theorem daemonStep_sync (t : DaemonTick) (d : Daemon) :
    (daemonStep env hmac engine t d).piped.filterMap PipeItem.sync? =
      d.piped.filterMap PipeItem.sync? ++ t.received hmac engine := by
  obtain ⟨now, nat, event⟩ := t
  cases event with
  | con event =>
    show (d.piped ++ (((d.table.step env now nat event).state.greyOut).drop _).map _).filterMap _ = _
    rw [List.filterMap_append, filterMap_sync_con]
    rfl
  | datagram src packet =>
    show (d.piped ++ (syncRecv hmac engine src packet).map _).filterMap _ = _
    rw [List.filterMap_append, filterMap_sync]
    rfl

/-- In every run of the main loop the pipe holds the messages of the connections and those of
the other hosts, each once and in order; and where their texts can be read, the reader does
with the database what one message after another asks for, and is then done with the pipe. -/
theorem pipe_handled_once (env : ConEnv) (hmac : HmacSha1) (engine : SyncEngine)
    (glob : CStr → List CStr) (g : Greylister) (table : ConTable) (hnone : table.state.greyOut = [])
    (ts : List DaemonTick) (d : Daemon) (hrun : DaemonRun env hmac engine ⟨table, []⟩ ts d)
    (events : List GreyEvent) (hread : List.Forall₂ PipeItem.ReadAs d.piped events)
    (turns : List ReaderTurn) (hlen : turns.length = d.piped.length)
    (hok : ∀ turn ∈ turns, turn.sourceError = false) (b : Bdb) :
    d.piped.filterMap PipeItem.con? = d.table.state.greyOut ∧
      d.piped.filterMap PipeItem.sync? = ts.flatMap (DaemonTick.received hmac engine) ∧
      ∃ parser, greyStartReader glob g turns (configParserCreate
          (configLexerCreate (d.piped.flatMap PipeItem.text))) b =
        some (handleEvents g b turns events, parser, true) ∧ parser.lexer.source = [] := by
  refine ⟨?_, ?_, ?_⟩
  · exact hrun.invariant (I := fun d => d.piped.filterMap PipeItem.con? = d.table.state.greyOut)
      hnone.symm fun t d _ => daemonStep_con t d
  · refine hrun.history (I := fun ts d => d.piped.filterMap PipeItem.sync? =
      ts.flatMap (DaemonTick.received hmac engine)) rfl fun ts d t _ _ ih => ?_
    rw [daemonStep_sync, ih, List.flatMap_append, List.flatMap_singleton]
  · have hlexer : (configParserCreate (configLexerCreate (d.piped.flatMap PipeItem.text))).lexer =
        ⟨d.piped.flatMap PipeItem.text ++ [], false⟩ := by
      rw [List.append_nil]
      rfl
    obtain ⟨parser, hreader, hrest, -⟩ := greyStartReader_items glob g hread hlen hok rfl hlexer b
    exact ⟨parser, hreader, by rw [hrest]⟩

end Flow

/-! ## A datagram that announces a trap -/

def trapTick : DaemonTick := ⟨5, none, .datagram 0x0a000001 onePacket⟩

def idleDaemon : Daemon := ⟨⟨[], .start configCreate 0 0 false (blacklistCreate [] [] .list)⟩, []⟩

def trapItem : PipeItem := .sync (.addr true "10.1.2.3".toList "10.0.0.1".toList 100 false)

theorem pipe_handled_once_trap :
    (daemonStep plainEnv zeroHmac syncReceiver trapTick idleDaemon).piped.filterMap PipeItem.con? =
        (daemonStep plainEnv zeroHmac syncReceiver trapTick idleDaemon).table.state.greyOut ∧
      (daemonStep plainEnv zeroHmac syncReceiver trapTick idleDaemon).piped.filterMap PipeItem.sync? =
        [trapTick].flatMap (DaemonTick.received zeroHmac syncReceiver) ∧
      ∃ parser, greyStartReader (fun _ => []) defaultGreylister [⟨6, .none, false⟩] (configParserCreate
          (configLexerCreate ((daemonStep plainEnv zeroHmac syncReceiver trapTick
            idleDaemon).piped.flatMap PipeItem.text))) .empty =
        some (handleEvents defaultGreylister .empty [⟨6, .none, false⟩]
          [.nonGrey true "10.1.2.3".toList "100".toList false], parser, true) ∧
          parser.lexer.source = [] := by
  have hpiped : (daemonStep plainEnv zeroHmac syncReceiver trapTick idleDaemon).piped = [trapItem] := by
    decide +kernel
  have hreads : SyncAddrReads "10.1.2.3".toList "10.0.0.1".toList 100 "10.1.2.3".toList
      "10.0.0.1".toList "100".toList :=
    ⟨.self (by decide) (by decide) (by decide), .self (by decide) (by decide) (by decide),
      .self (by decide) (by decide) (by decide)⟩
  refine pipe_handled_once plainEnv zeroHmac syncReceiver (fun _ => []) defaultGreylister
    idleDaemon.table rfl [trapTick] _ (@Run.tick _ _ _ _ _ [] _ _ .start trivial) _ ?_ _ ?_
    (by simp) .empty
  · rw [show idleDaemon = ⟨idleDaemon.table, []⟩ from rfl] at hpiped
    rw [hpiped]
    exact .cons (.syncAddr hreads) .nil
  · rw [show idleDaemon = ⟨idleDaemon.table, []⟩ from rfl] at hpiped
    rw [hpiped]
    rfl

end Greyd
