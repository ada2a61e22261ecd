import Greyd.ConStutter
import Greyd.PollSlots
import Greyd.Support.SerialRuns

/-!
# Connections in the main loop (main_greyd.c, con.c)

Between two of its events a connection waits for input or for the time of its next output, and
each iteration of the main loop looks at both timers. So no connection is forgotten: one whose
client neither says nor takes anything is closed in a bounded time.
-/
namespace Greyd

open SerialRuns

/-! ## The timers of a connection -/

/-- If the connection is open, a timer is running that was set by the time `t`; outputs are
`s` seconds apart at most. -/
def Con.Waits (s t : Int) (con : Con) : Prop :=
  con.fd ≠ none → con.r ≠ 0 ∧ con.r ≤ t ∨ con.w ≠ 0 ∧ con.w ≤ t + s

structure Con.Served (s t : Int) (con : Con) : Prop where
  room : con.HasRoom
  stutter_nonneg : 0 ≤ con.stutter
  stutter_le : con.stutter ≤ s
  waits : con.Waits s t

section Timers

variable {env : ConEnv} {now : Int} {nat : NatReply} {con con' : Con} {state : GreydState}
  {next : Con × GreydState} {s t t' : Int}

theorem Con.Served.mono (h : con.Served s t) (hle : t ≤ t') : con.Served s t' := by
  refine ⟨h.room, h.stutter_nonneg, h.stutter_le, fun hopen => ?_⟩
  rcases h.waits hopen with ⟨hr, hrt⟩ | ⟨hw, hwt⟩
  · exact .inl ⟨hr, by omega⟩
  · exact .inr ⟨hw, by omega⟩

theorem Con.Served.congr (h : con.Served s t) (hroom : con'.HasRoom) (hfd : con'.fd = con.fd)
    (hstutter : con'.stutter = con.stutter) (hr : con'.r = con.r) (hw : con'.w = con.w) :
    con'.Served s t := by
  refine ⟨hroom, hstutter ▸ h.stutter_nonneg, hstutter ▸ h.stutter_le, fun hopen => ?_⟩
  rw [hr, hw]
  exact h.waits (hfd ▸ hopen)

/-- A step that goes on sets one of the timers. -/
structure Con.Timed (now k : Int) (con : Con) : Prop where
  stutter : con.stutter = k
  timer : con.fd = none ∨ con.r = now ∨ con.w = now + k

theorem Con.Timed.waits {k : Int} (h : con.Timed now k) (hpos : 0 < now) (hk : 0 ≤ k) (hks : k ≤ s) :
    con.Waits s now := by
  intro hopen
  rcases h.timer with hfd | hr | hw
  · exact absurd hfd hopen
  · exact .inl ⟨by omega, by omega⟩
  · exact .inr ⟨by omega, by omega⟩

theorem conDone_timed {k : Int} (h : con.stutter = k) : (conDone now con state).1.Timed now k := by
  obtain ⟨_, _, _, _, hdone⟩ := conDone_frame now con state
  rw [hdone]
  exact ⟨h, .inr (.inr (h ▸ rfl))⟩

theorem NextStep.timed (h : NextStep env now nat con state next) :
    next.1.Timed now con.stutter := by
  cases h with
  | close _ => exact ⟨rfl, .inl rfl⟩
  | await _ | body _ => exact ⟨rfl, .inr (.inl rfl)⟩
  | refused _ _ => exact conDone_timed rfl
  | dataReply _ _ => exact conDone_timed rfl
  | badCmd _ => exact conDone_timed rfl
  | bodyEnd _ => exact conDone_timed rfl
  | reply _ => exact conDone_timed rfl
  | grey _ _ _ =>
    obtain ⟨_, hnat⟩ := conGetOrigDst_frame (con.takeRcpt.reply "250 OK\r\n".toList .rcptOut now)
      state nat
    rw [hnat]
    exact ⟨rfl, .inr (.inr rfl)⟩
  | stay _ hcon _ =>
    rcases hcon with rfl | rfl
    · exact ⟨rfl, .inr (.inr rfl)⟩
    · exact ⟨rfl, .inr (.inr rfl)⟩
  | _ => exact ⟨rfl, .inr (.inr rfl)⟩

theorem NextStep.served (h : NextStep env now nat con state next) (hroom : next.1.HasRoom)
    (hpos : 0 < now) (hk : 0 ≤ con.stutter) (hks : con.stutter ≤ s) : next.1.Served s now := by
  have hstutter := h.timed.stutter
  exact ⟨hroom, hstutter ▸ hk, hstutter ▸ hks, h.timed.waits hpos hk hks⟩

/-- A write leaves the stutter as it is or ends it. -/
theorem Wrote.stutter {result : WriteResult}
    (h : Wrote (con.settleStutter now state) state result next) (hk : 0 ≤ con.stutter)
    (hks : con.stutter ≤ s) : 0 ≤ next.1.stutter ∧ next.1.stutter ≤ s := by
  have hsettled : (con.settleStutter now state).stutter = con.stutter ∨
      (con.settleStutter now state).stutter = 0 := by
    unfold Con.settleStutter
    split
    · exact .inr rfl
    · exact .inl rfl
  have hwrote : next.1.stutter = (con.settleStutter now state).stutter := by
    cases h <;> rfl
  rw [hwrote]
  rcases hsettled with h | h
  · rw [h]
    exact ⟨hk, hks⟩
  · rw [h]
    exact ⟨le_refl 0, hk.trans hks⟩

/-- Every turn of an open connection leaves it closed or with a timer. -/
theorem TurnStep.served {act : ConAct} (h : TurnStep env now nat con state act next)
    (henabled : act.Enabled now con state) (hserved : con.Served s t) (hle : t ≤ now) (hpos : 0 < now) :
    next.1.Served s now := by
  have hroom := h.hasRoom henabled hserved.room
  cases h with
  | readClosed _ | close =>
    exact ⟨hroom, hserved.stutter_nonneg, hserved.stutter_le, fun hopen => absurd rfl hopen⟩
  | readMore _ => exact (hserved.mono hle).congr hroom rfl rfl rfl rfl
  | readLine _ =>
    exact (conNextState_step ..).served hroom hpos hserved.stutter_nonneg hserved.stutter_le
  | @writeMore result con' state' hwrote _ =>
    obtain ⟨hk, hks⟩ := hwrote.stutter hserved.stutter_nonneg hserved.stutter_le
    have htimed : (con'.wait (now + con'.stutter)).Timed now con'.stutter := ⟨rfl, .inr (.inr rfl)⟩
    exact ⟨hroom, hk, hks, htimed.waits hpos hk hks⟩
  | writeDone hwrote _ =>
    obtain ⟨hk, hks⟩ := hwrote.stutter hserved.stutter_nonneg hserved.stutter_le
    exact (conNextState_step ..).served hroom hpos hk hks

/-- A new connection has the daemon's stutter, or none. -/
theorem conInit_stutter (env : ConEnv) (fd : Nat) (src : Sockaddr) (now : Int) (nat : NatReply)
    (state : GreydState) : ∃ stutter, (stutter = 0 ∨ stutter = state.stutter) ∧
      conInit env fd src now nat state =
        conNextState env now nat (acceptedCon env fd src now stutter state)
          { state with
            clients := state.clients + 1
            blackClients := if (attachedLists state src).isEmpty then state.blackClients
              else state.blackClients + 1 } := by
  refine ⟨_, ?_, rfl⟩
  split_ifs
  all_goals first | exact .inl rfl | exact .inr rfl

theorem conInit_served (fd : Nat) (src : Sockaddr) (hpos : 0 < now) (h0 : 0 ≤ state.stutter) :
    (conInit env fd src now nat state).1.Served state.stutter now := by
  have hroom : (conInit env fd src now nat state).1.HasRoom := conInit_hasRoom fd src
  obtain ⟨stutter, hstutter, hinit⟩ := conInit_stutter env fd src now nat state
  rw [hinit] at hroom ⊢
  refine (conNextState_step ..).served hroom hpos ?_ ?_
  · show 0 ≤ stutter
    rcases hstutter with rfl | rfl
    · exact le_refl 0
    · exact h0
  · show stutter ≤ state.stutter
    rcases hstutter with rfl | rfl
    · exact h0
    · exact le_refl _

end Timers

/-! ## Runs of the main loop -/

/-- What an iteration begins with, and what it does for one of its descriptors. -/
inductive LoopEvent
  | poll (fds : LoopFds)
  | serve (nat : NatReply) (event : ConEvent)

structure LoopTick where
  now : Int
  event : LoopEvent

/-- The table, and the time of the last event. -/
structure MainLoop where
  table : ConTable
  now : Int

def LoopTick.Fits (t : LoopTick) (l : MainLoop) : Prop :=
  l.now ≤ t.now ∧
    match t.event with
    | .poll _ => True
    | .serve _ event => event.Enabled t.now l.table

def loopStep (env : ConEnv) (t : LoopTick) (l : MainLoop) : MainLoop :=
  ⟨match t.event with
    | .poll fds => (pollLoop t.now fds l.table).2
    | .serve nat event => l.table.step env t.now nat event, t.now⟩

abbrev LoopRun (env : ConEnv) (first : MainLoop) : List LoopTick → MainLoop → Prop :=
  Run LoopTick.Fits (loopStep env) first

/-- The loop when it begins at a time that is not zero, with a stutter that is not negative. -/
structure MainLoop.Begins (l : MainLoop) : Prop where
  closed : ∀ con ∈ l.table.cons, con.fd = none ∧ con.r = 0 ∧ con.stutter = 0
  stutter : 0 ≤ l.table.state.stutter
  time : 0 < l.now

structure MainLoop.Served (s : Int) (l : MainLoop) : Prop where
  stutter : l.table.state.stutter = s
  nonneg : 0 ≤ s
  time : 0 < l.now
  cons : ∀ con ∈ l.table.cons, con.Served s l.now

/-- The turn brings no end of a line, and nothing is written. -/
def ConAct.Silent (con : Con) : ConAct → Prop
  | .read (.data bytes) => ¬con.Completes bytes
  | .read _ => True
  | .write _ => False
  | .close => True

/-- A turn of the connection in this slot, if the event is one, is a silent one. -/
def LoopTick.Silent (i : Nat) (t : LoopTick) (l : MainLoop) : Prop :=
  ∀ nat act con, t.event = .serve nat (.act i act) → l.table.cons[i]? = some con → act.Silent con

/-- The loop goes on while the client in this slot is silent. -/
abbrev SilentRun (env : ConEnv) (i : Nat) (first : MainLoop) : List LoopTick → MainLoop → Prop :=
  Run (fun t l => t.Fits l ∧ t.Silent i l) (loopStep env) first

section Loop

variable {env : ConEnv} {now : Int} {nat : NatReply} {con con' : Con} {cons : List Con}
  {state state' : GreydState} {next : Con × GreydState} {l m first : MainLoop} {t : LoopTick}
  {ts more : List LoopTick} {s : Int} {i d : Nat} {p : Place} {fds : LoopFds}

theorem GreydState.stutter_congr (h : state'.config = state.config) : state'.stutter = state.stutter := by
  unfold GreydState.stutter
  rw [h]

theorem MainLoop.Begins.served (h : l.Begins) : l.Served l.table.state.stutter := by
  refine ⟨rfl, h.stutter, h.time, fun con hcon => ?_⟩
  obtain ⟨hfd, hr, hstutter⟩ := h.closed con hcon
  refine ⟨fun hr' => absurd hr hr', hstutter.ge, ?_, fun hopen => absurd hfd hopen⟩
  rw [hstutter]
  exact h.stutter

theorem conDone_config : (conDone now con state).2.config = state.config := by
  obtain ⟨_, _, _, _, hdone⟩ := conDone_frame now con state
  rw [hdone]

theorem NextStep.config (h : NextStep env now nat con state next) :
    next.2.config = state.config := by
  cases h with
  | refused _ _ | dataReply _ _ | badCmd _ | bodyEnd _ | reply _ => exact conDone_config
  | _ => rfl

theorem TurnStep.config {act : ConAct} (h : TurnStep env now nat con state act next) :
    next.2.config = state.config := by
  cases h with
  | readClosed _ | readMore _ | close => rfl
  | readLine _ => exact (conNextState_step ..).config
  | writeMore hwrote _ => cases hwrote <;> rfl
  | writeDone hwrote _ =>
    refine (conNextState_step ..).config.trans ?_
    cases hwrote <;> rfl

theorem conInit_config (fd : Nat) (src : Sockaddr) :
    (conInit env fd src now nat state).2.config = state.config := by
  obtain ⟨stutter, -, hinit⟩ := conInit_stutter env fd src now nat state
  rw [hinit]
  exact (conNextState_step ..).config

/-! ### What the timers do -/

/-- An iteration leaves a connection as it is, or closes it. -/
theorem pollCon_cases (now : Int) (con : Con) (state : GreydState) :
    (pollCon now con state).2 = (con, state) ∧ (con.fd = none ∨ con.stays now) ∨
      con.fd ≠ none ∧ (pollCon now con state).2 = conClose con state := by
  unfold pollCon Con.stays
  cases hfd : con.fd with
  | none => exact .inl ⟨rfl, .inl rfl⟩
  | some fd =>
    dsimp only
    by_cases hread : con.readExpired now
    · rw [if_pos hread]
      exact .inr ⟨by simp, rfl⟩
    · rw [if_neg hread]
      by_cases hwrite : con.writeExpired now
      · rw [if_pos hwrite]
        exact .inr ⟨by simp, rfl⟩
      · rw [if_neg hwrite]
        exact .inl ⟨rfl, .inr ⟨hread, hwrite⟩⟩

theorem pollCon_config : (pollCon now con state).2.2.config = state.config := by
  rcases pollCon_cases now con state with ⟨h, -⟩ | ⟨-, h⟩
  · rw [h]
  · rw [h]
    rfl

theorem pollCons_config : (pollCons now cons state).2.2.config = state.config := by
  induction cons generalizing state with
  | nil => rfl
  | cons con cons ih => exact ih.trans pollCon_config

/-- Each slot of the table after the timers have been looked at. -/
theorem pollCons_slot : ∃ state', (pollCons now cons state).2.1[i]? =
    cons[i]?.map fun con => (pollCon now con state').2.1 := by
  induction cons generalizing i state with
  | nil => exact ⟨state, rfl⟩
  | cons con cons ih =>
    cases i with
    | zero => exact ⟨state, rfl⟩
    | succ i => exact ih

theorem Con.Served.closed (h : con.Served s now) : (conClose con state).1.Served s now :=
  ⟨h.room.congr rfl rfl, h.stutter_nonneg, h.stutter_le, fun hopen => absurd rfl hopen⟩

theorem MainLoop.Served.poll (h : l.Served s) (hle : l.now ≤ now) :
    (loopStep env ⟨now, .poll fds⟩ l).Served s := by
  refine ⟨?_, h.nonneg, h.time.trans_le hle, ?_⟩
  · exact (GreydState.stutter_congr pollCons_config).trans h.stutter
  · intro con hcon
    obtain ⟨i, hi⟩ := List.getElem?_of_mem hcon
    obtain ⟨state', hslot⟩ := @pollCons_slot now l.table.cons l.table.state i
    rw [show (pollCons now l.table.cons l.table.state).2.1[i]? = some con from hi] at hslot
    obtain ⟨before, hbefore, rfl⟩ := Option.map_eq_some_iff.mp hslot.symm
    have hserved := (h.cons before (List.mem_of_getElem? hbefore)).mono hle
    rcases pollCon_cases now before state' with ⟨heq, -⟩ | ⟨-, heq⟩
    · rw [heq]
      exact hserved
    · rw [heq]
      exact hserved.closed

/-- A table in which one connection has been replaced. -/
theorem MainLoop.Served.replace (h : l.Served s) (hle : l.now ≤ now)
    (hconfig : state.config = l.table.state.config) (hcon : con.Served s now) :
    (⟨⟨l.table.cons.set i con, state⟩, now⟩ : MainLoop).Served s := by
  refine ⟨(GreydState.stutter_congr hconfig).trans h.stutter, h.nonneg, h.time.trans_le hle, ?_⟩
  intro con' hcon'
  rcases List.mem_or_eq_of_mem_set hcon' with hold | rfl
  · exact (h.cons con' hold).mono hle
  · exact hcon

theorem MainLoop.Served.serve {event : ConEvent} (h : l.Served s) (hle : l.now ≤ now)
    (henabled : event.Enabled now l.table) :
    (loopStep env ⟨now, .serve nat event⟩ l).Served s := by
  have hold : ∀ con ∈ l.table.cons, con.Served s now := fun con hcon => (h.cons con hcon).mono hle
  have hpos : 0 < now := h.time.trans_le hle
  unfold loopStep ConTable.step
  cases event with
  | accept fd src =>
    dsimp only
    cases l.table.freeSlot with
    | none => exact ⟨h.stutter, h.nonneg, hpos, hold⟩
    | some i =>
      refine h.replace hle (conInit_config fd src) ?_
      have h0 : 0 ≤ l.table.state.stutter := h.stutter.symm ▸ h.nonneg
      exact h.stutter ▸ conInit_served fd src hpos h0
  | act i turn =>
    obtain ⟨con, hi, hact⟩ := henabled
    have hserved := h.cons con (List.mem_of_getElem? hi)
    have hstep := hact.step env nat hserved.room
    dsimp only
    rw [hi]
    exact h.replace hle hstep.config (hstep.served hact hserved hle hpos)
  | configure blacklists => exact ⟨h.stutter, h.nonneg, hpos, hold⟩
  | slow ended => exact ⟨h.stutter, h.nonneg, hpos, hold⟩

/-- Every connection of a table the loop reaches is closed or waits for something. -/
theorem LoopRun.served (hfirst : first.Begins) (h : LoopRun env first ts l) :
    l.Served first.table.state.stutter := by
  refine h.invariant hfirst.served fun t l hfits hserved => ?_
  obtain ⟨now, event⟩ := t
  cases event with
  | poll fds => exact hserved.poll hfits.1
  | serve nat event => exact hserved.serve hfits.1 hfits.2

end Loop

section Loop

variable {env : ConEnv} {now : Int} {nat : NatReply} {con : Con} {l m first : MainLoop}
  {ts more : List LoopTick} {s : Int} {i : Nat} {fds : LoopFds}

/-! ### Silent clients -/

/-- The connection in the slot has kept its timers. -/
def MainLoop.Keeps (l : MainLoop) (i : Nat) (con : Con) : Prop :=
  ∃ con', l.table.cons[i]? = some con' ∧ con'.fd = con.fd ∧ con'.r = con.r ∧ con'.w = con.w

/-- There is no open connection in the slot. -/
def MainLoop.Closed (l : MainLoop) (i : Nat) : Prop :=
  ∃ con, l.table.cons[i]? = some con ∧ con.fd = none

/-- An iteration closes the connection in a slot, or it has not expired and stays as it is. -/
theorem MainLoop.Keeps.poll (h : l.Keeps i con) :
    (loopStep env ⟨now, .poll fds⟩ l).Closed i ∨
      con.stays now ∧ (loopStep env ⟨now, .poll fds⟩ l).Keeps i con := by
  obtain ⟨con', hi, hfd, hr, hw⟩ := h
  obtain ⟨state', hslot⟩ := @pollCons_slot now l.table.cons l.table.state i
  rw [hi, Option.map_some] at hslot
  rcases pollCon_cases now con' state' with ⟨heq, hclosed | hstays⟩ | ⟨-, heq⟩
  · exact .inl ⟨con', by rw [heq] at hslot; exact hslot, hclosed⟩
  · have hsame : con.stays now := by
      unfold Con.stays Con.readExpired Con.writeExpired at hstays ⊢
      rwa [hr, hw] at hstays
    exact .inr ⟨hsame, con', by rw [heq] at hslot; exact hslot, hfd, hr, hw⟩
  · exact .inl ⟨_, by rw [heq] at hslot; exact hslot, rfl⟩

/-- A silent turn of an open connection closes it or leaves its timers alone, and so does what
is done for other descriptors. -/
theorem MainLoop.Keeps.serve {event : ConEvent} (h : l.Keeps i con) (hopen : con.fd ≠ none)
    (hfits : (⟨now, .serve nat event⟩ : LoopTick).Fits l)
    (hroom : ∀ con ∈ l.table.cons, con.HasRoom)
    (hsilent : (⟨now, .serve nat event⟩ : LoopTick).Silent i l) :
    (loopStep env ⟨now, .serve nat event⟩ l).Closed i ∨
      (loopStep env ⟨now, .serve nat event⟩ l).Keeps i con := by
  obtain ⟨con', hi, hfd, hr, hw⟩ := h
  have hset : ∀ (j : Nat) (other : Con) (state : GreydState), j ≠ i →
      (⟨⟨l.table.cons.set j other, state⟩, now⟩ : MainLoop).Keeps i con := by
    intro j other state hne
    exact ⟨con', (List.getElem?_set_ne hne).trans hi, hfd, hr, hw⟩
  unfold loopStep ConTable.step
  cases event with
  | accept fd src =>
    dsimp only
    cases hfree : l.table.freeSlot with
    | none => exact .inr ⟨con', hi, hfd, hr, hw⟩
    | some j =>
      refine .inr (hset j _ _ ?_)
      rintro rfl
      obtain ⟨hj, hnone, -⟩ := List.findIdx?_eq_some_iff_getElem.mp hfree
      rw [List.getElem?_eq_getElem hj] at hi
      rw [Option.some.inj hi, Option.isNone_iff_eq_none, hfd] at hnone
      exact hopen hnone
  | act j turn =>
    obtain ⟨acting, hj, hact⟩ := hfits.2
    dsimp only
    rw [hj]
    by_cases hne : j = i
    · subst hne
      rw [hi] at hj
      cases Option.some.inj hj
      have hquiet := hsilent nat turn con' rfl hi
      have hstep := hact.step env nat (hroom con' (List.mem_of_getElem? hi))
      have hlt := (List.getElem?_eq_some_iff.mp hi).1
      dsimp only
      generalize turn.run env now nat con' l.table.state = next at hstep ⊢
      cases hstep with
      | readClosed _ | close => exact .inl ⟨_, List.getElem?_set_self hlt, rfl⟩
      | readMore _ => exact .inr ⟨_, List.getElem?_set_self hlt, hfd, hr, hw⟩
      | readLine hcompletes => exact absurd hcompletes hquiet
      | writeMore _ _ | writeDone _ _ => exact hquiet.elim
    · exact .inr (hset j _ _ hne)
  | configure blacklists => exact .inr ⟨con', hi, hfd, hr, hw⟩
  | slow ended => exact .inr ⟨con', hi, hfd, hr, hw⟩

theorem SilentRun.loopRun (h : SilentRun env i l more m) : LoopRun env l more m :=
  h.mono fun _ _ hfits => hfits.1

/-- While the client in the slot is silent, its connection is closed or keeps its timers. -/
theorem SilentRun.keeps (hserved : l.Served s) (h : SilentRun env i l more m)
    (hi : l.table.cons[i]? = some con) (hopen : con.fd ≠ none) :
    m.Served s ∧ ((∃ part m', part <+: more ∧ LoopRun env l part m' ∧ m'.Closed i) ∨
      m.Keeps i con) := by
  refine Run.history (I := fun es m => m.Served s ∧ ((∃ part m', part <+: es ∧
    LoopRun env l part m' ∧ m'.Closed i) ∨ m.Keeps i con)) h
    ⟨hserved, .inr ⟨con, hi, rfl, rfl, rfl⟩⟩ ?_
  rintro es m ⟨now, event⟩ hrun ⟨hfits, hsilent⟩ ⟨hserved, hslot⟩
  have hnext : LoopRun env l (es ++ [⟨now, event⟩]) (loopStep env ⟨now, event⟩ m) :=
    (SilentRun.loopRun hrun).tick hfits
  refine ⟨?_, ?_⟩
  · cases event with
    | poll fds => exact hserved.poll hfits.1
    | serve nat event => exact hserved.serve hfits.1 hfits.2
  · rcases hslot with ⟨part, m', hpart, hrun', hclosed⟩ | hkeeps
    · exact .inl ⟨part, m', hpart.trans (List.prefix_append ..), hrun', hclosed⟩
    · have hor : (loopStep env ⟨now, event⟩ m).Closed i ∨ (loopStep env ⟨now, event⟩ m).Keeps i con := by
        cases event with
        | poll fds => exact hkeeps.poll.imp_right And.right
        | serve nat event =>
          exact hkeeps.serve hopen hfits (fun con hcon => (hserved.cons con hcon).room) hsilent
      exact hor.imp_left fun hclosed => ⟨_, _, List.prefix_rfl, hnext, hclosed⟩

end Loop

end Greyd
