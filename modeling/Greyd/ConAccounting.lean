import Greyd.OutputWindow

/-!
# Connection accounting

The counters of the daemon against its table of connections, over the runs of the main loop.
-/
namespace Greyd

def Con.isOpen (con : Con) : Bool := con.fd.isSome

def Con.isBlack (con : Con) : Bool := con.fd.isSome && con.listed

def ConTable.openCount (table : ConTable) : Nat := table.cons.countP Con.isOpen

def ConTable.blackCount (table : ConTable) : Nat := table.cons.countP Con.isBlack

/-- An accepted client is on no list, or one of its lists has a message that does not end in
a newline. -/
def AcceptsMarked (table : ConTable) : ConEvent → Prop
  | .accept _ src => table.freeSlot ≠ none → AcceptsReply false table.state src
  | _ => True

/-- The table of a daemon with the configuration it was started with. -/
structure Balanced (config : Config) (table : ConTable) : Prop where
  config : table.state.config = config
  clients : table.state.clients = table.openCount
  blackClients : table.state.blackClients = table.blackCount
  closed : none ∉ table.state.closed
  cons : ∀ con ∈ table.cons, con.HasRoom ∧
    (con.fd = none ∨ con.Tidy false table.state.errorCode)

section Slots

variable {cons : List Con} {con con' : Con} {i : Nat}

/-- What replacing one connection does to a count. -/
theorem countP_replace (p : Con → Bool) (h : cons[i]? = some con) (con' : Con) :
    ((cons.set i con').countP p : Int) =
      cons.countP p - (if p con then 1 else 0) + (if p con' then 1 else 0) := by
  obtain ⟨hi, hget⟩ := List.getElem?_eq_some_iff.mp h
  have hpos : p con = true → 0 < cons.countP p := fun hp =>
    List.countP_pos_iff.mpr ⟨con, hget ▸ List.getElem_mem hi, hp⟩
  rw [List.countP_set hi, hget]
  by_cases hp : p con = true
  · have := hpos hp
    simp only [hp, if_true]
    split <;> push_cast <;> omega
  · simp only [hp, if_false, Bool.false_eq_true]
    split <;> push_cast <;> omega

end Slots

section Runs

variable {env : ConEnv} {table : ConTable} {config : Config}

/-- Replacing one connection: what holds of the new one and of the counters. -/
theorem Balanced.replace (h : Balanced config table) {i : Nat} {con : Con}
    (hi : table.cons[i]? = some con) {next : Con × GreydState} (hconfig : next.2.config = config)
    (hclients : next.2.clients = table.state.clients - (if con.isOpen then 1 else 0) +
      (if next.1.isOpen then 1 else 0))
    (hblack : next.2.blackClients = table.state.blackClients - (if con.isBlack then 1 else 0) +
      (if next.1.isBlack then 1 else 0))
    (hclosed : none ∉ next.2.closed) (hroom : next.1.HasRoom)
    (htidy : next.1.fd = none ∨ next.1.Tidy false next.2.errorCode) :
    Balanced config ⟨table.cons.set i next.1, next.2⟩ where
  config := hconfig
  clients := by
    rw [hclients, h.clients]
    exact (countP_replace Con.isOpen hi next.1).symm
  blackClients := by
    rw [hblack, h.blackClients]
    exact (countP_replace Con.isBlack hi next.1).symm
  closed := hclosed
  cons := by
    intro con' hmem
    have hcode : next.2.errorCode = table.state.errorCode := by
      unfold GreydState.errorCode
      rw [hconfig, h.config]
    rcases List.mem_or_eq_of_mem_set hmem with hold | rfl
    · rw [hcode]
      exact h.cons con' hold
    · exact ⟨hroom, htidy⟩

/-- A client is accepted. -/
theorem Balanced.accept (hprints : env.Prints) (h : Balanced config table) (now : Int)
    (nat : NatReply) (fd : Nat) {src : Sockaddr} (hmarked : AcceptsMarked table (.accept fd src)) :
    Balanced config (table.step env now nat (.accept fd src)) := by
  unfold ConTable.step
  dsimp only
  split
  · exact ⟨h.config, h.clients, h.blackClients, h.closed, h.cons⟩
  · next i hslot =>
    obtain ⟨hi, hfree, -⟩ := List.findIdx?_eq_some_iff_getElem.mp hslot
    have haccepts := hmarked (by rw [hslot]; simp)
    obtain ⟨hfd, hlists, hconfig, hclients, hblack, hclosed, htidy⟩ :=
      conInit_accepted hprints fd now nat haccepts
    have hnone : (table.cons[i]).fd = none := Option.isNone_iff_eq_none.mp hfree
    have hopen : (table.cons[i]).isOpen = false := by
      unfold Con.isOpen
      rw [hnone]
      rfl
    have hnotBlack : (table.cons[i]).isBlack = false := by
      unfold Con.isBlack
      rw [hnone]
      rfl
    have hisOpen : (conInit env fd src now nat table.state).1.isOpen = true := by
      unfold Con.isOpen
      rw [hfd]
      rfl
    have hisBlack : (conInit env fd src now nat table.state).1.isBlack =
        !(attachedLists table.state src).isEmpty := by
      unfold Con.isBlack Con.listed
      rw [hfd, hlists]
      rfl
    apply h.replace (List.getElem?_eq_getElem hi) (hconfig.trans h.config)
    · rw [hclients, hopen, hisOpen]
      simp
    · rw [hblack, hnotBlack, hisBlack]
      cases (attachedLists table.state src).isEmpty <;> simp
    · rw [hclosed]
      exact h.closed
    · exact conInit_hasRoom fd src
    · right
      unfold GreydState.errorCode
      rw [hconfig]
      exact htidy

/-- A connection takes a turn. -/
theorem Balanced.act (hprints : env.Prints) (h : Balanced config table) {now : Int}
    (nat : NatReply) {i : Nat} {turn : ConAct} (henabled : ConEvent.Enabled now table (.act i turn)) :
    Balanced config (table.step env now nat (.act i turn)) := by
  obtain ⟨con, hi, henabled⟩ := henabled
  obtain ⟨hroom, htidy⟩ := h.cons con (List.mem_of_getElem? hi)
  have hstep := henabled.step env nat hroom
  have hopen : con.isOpen = true := Option.isSome_iff_ne_none.mpr henabled.1
  have hblack : con.isBlack = con.listed := by
    unfold Con.isBlack
    rw [show con.fd.isSome = true from hopen, Bool.true_and]
  have hafter : Balanced config ⟨table.cons.set i (turn.run env now nat con table.state).1,
      (turn.run env now nat con table.state).2⟩ := by
    rcases hstep.outcome hprints henabled (htidy.resolve_left henabled.1) with
      ⟨hfd, hlists, hconfig, hclients, hblackClients, hclosed⟩ |
      ⟨⟨hfd, hlists, hconfig, hclients, hblackClients, hclosed⟩, htidy', -⟩
    · have hisOpen : (turn.run env now nat con table.state).1.isOpen = false := by
        unfold Con.isOpen
        rw [hfd]
        rfl
      have hisBlack : (turn.run env now nat con table.state).1.isBlack = false := by
        unfold Con.isBlack
        rw [hfd]
        rfl
      apply h.replace hi (hconfig.trans h.config)
      · rw [hclients, hopen, hisOpen]
        simp
      · rw [hblackClients, hblack, hisBlack]
        cases con.listed <;> simp
      · rw [hclosed, List.mem_append, List.mem_singleton, not_or]
        exact ⟨h.closed, fun hnone => henabled.1 hnone.symm⟩
      · exact hstep.hasRoom henabled hroom
      · exact .inl hfd
    · have hisOpen : (turn.run env now nat con table.state).1.isOpen = con.isOpen := by
        unfold Con.isOpen
        rw [hfd]
      have hisBlack : (turn.run env now nat con table.state).1.isBlack = con.isBlack := by
        unfold Con.isBlack Con.listed
        rw [hfd, hlists]
      apply h.replace hi (hconfig.trans h.config)
      · rw [hclients, hisOpen]
        omega
      · rw [hblackClients, hisBlack]
        omega
      · rw [hclosed]
        exact h.closed
      · exact hstep.hasRoom henabled hroom
      · right
        unfold GreydState.errorCode
        rw [hconfig]
        exact htidy'
  unfold ConTable.step
  dsimp only
  rw [hi]
  exact hafter

theorem Balanced.start {state : GreydState} (hclients : state.clients = 0)
    (hblack : state.blackClients = 0) (hclosed : state.closed = []) :
    Balanced state.config (ConTable.start state) := by
  have hcount : ∀ p : Con → Bool, p { Con.zero with fd := none } = false →
      (ConTable.start state).cons.countP p = 0 := by
    intro p hp
    rw [List.countP_eq_zero]
    intro con hmem
    rw [List.eq_of_mem_replicate hmem, hp]
    simp
  refine ⟨rfl, ?_, ?_, ?_, ?_⟩
  · show state.clients = _
    rw [hclients, ConTable.openCount, hcount _ rfl]
    rfl
  · show state.blackClients = _
    rw [hblack, ConTable.blackCount, hcount _ rfl]
    rfl
  · show none ∉ state.closed
    rw [hclosed]
    simp
  · intro con hmem
    rw [List.eq_of_mem_replicate hmem]
    exact ⟨fun hr => absurd rfl hr, .inl rfl⟩

theorem Balanced.run (hprints : env.Prints) {first : ConTable} (h : Balanced config first)
    (hrun : ConRun env AcceptsMarked first table) : Balanced config table := by
  induction hrun with
  | start => exact h
  | @step table event now nat _ henabled hmarked ih =>
    cases event with
    | accept fd src => exact ih.accept hprints now nat fd hmarked
    | act i turn => exact ih.act hprints nat henabled
    | configure blacklists => exact ⟨ih.config, ih.clients, ih.blackClients, ih.closed, ih.cons⟩
    | slow ended => exact ⟨ih.config, ih.clients, ih.blackClients, ih.closed, ih.cons⟩

/-- Where every accepted client is on no list or one of its lists has a message that does
not end in a newline, the counters agree with the table in every state the main loop
reaches, and no connection is closed that is closed already. -/
theorem con_accounting (hprints : env.Prints) {maxCons maxBlack : Int} {proxyProtocolEnabled : Bool}
    {permittedProxies : Blacklist}
    (hrun : ConRun env AcceptsMarked
      (.start (.start config maxCons maxBlack proxyProtocolEnabled permittedProxies)) table) :
    table.state.clients = table.openCount ∧ table.state.blackClients = table.blackCount ∧
      none ∉ table.state.closed := by
  have hbalanced := (Balanced.start rfl rfl rfl).run hprints hrun
  exact ⟨hbalanced.clients, hbalanced.blackClients, hbalanced.closed⟩

end Runs

/-- A daemon with room for one connection, and what becomes of the listed client there. -/
def configuredTable (message : CStr) : ConTable :=
  (ConTable.start (.start configCreate 1 1 true (blacklistCreate [] [] .list))).step listedEnv 1 none
    (.configure (listedState message).blacklists)

def acceptedTable (message : CStr) : ConTable :=
  (configuredTable message).step listedEnv 1 none (.accept 5 listedSrc)

def refusedTable (message : CStr) : ConTable :=
  (acceptedTable message).step listedEnv 2 none (.act 0 (.read (.data "HELO\r\n".toList)))

theorem acceptedTable_run {meets : ConTable → ConEvent → Prop} (message : CStr)
    (hconfigure : ∀ table blacklists, meets table (.configure blacklists))
    (haccept : meets (configuredTable message) (.accept 5 listedSrc)) :
    ConRun listedEnv meets (.start (.start configCreate 1 1 true (blacklistCreate [] [] .list)))
      (acceptedTable message) :=
  @ConRun.step _ _ _ _ (.accept 5 listedSrc) 1 none
    (@ConRun.step _ _ _ _ (.configure _) 1 none .start trivial (hconfigure _ _)) trivial haccept

/-- With the message "Listed" the accepted client is counted. -/
theorem con_accounting_listed :
    (acceptedTable "Listed".toList).state.clients = (acceptedTable "Listed".toList).openCount ∧
      (acceptedTable "Listed".toList).state.blackClients =
        (acceptedTable "Listed".toList).blackCount ∧
      none ∉ (acceptedTable "Listed".toList).state.closed := by
  apply con_accounting listedEnv_prints
  apply acceptedTable_run "Listed".toList fun _ _ => trivial
  exact fun _ => ⟨⟨by decide +kernel, by decide +kernel, by decide +kernel, by decide +kernel⟩,
    by decide +kernel, listsMark_listed (by decide +kernel) false⟩

/-- With a newline at the end of the message the reply is not marked, the call of `write` has
nothing to write, and the connection is closed twice. -/
theorem newline_reply_closes_twice :
    ∃ table, ConRun listedEnv (fun _ _ => True)
        (.start (.start configCreate 1 1 true (blacklistCreate [] [] .list))) table ∧
      table.state.clients = -1 ∧ table.openCount = 0 ∧ table.state.closed = [some 5, none] := by
  have haccepted := @acceptedTable_run (fun _ _ => True) "Listed\n".toList (fun _ _ => trivial) trivial
  obtain ⟨con, hcon, hread⟩ := Option.map_eq_some_iff.mp
    (show (acceptedTable "Listed\n".toList).cons[0]?.map
      (fun con => (con.fd, con.r, con.inRemaining)) = some (some 5, 1, 8191) by decide +kernel)
  simp only [Prod.mk.injEq] at hread
  obtain ⟨hfd, hr, hroom⟩ := hread
  have hrefused := @ConRun.step _ _ _ _ (.act 0 (.read (.data "HELO\r\n".toList))) 2 none haccepted
    ⟨con, hcon, by rw [hfd]; simp, by rw [hr]; decide, by decide, by rw [hroom]; decide⟩ trivial
  obtain ⟨con', hcon', hwrite⟩ := Option.map_eq_some_iff.mp
    (show (refusedTable "Listed\n".toList).cons[0]?.map
      (fun con => (con.fd, con.w, toBeWritten (con.settleStutter 3 (refusedTable "Listed\n".toList).state)
        (refusedTable "Listed\n".toList).state)) = some (some 5, 3, 0) by decide +kernel)
  simp only [Prod.mk.injEq] at hwrite
  obtain ⟨hfd', hw, hnone⟩ := hwrite
  have hclosed := @ConRun.step _ _ _ _ (.act 0 (.write ⟨1, 0⟩)) 3 none hrefused
    ⟨con', hcon', by rw [hfd']; simp, by rw [hw]; decide, by rw [hw], by decide,
      (show (0 : Int) ≤ _ from hnone.ge)⟩ trivial
  exact ⟨_, hclosed, by decide +kernel, by decide +kernel, by decide +kernel⟩

end Greyd
