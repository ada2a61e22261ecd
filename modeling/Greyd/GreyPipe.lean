import Greyd.ConRuns
import Greyd.GreyRuns
import Greyd.GreyText
import Greyd.Sync

/-!
# The grey pipe (main_greyd.c, con.c, sync.c, grey.c)

The daemon writes the messages of its connections and those of the other hosts of the cluster
on one pipe, and the reader of the greylister takes them off it one after another. Where the
texts in them can be read, every message changes the database once, in the order of writing.
-/
namespace Greyd

/-- The default section of the configuration binds these variables and no others. -/
def Config.BindsOnly (config : Config) (vars : CStr → Option ConfigValue) : Prop :=
  ∃ section', configGetSection config configDefaultSection = some section' ∧
    ∀ k, configSectionGet section' k = vars k

section BindsOnly

variable {config : Config} {vars : CStr → Option ConfigValue}

theorem Config.BindsOnly.int (h : config.BindsOnly vars) (k : CStr) (d : Int) :
    configGetInt config k none d =
      match vars k with
      | some (.int n) => n
      | _ => d := by
  obtain ⟨section', hsection, hget⟩ := h
  unfold configGetInt
  rw [Option.getD_none, hsection]
  show (match configSectionGet section' k with
    | some (.int n) => n
    | _ => d) = _
  rw [hget]

theorem Config.BindsOnly.str (h : config.BindsOnly vars) (k : CStr) (d : Option CStr) :
    configGetStr config k none d =
      match vars k with
      | some (.str s) => some s
      | _ => d := by
  obtain ⟨section', hsection, hget⟩ := h
  unfold configGetStr
  rw [Option.getD_none, hsection]
  show (match configSectionGet section' k with
    | some (.str s) => some s
    | _ => d) = _
  rw [hget]

end BindsOnly

/-- A message of few lines binds their names and no others. -/
theorem configParserStart_binds (glob : CStr → List CStr) (line : Line) (lines : List Line)
    {parser : ConfigParser} {rest : List Char} (hfew : lines.length + 1 < configSecInitEntries)
    (hsection : parser.section' = none)
    (hlexer : parser.lexer = ⟨renderMessage " = ".toList (line :: lines) ++ rest, false⟩) :
    ∃ parser', configParserStart glob configCreate parser = some (true, parser') ∧
      parser'.lexer = ⟨rest, false⟩ ∧ parser'.section' = none ∧
      parser'.config.BindsOnly (bindLines (fun _ => none) (line :: lines)) := by
  obtain ⟨parser', hstart, hrest, hsection', hbinds⟩ :=
    configParserStart_of_lines glob (.inr rfl) line lines hsection hlexer
  refine ⟨parser', hstart, hrest, hsection', _, hbinds.getSection, ?_⟩
  have hfull : ((line :: lines).map Line.name).length < configSecInitEntries := by simpa using hfew
  exact hbinds.get_eq (fun k hk => bindLines_ne_none hk) hfull

/-! ## The messages of the other hosts -/

def intLine (name : CStr) (hname : IsName name) (n : Nat) (hn : n < 2 ^ 31) : Line :=
  ⟨name, decimal n, .int n, 0, hname, .item (.int hn)⟩

theorem isName_type : IsName "type".toList := isName_of (by decide) (by decide) (by decide) (by decide)
theorem isName_sync : IsName "sync".toList := isName_of (by decide) (by decide) (by decide) (by decide)
theorem isName_ip : IsName "ip".toList := isName_of (by decide) (by decide) (by decide) (by decide)
theorem isName_helo : IsName "helo".toList := isName_of (by decide) (by decide) (by decide) (by decide)
theorem isName_from : IsName "from".toList := isName_of (by decide) (by decide) (by decide) (by decide)
theorem isName_to : IsName "to".toList := isName_of (by decide) (by decide) (by decide) (by decide)
theorem isName_source : IsName "source".toList :=
  isName_of (by decide) (by decide) (by decide) (by decide)
theorem isName_expires : IsName "expires".toList :=
  isName_of (by decide) (by decide) (by decide) (by decide)
theorem isName_delete : IsName "delete".toList :=
  isName_of (by decide) (by decide) (by decide) (by decide)

/-- What `process_message` finds in a message that announces a tuple. -/
structure SyncGreyReads (ip helo from_ to_ : CStr) (gt : GreyTuple) : Prop where
  ip : Reads ip gt.ip
  helo : Reads helo gt.helo
  from_ : Reads from_ gt.from_
  to_ : Reads to_ gt.to_

structure SyncAddrReads (ip source : CStr) (expires : Nat) (ip' source' expires' : CStr) : Prop where
  ip : Reads ip ip'
  source : Reads source source'
  expires : Reads (decimal expires) expires'

section SyncLines

variable {ip helo from_ to_ source ip' source' expires' : CStr} {gt : GreyTuple} {expires : Nat}
  {trap delete : Bool}

def SyncGreyReads.lines (h : SyncGreyReads ip helo from_ to_ gt) : List Line :=
  [intLine "sync".toList isName_sync 0 (by decide), h.ip.line "ip".toList isName_ip,
    h.helo.line "helo".toList isName_helo, h.from_.line "from".toList isName_from,
    h.to_.line "to".toList isName_to]

theorem SyncGreyReads.render (h : SyncGreyReads ip helo from_ to_ gt) :
    (SyncMessage.grey ip helo from_ to_).text = renderMessage " = ".toList
      (intLine "type".toList isName_type 1 (by decide) :: h.lines) := by
  have hline : ∀ {s u : CStr} (h : Greyd.Reads s u) {name : CStr} (hname : IsName name),
      (h.line name hname).render " = ".toList = name ++ (" = ".toList ++ ('"' :: s ++ ['"'])) :=
    fun _ _ _ => rfl
  have hfirst : "type = 1\nsync = 0\nip = \"".toList = "type = 1".toList ++ '\n' ::
      ("sync = 0".toList ++ '\n' :: ("ip".toList ++ (" = ".toList ++ ['"']))) := rfl
  have htype : (intLine "type".toList isName_type 1 (by decide)).render " = ".toList =
      "type = 1".toList := rfl
  have hsync : (intLine "sync".toList isName_sync 0 (by decide)).render " = ".toList =
      "sync = 0".toList := rfl
  have hhelo : "\"\nhelo = \"".toList = '"' :: '\n' :: ("helo".toList ++ (" = ".toList ++ ['"'])) := rfl
  have hfrom : "\"\nfrom = \"".toList = '"' :: '\n' :: ("from".toList ++ (" = ".toList ++ ['"'])) := rfl
  have hto : "\"\nto = \"".toList = '"' :: '\n' :: ("to".toList ++ (" = ".toList ++ ['"'])) := rfl
  have hlast : "\"\n%\n".toList = '"' :: '\n' :: ['%', '\n'] := rfl
  unfold renderMessage renderLines SyncGreyReads.lines SyncMessage.text
  rw [hfirst, hhelo, hfrom, hto, hlast]
  simp only [List.flatMap_cons, List.flatMap_nil, htype, hsync, hline, List.append_assoc,
    List.cons_append, List.nil_append]

def SyncAddrReads.lines (h : SyncAddrReads ip source expires ip' source' expires') (delete : Bool) :
    List Line :=
  [intLine "sync".toList isName_sync 0 (by decide), h.ip.line "ip".toList isName_ip,
    h.source.line "source".toList isName_source, h.expires.line "expires".toList isName_expires,
    intLine "delete".toList isName_delete (if delete then 1 else 0) (by split <;> decide)]

theorem SyncAddrReads.render (h : SyncAddrReads ip source expires ip' source' expires') :
    (SyncMessage.addr trap ip source expires delete).text = renderMessage " = ".toList
      (intLine "type".toList isName_type (if trap then 2 else 3) (by split <;> decide) ::
        h.lines delete) := by
  have hline : ∀ {s u : CStr} (h : Greyd.Reads s u) {name : CStr} (hname : IsName name),
      (h.line name hname).render " = ".toList = name ++ (" = ".toList ++ ('"' :: s ++ ['"'])) :=
    fun _ _ _ => rfl
  have hint : ∀ {name : CStr} (hname : IsName name) {n : Nat} (hn : n < 2 ^ 31),
      (intLine name hname n hn).render " = ".toList = name ++ (" = ".toList ++ decimal n) :=
    fun _ _ _ => rfl
  have hfirst : "type = ".toList = "type".toList ++ " = ".toList := rfl
  have hip : "\nsync = 0\nip = \"".toList = '\n' :: ("sync".toList ++ (" = ".toList ++
      (decimal 0 ++ '\n' :: ("ip".toList ++ (" = ".toList ++ ['"']))))) := rfl
  have hsource : "\"\nsource = \"".toList =
      '"' :: '\n' :: ("source".toList ++ (" = ".toList ++ ['"'])) := rfl
  have hexpires : "\"\nexpires = \"".toList =
      '"' :: '\n' :: ("expires".toList ++ (" = ".toList ++ ['"'])) := rfl
  have hdelete : "\"\ndelete = ".toList = '"' :: '\n' :: ("delete".toList ++ " = ".toList) := rfl
  have hlast : "\n%\n".toList = '\n' :: ['%', '\n'] := rfl
  unfold renderMessage renderLines SyncAddrReads.lines SyncMessage.text
  rw [hfirst, hip, hsource, hexpires, hdelete, hlast]
  simp only [List.flatMap_cons, List.flatMap_nil, hint, hline, List.append_assoc,
    List.cons_append, List.nil_append]

end SyncLines

/-! ## What the messages do -/

/-- A message on the pipe. -/
inductive PipeItem
  | con (m : GreyMessage)
  | sync (m : SyncMessage)
  deriving DecidableEq

def PipeItem.text : PipeItem → CStr
  | .con m => m.text
  | .sync m => m.text

/-- The reader can read the texts of the message, and handles it as this event. -/
inductive PipeItem.ReadAs : PipeItem → GreyEvent → Prop
  | con {m u} : m.Reads u → ReadAs (.con m)
      (.grey ⟨cstr u.ip, cstr u.helo, cstr u.from_, cstr u.to_⟩ true (cstr u.dstIp))
  | syncGrey {ip helo from_ to_ gt} : SyncGreyReads ip helo from_ to_ gt →
      ReadAs (.sync (.grey ip helo from_ to_))
        (.grey ⟨cstr gt.ip, cstr gt.helo, cstr gt.from_, cstr gt.to_⟩ false [])
  | syncAddr {trap ip source expires delete ip' source' expires'} :
      SyncAddrReads ip source expires ip' source' expires' →
      ReadAs (.sync (.addr trap ip source expires delete))
        (.nonGrey trap (cstr ip') (cstr expires') delete)

/-- What `process_message` does with a configuration it has read. -/
def HandledAs (config : Config) (event : GreyEvent) : Prop :=
  ∀ g f now b, processMessage g f now config b = some (greyStep g ⟨now, f, event⟩ b)

section Handled

variable {config : Config}

theorem GreyMessage.HeldBy.handledAs {u : GreyMessage} (h : u.HeldBy config) :
    HandledAs config
      (.grey ⟨cstr u.ip, cstr u.helo, cstr u.from_, cstr u.to_⟩ true (cstr u.dstIp)) := by
  intro g f now b
  have hsync : configGetInt config "sync".toList none 1 = 1 := Config.BindsOnly.int h _ 1
  have hdst : configGetStr config "dst_ip".toList none (some []) = some (cstr u.dstIp) := h.get _ _
  unfold processMessage
  rw [h.type, h.messageTuple, hsync, hdst]
  rfl

theorem SyncGreyReads.handledAs {ip helo from_ to_ : CStr} {gt : GreyTuple}
    (h : SyncGreyReads ip helo from_ to_ gt) (hbinds : config.BindsOnly (bindLines (fun _ => none)
      (intLine "type".toList isName_type 1 (by decide) :: h.lines))) :
    HandledAs config (.grey ⟨cstr gt.ip, cstr gt.helo, cstr gt.from_, cstr gt.to_⟩ false []) := by
  intro g f now b
  have htype : configGetInt config "type".toList none (-1) = greyMsgGrey := hbinds.int _ _
  have hsync : configGetInt config "sync".toList none 1 = 0 := hbinds.int _ 1
  have hdst : configGetStr config "dst_ip".toList none (some []) = some [] := hbinds.str _ _
  have hip : configGetStr config "ip".toList none none = some (cstr gt.ip) := hbinds.str _ _
  have hhelo : configGetStr config "helo".toList none none = some (cstr gt.helo) := hbinds.str _ _
  have hfrom : configGetStr config "from".toList none none = some (cstr gt.from_) := hbinds.str _ _
  have hto : configGetStr config "to".toList none none = some (cstr gt.to_) := hbinds.str _ _
  have htuple : messageTuple config =
      some ⟨cstr gt.ip, cstr gt.helo, cstr gt.from_, cstr gt.to_⟩ := by
    unfold messageTuple
    rw [hip, hhelo, hfrom, hto]
    rfl
  unfold processMessage
  rw [htype, htuple, hsync, hdst]
  rfl

theorem SyncAddrReads.handledAs {ip source ip' source' expires' : CStr} {expires : Nat}
    {trap delete : Bool} (h : SyncAddrReads ip source expires ip' source' expires')
    (hbinds : config.BindsOnly (bindLines (fun _ => none)
      (intLine "type".toList isName_type (if trap then 2 else 3) (by split <;> decide) ::
        h.lines delete))) :
    HandledAs config (.nonGrey trap (cstr ip') (cstr expires') delete) := by
  intro g f now b
  have htype : configGetInt config "type".toList none (-1) =
      if trap then greyMsgTrap else greyMsgWhite := by
    rw [hbinds.int]
    cases trap <;> rfl
  have hip : configGetStr config "ip".toList none none = some (cstr ip') := hbinds.str _ _
  have hsource : configGetStr config "source".toList none none = some (cstr source') := hbinds.str _ _
  have hexpires : configGetStr config "expires".toList none none = some (cstr expires') :=
    hbinds.str _ _
  have hdelete : configGetInt config "delete".toList none 0 = if delete then 1 else 0 := by
    rw [hbinds.int]
    cases delete <;> rfl
  unfold processMessage
  rw [htype, hip, hsource, hexpires, hdelete]
  cases trap <;> cases delete <;> rfl

end Handled

/-- One call of the parser reads one message of the pipe. -/
theorem PipeItem.ReadAs.read {item : PipeItem} {event : GreyEvent} (h : item.ReadAs event)
    (glob : CStr → List CStr) {parser : ConfigParser} {rest : List Char}
    (hsection : parser.section' = none) (hlexer : parser.lexer = ⟨item.text ++ rest, false⟩) :
    ∃ parser', configParserStart glob configCreate parser = some (true, parser') ∧
      parser'.lexer = ⟨rest, false⟩ ∧ parser'.section' = none ∧ HandledAs parser'.config event := by
  cases h with
  | con hreads =>
    obtain ⟨parser', hstart, hrest, hsection', hheld⟩ :=
      configParserStart_of_grey glob hreads hsection hlexer
    exact ⟨parser', hstart, hrest, hsection', hheld.handledAs⟩
  | syncGrey hreads =>
    rw [PipeItem.text, hreads.render] at hlexer
    obtain ⟨parser', hstart, hrest, hsection', hbinds⟩ :=
      configParserStart_binds glob _ hreads.lines (show 5 + 1 < configSecInitEntries by decide)
        hsection hlexer
    exact ⟨parser', hstart, hrest, hsection', hreads.handledAs hbinds⟩
  | syncAddr hreads =>
    rw [PipeItem.text, hreads.render] at hlexer
    obtain ⟨parser', hstart, hrest, hsection', hbinds⟩ :=
      configParserStart_binds glob _ (hreads.lines _)
        (show 5 + 1 < configSecInitEntries by decide) hsection hlexer
    exact ⟨parser', hstart, hrest, hsection', hreads.handledAs hbinds⟩

/-! ## The reader -/

/-- A turn of the reader's loop: when it handles its message, what fails then, and whether
`Lexer_source_error` finds an error behind it. -/
structure ReaderTurn where
  now : Int
  faults : DbFaults
  sourceError : Bool

/-- The loop of `Grey_start_reader` for these turns: the database, the parser, and whether
the loop goes on. `none` is a parser out of fuel. -/
def greyStartReader (glob : CStr → List CStr) (g : Greylister) :
    List ReaderTurn → ConfigParser → Bdb → Option (Bdb × ConfigParser × Bool)
  | [], parser, b => some (b, parser, true)
  | turn :: turns, parser, b =>
    match configParserStart glob configCreate parser with
    | none => none
    | some (false, parser) => some (b, parser, false)
    | some (true, parser) =>
      match processMessage g turn.faults turn.now parser.config b with
      | none => some (b, parser, false)
      | some b =>
        if turn.sourceError then some (b, parser, false) else greyStartReader glob g turns parser b

/-- The database after events at the times of the turns. -/
def handleEvents (g : Greylister) (b : Bdb) (turns : List ReaderTurn) (events : List GreyEvent) : Bdb :=
  (turns.zip events).foldl (fun b e => greyStep g ⟨e.1.now, e.1.faults, e.2⟩ b) b

/-- The reader handles the messages of the pipe one by one, in their order, and is then at the
text behind them. -/
theorem greyStartReader_items (glob : CStr → List CStr) (g : Greylister) {items : List PipeItem}
    {events : List GreyEvent} (h : List.Forall₂ PipeItem.ReadAs items events)
    {turns : List ReaderTurn} (hlen : turns.length = items.length)
    (hok : ∀ turn ∈ turns, turn.sourceError = false) {parser : ConfigParser} {rest : List Char}
    (hsection : parser.section' = none)
    (hlexer : parser.lexer = ⟨items.flatMap PipeItem.text ++ rest, false⟩) (b : Bdb) :
    ∃ parser', greyStartReader glob g turns parser b =
        some (handleEvents g b turns events, parser', true) ∧
      parser'.lexer = ⟨rest, false⟩ ∧ parser'.section' = none := by
  induction h generalizing turns parser b with
  | nil =>
    rw [List.length_eq_zero_iff.mp hlen]
    exact ⟨parser, rfl, hlexer, hsection⟩
  | @cons item event items events hread _ ih =>
    obtain ⟨turn, turns, rfl⟩ := List.exists_cons_of_length_eq_add_one hlen
    rw [List.flatMap_cons, List.append_assoc] at hlexer
    obtain ⟨parser₁, hstart, hrest, hsection₁, hhandled⟩ := hread.read glob hsection hlexer
    obtain ⟨parser', hrun, hrest', hsection'⟩ := ih (by simpa using hlen)
      (fun turn ht => hok turn (List.mem_cons_of_mem _ ht)) hsection₁ hrest
      (greyStep g ⟨turn.now, turn.faults, event⟩ b)
    refine ⟨parser', ?_, hrest', hsection'⟩
    have hstep := hhandled g turn.faults turn.now b
    rw [greyStartReader, hstart]
    simp only [hstep, hok turn List.mem_cons_self, Bool.false_eq_true, if_false]
    exact hrun

end Greyd
