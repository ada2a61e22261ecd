import Greyd.AddressSteps

/-!
# How long traps and white entries last

A message that traps or whitelists an address until some time is honoured when every scan
before that time lists the address. The entry an address already has keeps its old expiry,
so this depends on what was stored before the message.
-/
namespace Greyd

/-! ## What messages do -/

section Messages

variable {g : Greylister} {f : DbFaults} {now : Int} {b : Bdb}

theorem modDbPut_ip (f : DbFaults) (b : Bdb) (ip : CStr) (gd : GreyData) :
    (modDbPut f b (.ip ip) gd).getD b = b ∨
      (modDbPut f b (.ip ip) gd).getD b = b.putEntry (.ip ip) gd := by
  unfold modDbPut
  split
  · exact .inl rfl
  · exact .inr rfl

theorem modDbPut_tuple (f : DbFaults) (b : Bdb) (gt : GreyTuple) (gd : GreyData) :
    (modDbPut f b (.tuple gt) gd).getD b = b ∨
      (modDbPut f b (.tuple gt) gd).getD b = b.putEntry (.tuple gt) gd := by
  unfold modDbPut
  split
  · exact .inl rfl
  · exact .inr rfl

/-- What a lookup of an entry can answer. -/
theorem modDbGet_cases {key : DbKey} (f : DbFaults) (b : Bdb) (hfile : b.file key = b.db) :
    modDbGet f b key = .err ∨ (∃ gd, modDbGet f b key = .found gd ∧ b.entry key = some gd) ∨
      modDbGet f b key = .notFound ∧ b.entry key = none := by
  unfold modDbGet Bdb.entry
  rw [hfile]
  split
  · exact .inl rfl
  · cases b.db.lookup key with
    | none => exact .inr (.inr ⟨rfl, rfl⟩)
    | some gd => exact .inr (.inl ⟨gd, rfl, rfl⟩)

theorem recordGrey_cases (g : Greylister) (f : DbFaults) (now : Int) (gt : GreyTuple)
    (sync : Bool) (dstIp : CStr) (spamtrap : Bool) (b : Bdb) :
    recordGrey g f now gt sync dstIp spamtrap b = b ∨
      (∃ gd, -1 ≤ gd.pcount ∧
        recordGrey g f now gt sync dstIp spamtrap b = b.putEntry (.ip gt.ip) gd) ∨
      recordGrey g f now gt sync dstIp spamtrap b =
        b.putEntry (.tuple gt) (touchGrey g now false (b.entry (.tuple gt))) := by
  cases spamtrap with
  | true =>
    unfold recordGrey
    cases modDbGet f b (greyKey true gt) with
    | notFound =>
      exact (modDbPut_ip f b gt.ip _).imp_right fun h => .inl ⟨newGrey g now true, le_refl (-1), h⟩
    | found gd =>
      exact (modDbPut_ip f b gt.ip _).imp_right fun h => .inl ⟨seenGrey g now true gd, le_refl (-1), h⟩
    | err => exact .inl rfl
  | false =>
    unfold recordGrey
    rw [Bool.false_or, show greyKey false gt = .tuple gt from rfl]
    rcases modDbGet_cases f b (rfl : b.file (.tuple gt) = b.db) with
      he | ⟨gd, he, hent⟩ | ⟨he, hent⟩
    · rw [he]
      exact .inl rfl
    · rw [he, hent]
      exact (modDbPut_tuple f b gt _).imp_right .inr
    · rw [he, hent]
      cases triedLowPrio g now sync dstIp with
      | true =>
        exact (modDbPut_ip f b gt.ip _).imp_right fun h => .inl ⟨newGrey g now true, le_refl (-1), h⟩
      | false => exact (modDbPut_tuple f b gt _).imp_right .inr

/-- A grey message writes the entry of its address or, as another try, that of its tuple. -/
theorem processGrey_cases (g : Greylister) (f : DbFaults) (now : Int) (gt : GreyTuple)
    (sync : Bool) (dstIp : CStr) (b : Bdb) :
    processGrey g f now gt sync dstIp b = b ∨
      (∃ gd, -1 ≤ gd.pcount ∧ processGrey g f now gt sync dstIp b = b.putEntry (.ip gt.ip) gd) ∨
      processGrey g f now gt sync dstIp b =
        b.putEntry (.tuple gt) (touchGrey g now false (b.entry (.tuple gt))) := by
  have hbody : ∀ (spamtrap : Bool) (verdict : Int) (b' : Bdb),
      (if verdict = 0 ∧ g.whitelistOnPass then (modDbPut f b (.ip gt.ip) (spfPassed g now)).getD b
        else recordGrey g f now gt sync dstIp (spamtrap || decide (verdict = 2)) b) = b' →
      b' = b ∨ (∃ gd, -1 ≤ gd.pcount ∧ b' = b.putEntry (.ip gt.ip) gd) ∨
        b' = b.putEntry (.tuple gt) (touchGrey g now false (b.entry (.tuple gt))) := by
    rintro spamtrap verdict b' rfl
    split
    · exact (modDbPut_ip f b gt.ip _).imp_right fun h => .inl ⟨spfPassed g now, by simp [spfPassed], h⟩
    · exact recordGrey_cases g f now gt sync dstIp _ b
  unfold processGrey
  cases trapCheck g f b gt.to_ with
  | err => exact .inl rfl
  | spamtrap => exact hbody true _ _ rfl
  | noTrap => exact hbody false _ _ rfl

/-- A TRAP or WHITE message writes or deletes the entry of its address. -/
theorem processNonGrey_cases (f : DbFaults) (now : Int) (spamtrap : Bool) (ip expires : CStr)
    (delete : Bool) (b : Bdb) :
    processNonGrey f now spamtrap ip expires delete b = b ∨
      processNonGrey f now spamtrap ip expires delete b = b.dropEntry (.ip ip) ∨
      ∃ gd, (∀ gd', b.entry (.ip ip) = some gd' → -1 ≤ gd'.pcount → -1 ≤ gd.pcount) ∧
        (b.entry (.ip ip) = none → -1 ≤ gd.pcount) ∧
        processNonGrey f now spamtrap ip expires delete b = b.putEntry (.ip ip) gd := by
  have hdel : (modDbDel f b (.ip ip)).getD b = b ∨
      (modDbDel f b (.ip ip)).getD b = b.dropEntry (.ip ip) := by
    unfold modDbDel
    split
    · exact .inl rfl
    · exact .inr rfl
  have hlook := modDbGet_cases f b (rfl : b.file (.ip ip) = b.db)
  unfold processNonGrey
  cases delete with
  | true =>
    rcases hlook with he | ⟨gd, he, -⟩ | ⟨he, -⟩ <;> rw [he]
    · exact .inl (by split <;> rfl)
    · split
      · exact .inl rfl
      · exact hdel.imp_right .inl
    · exact .inl (by split <;> rfl)
  | false =>
    split
    · exact .inl rfl
    · rcases hlook with he | ⟨gd, he, hent⟩ | ⟨he, hent⟩
      · rw [he]
        exact .inl rfl
      · rw [he]
        refine (modDbPut_ip f b ip _).imp_right fun h => .inr ⟨seenNonGrey spamtrap gd, ?_, ?_, h⟩
        · intro gd' he' hp
          rw [hent] at he'; cases he'
          cases spamtrap
          · show -1 ≤ gd.pcount + 1; omega
          · exact le_refl (-1)
        · rw [hent]
          simp
      · rw [he]
        refine (modDbPut_ip f b ip _).imp_right fun h =>
          .inr ⟨newNonGrey spamtrap now ((parseExpires expires).getD 0), ?_, ?_, h⟩
        · rw [hent]
          simp
        · intro _
          cases spamtrap
          · exact (by decide : (-1 : Int) ≤ 0)
          · exact le_refl (-1)

/-- The message of a tick is about the address. -/
def GreyTick.Concerns (t : GreyTick) (ip : CStr) : Prop :=
  match t.event with
  | .grey gt _ _ => gt.ip = ip
  | .nonGrey _ ip' _ _ => ip' = ip
  | .scan _ => False

/-- A tick is a scan, or writes the entries of the address its message is about. -/
inductive TickCases (g : Greylister) (t : GreyTick) (b : Bdb) : Bdb → Prop
  | same : TickCases g t b b
  | drop {ip} : t.Concerns ip → TickCases g t b (b.dropEntry (.ip ip))
  | put {ip gd} : t.Concerns ip →
      (∀ gd', b.entry (.ip ip) = some gd' → -1 ≤ gd'.pcount → -1 ≤ gd.pcount) →
      (b.entry (.ip ip) = none → -1 ≤ gd.pcount) → TickCases g t b (b.putEntry (.ip ip) gd)
  | touch {gt} : t.Concerns gt.ip → TickCases g t b
      (b.putEntry (.tuple gt) (touchGrey g t.now false (b.entry (.tuple gt))))
  | scanned {order st} : t.event = .scan order →
      modScanDb g.checkAddr t.faults t.now g.whiteExp b order = some st → TickCases g t b st.db

theorem tickCases (g : Greylister) (t : GreyTick) (b : Bdb) : TickCases g t b (greyStep g t b) := by
  obtain ⟨now, f, event⟩ := t
  cases event with
  | grey gt sync dstIp =>
    show TickCases g _ b (processGrey g f now gt sync dstIp b)
    rcases processGrey_cases g f now gt sync dstIp b with h | ⟨gd, hgd, h⟩ | h <;> rw [h]
    · exact .same
    · exact @TickCases.put g ⟨now, f, .grey gt sync dstIp⟩ b gt.ip gd rfl (fun _ _ _ => hgd) fun _ => hgd
    · exact @TickCases.touch g ⟨now, f, .grey gt sync dstIp⟩ b gt rfl
  | nonGrey spamtrap ip expires delete =>
    show TickCases g _ b (processNonGrey f now spamtrap ip expires delete b)
    rcases processNonGrey_cases f now spamtrap ip expires delete b with h | h | ⟨gd, h₁, h₂, h⟩ <;>
      rw [h]
    · exact .same
    · exact .drop rfl
    · exact .put rfl h₁ h₂
  | scan order =>
    show TickCases g _ b (greyScanDb g f now order b)
    unfold greyScanDb
    cases hscan : modScanDb g.checkAddr f now g.whiteExp b order with
    | none => exact .same
    | some st => exact .scanned rfl hscan

end Messages

/-! ## What is stored in a reachable database -/

/-- A tuple has passed by now, or passes only when it expires; an entry of an address is a
trap or counts how often it was passed. -/
structure Bdb.Sound (b : Bdb) (now : Int) : Prop where
  tuple : ∀ gt gd, b.entry (.tuple gt) = some gd → gd.pass ≤ now ∨ gd.expire ≤ gd.pass
  entry : ∀ ip gd, b.entry (.ip ip) = some gd → -1 ≤ gd.pcount

theorem ScanStep.sound {checkAddr : CStr → Option SaFamily} {now whiteExp n : Int}
    {st st' : DbScan} {key : DbKey} (h : ScanStep checkAddr now whiteExp st key st')
    (hs : st.db.Sound n) : st'.db.Sound n := by
  constructor
  · intro gt gd he
    rcases h.fewerTuples gt.ip gt rfl with heq | hnone
    · exact hs.tuple gt gd (heq ▸ he)
    · rw [hnone] at he; cases he
  · intro ip gd he
    cases h.address ip with
    | keep hent => exact hs.entry ip gd (hent ▸ he)
    | expired _ _ hnone =>
      rw [hnone] at he; cases he
    | trap h0 _ _ hent => exact hs.entry ip gd (by rw [← he, hent, h0])
    | white h0 _ hent => exact hs.entry ip gd (by rw [← he, hent, h0])
    | promote _ _ hp _ hent =>
      rw [hent] at he; cases he
      exact le_trans (by decide) hp.1

theorem tick_sound {g : Greylister} {t : GreyTick} {b : Bdb} {n : Int} (hb : b.Sound n)
    (ht : t.now ≤ n) : (greyStep g t b).Sound n := by
  have hcases := tickCases g t b
  generalize greyStep g t b = b' at hcases
  cases hcases with
  | same => exact hb
  | @drop ip _ =>
    refine ⟨fun gt gd he => hb.tuple gt gd (by simpa [entry_dropEntry] using he), ?_⟩
    intro ip' gd he
    rw [entry_dropEntry] at he
    split at he
    · cases he
    · exact hb.entry ip' gd he
  | @put ip gd _ h₁ h₂ =>
    refine ⟨fun gt gd he => hb.tuple gt gd (by simpa [entry_putEntry] using he), ?_⟩
    intro ip' gd' he
    rw [entry_putEntry] at he
    split at he
    · cases he
      cases hent : b.entry (.ip ip) with
      | none => exact h₂ hent
      | some old => exact h₁ old hent (hb.entry ip old hent)
    · exact hb.entry ip' gd' he
  | @touch gt _ =>
    refine ⟨?_, fun ip gd he => hb.entry ip gd (by simpa [entry_putEntry] using he)⟩
    intro gt' gd' he
    rw [entry_putEntry] at he
    split at he
    · cases he
      cases hent : b.entry (.tuple gt) with
      | none => exact .inr le_rfl
      | some old =>
        show (if _ then _ else _) ≤ n ∨ old.expire ≤ (if _ then _ else _)
        split
        · exact .inl ht
        · exact hb.tuple gt old hent
    · exact hb.tuple gt' gd' he
  | scanned _ hscan =>
    exact @scanKeys_induct _ _ _ _ _ _ (fun st => st.db.Sound n) _
      (fun _ _ _ _ hstep => hstep.sound) hscan hb

theorem GreyRun.sound {g : Greylister} {b₀ b : Bdb} {ts : List GreyTick} {n : Int}
    (h : GreyRun g b₀ ts b) (hb₀ : b₀.Sound n) (hts : ∀ t ∈ ts, t.now ≤ n) : b.Sound n := by
  induction h with
  | start => exact hb₀
  | tick _ _ ih =>
    exact tick_sound (ih fun t ht => hts t (List.mem_append_left _ ht))
      (hts _ (List.mem_append_right _ List.mem_cons_self))

/-! ## Lifetimes -/

/-- The messages that trap the address until `e`, handled at time `t`. -/
inductive TrapsUntil (g : Greylister) (t : Int) (b : Bdb) (ip : CStr) : GreyEvent → Int → Prop
  | grey {gt sync dstIp} : gt.ip = ip → trapCheck g .none b gt.to_ = .spamtrap →
      TrapsUntil g t b ip (.grey gt sync dstIp) (t + g.trapExp)
  | trap {expires e} : parseExpires expires = some e →
      TrapsUntil g t b ip (.nonGrey true ip expires false) e

/-- The messages that whitelist the address until `e`. -/
inductive WhitensUntil (ip : CStr) : GreyEvent → Int → Prop
  | white {expires e} : parseExpires expires = some e →
      WhitensUntil ip (.nonGrey false ip expires false) e

/-- From `t` on, with no further message about the address, every scan before `e` lists it. -/
def KeptUntil (g : Greylister) (b : Bdb) (ip : CStr) (t e : Int) (listed : DbScan → Prop) : Prop :=
  ∀ later b' s f st, GreyRun g b later b' → (∀ u ∈ later, ¬ u.Concerns ip) →
    (t :: (later.map GreyTick.now ++ [s])).Pairwise (· ≤ ·) → s < e → ∀ order : CursorOrder b',
    modScanDb g.checkAddr f s g.whiteExp b' order.keys = some st → listed st

section Lifetimes

variable {g : Greylister} {t e : Int} {b b' : Bdb} {ip : CStr} {ev : GreyEvent}

/-- A tick that is not about the address leaves its entries alone or is a scan. -/
theorem tick_about {u : GreyTick} (hu : ¬ u.Concerns ip) (hfits : u.Fits b) :
    (∀ key : DbKey, key.About ip → (greyStep g u b).entry key = b.entry key) ∨
      ∃ (order : CursorOrder b) (st : DbScan),
        modScanDb g.checkAddr u.faults u.now g.whiteExp b order.keys = some st ∧
          greyStep g u b = st.db := by
  have hcases := tickCases g u b
  generalize greyStep g u b = b' at hcases
  cases hcases with
  | same => exact .inl fun _ _ => rfl
  | @drop ip' hc =>
    left
    rintro key (rfl | ⟨gt, rfl, rfl⟩)
    · rw [entry_dropEntry, if_neg]
      rintro h; cases h; exact hu hc
    · rw [entry_dropEntry, if_neg (by simp)]
  | @put ip' gd hc =>
    left
    rintro key (rfl | ⟨gt, rfl, rfl⟩)
    · rw [entry_putEntry, if_neg]
      rintro h; cases h; exact hu hc
    · rw [entry_putEntry, if_neg (by simp)]
  | @touch gt hc =>
    left
    rintro key (rfl | ⟨gt', rfl, rfl⟩)
    · rw [entry_putEntry, if_neg (by simp)]
    · rw [entry_putEntry, if_neg]
      rintro h; cases h; exact hu hc
  | @scanned order st hev hscan =>
    rw [GreyTick.Fits, hev] at hfits
    exact .inr ⟨⟨order, hfits.1, hfits.2⟩, st, hscan, rfl⟩

theorem modDbGet_none (b : Bdb) {key : DbKey} (hfile : b.file key = b.db) :
    modDbGet .none b key = match b.entry key with
      | some gd => .found gd
      | none => .notFound := by
  unfold modDbGet Bdb.entry
  rw [hfile]
  rfl

/-- A grey message to a spamtrap writes the entry of the address. -/
theorem processGrey_trap {gt : GreyTuple} (hc : trapCheck g .none b gt.to_ = .spamtrap) (t : Int)
    (sync : Bool) (dstIp : CStr) : processGrey g .none t gt sync dstIp b =
      b.putEntry (.ip gt.ip) (touchGrey g t true (b.entry (.ip gt.ip))) := by
  have hverdict : spfVerdict g gt sync true = 1 := by
    unfold spfVerdict
    cases g.spfLookup <;> simp
  have hrecord : recordGrey g .none t gt sync dstIp true b =
      b.putEntry (.ip gt.ip) (touchGrey g t true (b.entry (.ip gt.ip))) := by
    unfold recordGrey
    rw [show greyKey true gt = .ip gt.ip from rfl, modDbGet_none b rfl]
    cases b.entry (.ip gt.ip) <;> rfl
  unfold processGrey
  simp [hc, hverdict, hrecord]

theorem processNonGrey_some {expires : CStr} (he : parseExpires expires = some e) (t : Int)
    (spamtrap : Bool) (ip : CStr) : processNonGrey .none t spamtrap ip expires false b =
      b.putEntry (.ip ip) (match b.entry (.ip ip) with
        | some gd => seenNonGrey spamtrap gd
        | none => newNonGrey spamtrap t e) := by
  unfold processNonGrey
  rw [he, modDbGet_none b rfl]
  cases b.entry (.ip ip) <;> rfl

theorem TrapsUntil.entry (h : TrapsUntil g t b ip ev e) :
    ∃ gd, (greyStep g ⟨t, .none, ev⟩ b).entry (.ip ip) = some gd ∧ gd.pcount = -1 ∧
      gd.expire = ((b.entry (.ip ip)).map GreyData.expire).getD e := by
  cases h with
  | @grey gt sync dstIp hip hc =>
    subst hip
    show ∃ gd, (processGrey g .none t gt sync dstIp b).entry _ = _ ∧ _
    rw [processGrey_trap hc, entry_putEntry, if_pos rfl]
    refine ⟨_, rfl, ?_⟩
    cases b.entry (.ip gt.ip) <;> exact ⟨rfl, rfl⟩
  | @trap expires e hexp =>
    show ∃ gd, (processNonGrey .none t true ip expires false b).entry _ = _ ∧ _
    rw [processNonGrey_some hexp, entry_putEntry, if_pos rfl]
    refine ⟨_, rfl, ?_⟩
    cases b.entry (.ip ip) <;> exact ⟨rfl, rfl⟩

/-- A live trap lists its address in every scan until it expires. -/
theorem trap_kept {gd : GreyData} (he : b.entry (.ip ip) = some gd) (hp : gd.pcount = -1)
    (hexp : e ≤ gd.expire) : KeptUntil g b ip t e (fun st => ip ∈ st.traplist) := by
  intro later b' s f st hrun hother hclock hs order hscan
  have hbefore : ∀ u ∈ later, u.now ≤ s := by
    intro u hu
    have hpair := (List.pairwise_append.mp (List.pairwise_cons.mp hclock).2).2.2
    exact hpair u.now (List.mem_map_of_mem hu) s List.mem_cons_self
  have hkept : b'.entry (.ip ip) = some gd := by
    clear hscan order hclock
    induction hrun with
    | start => exact he
    | @tick ts b₁ u _ hfits ih =>
      have hu := hbefore u (by simp)
      have hprev := ih (fun v hv => hother v (List.mem_append_left _ hv))
        fun v hv => hbefore v (List.mem_append_left _ hv)
      rcases @tick_about g b₁ ip u (hother u (by simp)) hfits with hsame | ⟨_, st, hst, hdb⟩
      · rw [hsame _ (.inl rfl), hprev]
      · rw [hdb]
        exact (scanKeys_live_trap hst hprev hp (by omega)).1
  have hmem : .ip ip ∈ order.keys :=
    order.covers _ (mem_iff_entry.mpr (by rw [hkept]; exact Option.some_ne_none gd))
  exact (scanKeys_live_trap hscan hkept hp (by omega)).2.2 (.inl hmem)

/-- The address is listed by the scan at `s`, when nothing has happened since the message. -/
theorem KeptUntil.first {listed : DbScan → Prop} (h : KeptUntil g b ip t e listed) {s : Int}
    (ht : t ≤ s) (hs : s < e) :
    ∃ st, modScanDb g.checkAddr .none s g.whiteExp b b.cursor.keys = some st ∧ listed st := by
  obtain ⟨st, hst⟩ := @scanKeys_total g.checkAddr s g.whiteExp ⟨b, [], [], []⟩ b.cursor.keys
  exact ⟨st, hst, h [] b s .none st .start (by simp) (by simpa using ht) hs b.cursor hst⟩

theorem trap_kept_iff (h : TrapsUntil g t b ip ev e) (hlive : t < e) :
    KeptUntil g (greyStep g ⟨t, .none, ev⟩ b) ip t e (fun st => ip ∈ st.traplist) ↔
      ∀ gd, b.entry (.ip ip) = some gd → e ≤ gd.expire := by
  obtain ⟨gd, he, hp, hexp⟩ := h.entry
  constructor
  · intro hkept old hold
    rw [hold] at hexp
    by_contra hlt
    obtain ⟨st, hst, hlisted⟩ := @KeptUntil.first _ _ _ _ _ _ hkept (max t old.expire)
      (le_max_left _ _) (by omega)
    obtain ⟨gd', he', -, hx⟩ :=
      (scanKeys_justified hst (by simp [DbScan.Lists, DbScan.whitelistOf]) (by simp)).2 hlisted
    rw [he] at he'; cases he'
    rw [hexp] at hx
    exact absurd hx (by simp)
  · intro hcond
    apply trap_kept he hp
    rw [hexp]
    cases hold : b.entry (.ip ip) with
    | none => exact le_rfl
    | some old => exact hcond old hold

/-- In a sound database a tuple that passes at `s` has passed since `t`. -/
theorem Bdb.Sound.passing_since (hb : b.Sound t) {s n : Int} (hn : t ≤ n) (hs : n ≤ s)
    (h : b.PassingTuple ip s) : b.PassingTuple ip n := by
  obtain ⟨gt, gd, hip, he, hp, hpass, hexp⟩ := h
  have hsound := hb.tuple gt gd he
  exact ⟨gt, gd, hip, he, hp, by omega, by omega⟩

/-- What a whitelisted address keeps until `e`. -/
structure StaysWhite (b : Bdb) (ip : CStr) (n e : Int) : Prop where
  notTrapped : ¬ b.Trapped ip
  lists : ∀ s, n ≤ s → s < e → b.ListsAt ip s

theorem Bdb.Sound.mono_fewer (hb : b.Sound t) (hfew : b.FewerTuples b' ip) {s n : Int}
    (hn : t ≤ n) (hs : n ≤ s) (h : b'.PassingTuple ip s) : b'.PassingTuple ip n := by
  obtain ⟨gt, gd, hip, he, hp, hpass, hexp⟩ := h
  have he₀ : b.entry (.tuple gt) = some gd := by
    rcases hfew gt hip with heq | hnone
    · rw [← heq, he]
    · rw [hnone] at he; cases he
  have hsound := hb.tuple gt gd he₀
  exact ⟨gt, gd, hip, he, hp, by omega, by omega⟩

/-- A scan before `e` leaves an address white if the entries it makes last until `e`. -/
theorem StaysWhite.scan {f : DbFaults} {n s : Int} {order : CursorOrder b'} {st : DbScan}
    (hb : b.Sound t) (hfew : b.FewerTuples b' ip) (hrenew : b.PassingTuple ip t → e ≤ t + g.whiteExp)
    (hte : t < e) (htn : t ≤ n) (hns : n ≤ s) (hse : s < e) (h : StaysWhite b' ip n e)
    (hscan : modScanDb g.checkAddr f s g.whiteExp b' order.keys = some st) :
    StaysWhite st.db ip s e := by
  have hnt : ¬ st.db.Trapped ip :=
    @scanKeys_induct _ _ _ _ _ _ (fun st => ¬ st.db.Trapped ip) _
      (fun _ _ _ _ hstep => (hstep.address ip).not_trapped) hscan h.notTrapped
  refine ⟨hnt, ?_⟩
  intro s' hs' he'
  by_cases hp : b'.PassingTuple ip s
  · have hw : e ≤ t + g.whiteExp :=
      hrenew (hb.passing_since (le_refl t) (by omega) (hfew.passing hp))
    obtain ⟨gt, gd, rfl, he, hpass⟩ := hp
    have hmem : .tuple gt ∈ order.keys :=
      order.covers _ (mem_iff_entry.mpr (by rw [he]; exact Option.some_ne_none gd))
    rcases (scanKeys_passing_tuple hscan hmem he hpass h.notTrapped).2.1 with
      ⟨gd', hgd', h0, h1, h2⟩ | ⟨hneg, -⟩
    · exact .inl ⟨gd', hgd', h0, by omega, by omega⟩
    · omega
  · rcases h.lists s hns hse with ⟨gd, he, hpass⟩ | htup
    · have hkept := scanKeys_quiet hscan he hpass hp
      rcases h.lists s' (by omega) he' with ⟨gd', hgd', hpass'⟩ | htup
      · rw [he] at hgd'; cases hgd'
        exact .inl ⟨gd, hkept, hpass'⟩
      · exact absurd (hb.mono_fewer hfew (by omega) hs' htup) hp
    · exact absurd htup hp

/-- An address that stays white is listed by the scan. -/
theorem StaysWhite.listed {f : DbFaults} {s : Int} {order : CursorOrder b} {st : DbScan}
    (h : StaysWhite b ip s e) (hse : s < e)
    (hscan : modScanDb g.checkAddr f s g.whiteExp b order.keys = some st) :
    st.Lists g.checkAddr ip := by
  have hmem : ∀ {key gd}, b.entry key = some gd → key ∈ order.keys := by
    intro key gd he
    exact order.covers _ (mem_iff_entry.mpr (by rw [he]; exact Option.some_ne_none gd))
  rcases h.lists s (le_refl s) hse with ⟨gd, he, hp⟩ | ⟨gt, gd, rfl, he, hp⟩
  · exact scanKeys_passing_ip hscan (hmem he) he hp h.notTrapped
  · exact (scanKeys_passing_tuple hscan (hmem he) he hp h.notTrapped).1

theorem StaysWhite.mono {n s : Int} (h : StaysWhite b ip n e) (hns : n ≤ s) :
    StaysWhite b ip s e := ⟨h.notTrapped, fun s' hs' => h.lists s' (le_trans hns hs')⟩

theorem ListsAt.congr {s : Int} (h : ∀ key : DbKey, key.About ip → b'.entry key = b.entry key)
    (hl : b.ListsAt ip s) : b'.ListsAt ip s := by
  rcases hl with ⟨gd, he, hp⟩ | ⟨gt, gd, hip, he, hp⟩
  · exact .inl ⟨gd, by rw [h _ (.inl rfl), he], hp⟩
  · exact .inr ⟨gt, gd, hip, by rw [h _ (.inr ⟨gt, hip, rfl⟩), he], hp⟩

theorem white_kept (hb : b.Sound t) (hrenew : b.PassingTuple ip t → e ≤ t + g.whiteExp)
    (hte : t < e) (h : StaysWhite b ip t e) :
    KeptUntil g b ip t e (fun st => st.Lists g.checkAddr ip) := by
  intro later b' s f st hrun hother hclock hs order hscan
  have hinv : b.FewerTuples b' ip ∧ StaysWhite b' ip s e := by
    clear hscan order
    induction hrun generalizing s with
    | start => exact ⟨.refl b ip, h.mono (by simpa using hclock)⟩
    | @tick ts b₁ u _ hfits ih =>
      have hclock' : (t :: (ts.map GreyTick.now ++ [u.now, s])).Pairwise (· ≤ ·) := by
        simpa using hclock
      have hbefore : (t :: (ts.map GreyTick.now ++ [u.now])).Pairwise (· ≤ ·) :=
        List.Pairwise.sublist
          (List.Sublist.cons_cons t (List.Sublist.append_left (by simp) _)) hclock'
      have hus : u.now ≤ s := by
        have htail := (List.pairwise_append.mp (List.pairwise_cons.mp hclock').2).2.1
        simpa using htail
      have htu : t ≤ u.now := (List.pairwise_cons.mp hbefore).1 u.now (by simp)
      obtain ⟨hfew, hwhite⟩ := ih u.now (fun v hv => hother v (List.mem_append_left _ hv)) hbefore
        (by omega)
      rcases @tick_about g b₁ ip u (hother u (by simp)) hfits with hsame | ⟨order, st, hst, hdb⟩
      · refine ⟨fun gt hgt => ?_, ?_, ?_⟩
        · rw [hsame _ (.inr ⟨gt, hgt, rfl⟩)]
          exact hfew gt hgt
        · unfold Bdb.Trapped
          rw [hsame _ (.inl rfl)]
          exact hwhite.notTrapped
        · intro s' hs' he'
          exact ListsAt.congr hsame (hwhite.lists s' (by omega) he')
      · rw [hdb]
        have hfew' : b₁.FewerTuples st.db ip :=
          @scanKeys_induct _ _ _ _ _ _ (fun st => b₁.FewerTuples st.db ip) _
            (fun _ _ _ _ hstep hst => hst.trans (hstep.fewerTuples ip)) hst (.refl b₁ ip)
        exact ⟨hfew.trans hfew', (StaysWhite.scan hb hfew hrenew hte htu (le_refl _) (by omega)
          hwhite hst).mono hus⟩
  exact hinv.2.listed hs hscan

/-- What must be stored for a WHITE message handled at `t` to whitelist the address until
`e`: no entry of the address, or one that is passing all the time, unless tuples of the
address are; and where a tuple is passing at `t`, the entry made for it lasts until `e`. -/
structure CanStayWhite (g : Greylister) (b : Bdb) (ip : CStr) (t e : Int) : Prop where
  lists : ∀ s, t ≤ s → s < e → b.entry (.ip ip) = none ∨ b.ListsAt ip s
  renew : b.PassingTuple ip t → e ≤ t + g.whiteExp

/-- After a scan at `t` that promoted a tuple of the address, nothing lists the address once
the entry made for it has expired. -/
theorem promoted_gone {st : DbScan} {s : Int} (hb : b.Sound t) (hnt : ¬ b.Trapped ip)
    (hp : b.PassingTuple ip t) (hts : t ≤ s) (hs : t + g.whiteExp ≤ s)
    (hscan : modScanDb g.checkAddr .none t g.whiteExp b b.cursor.keys = some st) :
    ¬ st.db.ListsAt ip s := by
  have hmem : ∀ {key gd}, b.entry key = some gd → key ∈ b.cursor.keys := by
    intro key gd he
    exact b.cursor.covers _ (mem_iff_entry.mpr (by rw [he]; exact Option.some_ne_none gd))
  rintro (⟨gd, he, -, -, hx⟩ | ⟨gt, gd, rfl, he, hpass⟩)
  · obtain ⟨gt, gd', rfl, he', hpass'⟩ := hp
    rcases (scanKeys_passing_tuple hscan (hmem he') he' hpass' hnt).2.1 with
      ⟨gd'', he'', -, -, hexp⟩ | ⟨-, hnone⟩
    · rw [he] at he''; cases he''
      omega
    · rw [he] at hnone; cases hnone
  · have hfew : b.FewerTuples st.db gt.ip :=
      @scanKeys_induct _ _ _ _ _ _ (fun st => b.FewerTuples st.db gt.ip) _
        (fun _ _ _ _ hstep hst => hst.trans (hstep.fewerTuples gt.ip)) hscan (.refl b gt.ip)
    have he₀ : b.entry (.tuple gt) = some gd := by
      rcases hfew gt rfl with heq | hnone
      · rw [← heq, he]
      · rw [hnone] at he; cases he
    have hnow : gd.Passing t := by
      have hsound := hb.tuple gt gd he₀
      obtain ⟨h0, h1, h2⟩ := hpass
      exact ⟨h0, by omega, by omega⟩
    have hgone := (scanKeys_passing_tuple hscan (hmem he₀) he₀ hnow hnt).2.2
    rw [he] at hgone; cases hgone

theorem white_kept_iff (h : WhitensUntil ip ev e) (hb : b.Sound t) (hnt : ¬ b.Trapped ip)
    (hlive : t < e) :
    KeptUntil g (greyStep g ⟨t, .none, ev⟩ b) ip t e (fun st => st.Lists g.checkAddr ip) ↔
      CanStayWhite g b ip t e := by
  have hb' : (greyStep g ⟨t, .none, ev⟩ b).Sound t := tick_sound hb (le_refl t)
  obtain ⟨hexp⟩ := h
  next expires =>
  have hstep : greyStep g ⟨t, .none, .nonGrey false ip expires false⟩ b = _ :=
    processNonGrey_some hexp t false ip
  generalize greyStep g ⟨t, .none, .nonGrey false ip expires false⟩ b = b' at hstep hb'
  have htup : ∀ gt, b'.entry (.tuple gt) = b.entry (.tuple gt) := by
    intro gt
    rw [hstep, entry_putEntry, if_neg (by simp)]
  have hpassing : ∀ s, b'.PassingTuple ip s ↔ b.PassingTuple ip s := by
    intro s
    unfold Bdb.PassingTuple
    simp only [htup]
  have hent : b'.entry (.ip ip) = some (match b.entry (.ip ip) with
      | some gd => seenNonGrey false gd
      | none => newNonGrey false t e) := by
    rw [hstep, entry_putEntry, if_pos rfl]
  have hlists : ∀ s, t ≤ s → s < e →
      (b'.ListsAt ip s ↔ b.entry (.ip ip) = none ∨ b.ListsAt ip s) := by
    intro s hts hse
    unfold Bdb.ListsAt
    rw [hpassing, hent]
    cases hold : b.entry (.ip ip) with
    | none =>
      have hnew : (newNonGrey false t e).Passing s := ⟨le_refl 0, hts, hse⟩
      simpa using .inl hnew
    | some gd =>
      have hpos : 0 ≤ gd.pcount := by
        have hge := hb.entry ip gd hold
        have hne : gd.pcount ≠ -1 := fun hp => hnt ⟨gd, hold, hp⟩
        omega
      have hsame : (seenNonGrey false gd).Passing s ↔ gd.Passing s := by
        show 0 ≤ gd.pcount + 1 ∧ _ ↔ 0 ≤ gd.pcount ∧ _
        exact and_congr_left' ⟨fun _ => hpos, fun _ => by omega⟩
      simp [hsame]
  have hnt' : ¬ b'.Trapped ip := by
    rintro ⟨gd', he', hp⟩
    rw [hent] at he'; cases he'
    cases hold : b.entry (.ip ip) with
    | none =>
      rw [hold] at hp
      have hp' : (0 : Int) = -1 := hp
      omega
    | some gd =>
      rw [hold] at hp
      have hge := hb.entry ip gd hold
      have hne : gd.pcount ≠ -1 := fun hp => hnt ⟨gd, hold, hp⟩
      have hp' : gd.pcount + 1 = -1 := hp
      omega
  constructor
  · intro hkept
    constructor
    · intro s hts hse
      obtain ⟨st, hst, hlisted⟩ := hkept.first hts hse
      exact (hlists s hts hse).mp ((scanKeys_justified hst
        (by simp [DbScan.Lists, DbScan.whitelistOf]) (by simp)).1 hlisted)
    · intro hp
      by_contra hlt
      obtain ⟨st₁, hst₁, -⟩ := hkept.first (le_refl t) hlive
      have hs : t ≤ max t (t + g.whiteExp) := le_max_left _ _
      have hrun : GreyRun g b' [⟨t, .none, .scan b'.cursor.keys⟩] st₁.db := by
        have hone := @GreyRun.tick g b' [] b' ⟨t, .none, .scan b'.cursor.keys⟩ .start
          ⟨b'.cursor.nodup, b'.cursor.covers⟩
        have hdb : greyStep g ⟨t, .none, .scan b'.cursor.keys⟩ b' = st₁.db := by
          show ((modScanDb _ _ _ _ _ _).map DbScan.db).getD _ = _
          rw [hst₁]
          rfl
        rwa [hdb] at hone
      obtain ⟨st₂, hst₂⟩ := @scanKeys_total g.checkAddr (max t (t + g.whiteExp)) g.whiteExp
        ⟨st₁.db, [], [], []⟩ st₁.db.cursor.keys
      have hlisted := hkept _ _ _ _ _ hrun (by simp [GreyTick.Concerns]) (by simp)
        (by omega) st₁.db.cursor hst₂
      exact promoted_gone hb' hnt' ((hpassing t).mpr hp) hs (le_max_right _ _) hst₁
        ((scanKeys_justified hst₂ (by simp [DbScan.Lists, DbScan.whitelistOf]) (by simp)).1 hlisted)
  · intro hcond
    apply white_kept hb' (fun hp => hcond.renew ((hpassing t).mp hp)) hlive
    exact ⟨hnt', fun s hts hse => (hlists s hts hse).mpr (hcond.lists s hts hse)⟩

end Lifetimes

theorem Bdb.Sound.of_no_entries {b₀ : Bdb} (h : b₀.db = ∅) (n : Int) : b₀.Sound n := by
  have hnone : ∀ key, b₀.entry key = none := by
    intro key
    rw [Bdb.entry, h]
    rfl
  constructor
  · intro gt gd he
    rw [hnone] at he; cases he
  · intro ip gd he
    rw [hnone] at he; cases he

/-- A message that traps an address until `e` is honoured exactly when an entry the address
already has does not expire before `e`. A message that whitelists it is honoured exactly
when such an entry is passing all the time (or tuples of the address are), and where a
tuple is ready to pass, the entry made for it does not expire before `e`. -/
theorem lifetimes_honoured_iff (g : Greylister) (b₀ b : Bdb) (hempty : b₀.db = ∅)
    (ts : List GreyTick) (run : GreyRun g b₀ ts b) (t : Int) (clock : ∀ u ∈ ts, u.now ≤ t)
    (ip : CStr) (ev : GreyEvent) (e : Int) (hlive : t < e) :
    (TrapsUntil g t b ip ev e →
      (KeptUntil g (greyStep g ⟨t, .none, ev⟩ b) ip t e (fun st => ip ∈ st.traplist) ↔
        ∀ gd, b.entry (.ip ip) = some gd → e ≤ gd.expire)) ∧
    (WhitensUntil ip ev e → ¬ b.Trapped ip →
      (KeptUntil g (greyStep g ⟨t, .none, ev⟩ b) ip t e (fun st => st.Lists g.checkAddr ip) ↔
        CanStayWhite g b ip t e)) :=
  ⟨fun h => trap_kept_iff h hlive,
    fun h hnt => white_kept_iff h (run.sound (.of_no_entries hempty t) clock) hnt hlive⟩

/-! ## A white address that hits a spamtrap -/

/-- Only a spamtrap is stored. -/
def spamtrapBdb : Bdb := ⟨∅, AList.singleton (.mail "trap".toList) ⟨0, 0, 0, 0, -2⟩, ∅⟩

def spamtrapHit : GreyEvent := .grey ⟨"10.0.0.1".toList, [], [], "trap".toList⟩ true []

/-- With nothing stored for the address, it is on the traplist for a day. -/
theorem lifetimes_honoured_new_trap :
    KeptUntil defaultGreylister (greyStep defaultGreylister ⟨2000, .none, spamtrapHit⟩ spamtrapBdb)
      "10.0.0.1".toList 2000 88400 (fun st => "10.0.0.1".toList ∈ st.traplist) := by
  have htraps : TrapsUntil defaultGreylister 2000 spamtrapBdb "10.0.0.1".toList spamtrapHit
      (2000 + defaultGreylister.trapExp) := .grey rfl (by decide)
  have hiff := (lifetimes_honoured_iff defaultGreylister spamtrapBdb spamtrapBdb rfl [] .start 2000
    (by simp) "10.0.0.1".toList spamtrapHit 88400 (by decide)).1 htraps
  apply hiff.mpr
  intro gd he
  have hnone : spamtrapBdb.entry (.ip "10.0.0.1".toList) = none := by decide
  rw [hnone] at he; cases he

def whitened : GreyTick := ⟨1000, .none, .nonGrey false "10.0.0.1".toList "5000".toList false⟩

/-- Whitelisted until 5000, an address that hits a spamtrap at 2000 is trapped until 5000
and not for a day. -/
theorem trap_of_white_forgotten :
    ∃ b, GreyRun defaultGreylister spamtrapBdb [whitened] b ∧
      TrapsUntil defaultGreylister 2000 b "10.0.0.1".toList spamtrapHit 88400 ∧
      ¬ KeptUntil defaultGreylister (greyStep defaultGreylister ⟨2000, .none, spamtrapHit⟩ b)
        "10.0.0.1".toList 2000 88400 (fun st => "10.0.0.1".toList ∈ st.traplist) := by
  have htraps : TrapsUntil defaultGreylister 2000 (greyStep defaultGreylister whitened spamtrapBdb)
      "10.0.0.1".toList spamtrapHit (2000 + defaultGreylister.trapExp) := .grey rfl (by decide)
  refine ⟨greyStep defaultGreylister whitened spamtrapBdb,
    @GreyRun.tick _ _ [] _ whitened .start trivial, htraps, ?_⟩
  intro hkept
  have hcond := (trap_kept_iff htraps (by decide)).mp hkept
  have he : (greyStep defaultGreylister whitened spamtrapBdb).entry (.ip "10.0.0.1".toList) =
      some ⟨1000, 1000, 5000, 0, 0⟩ := by decide
  exact absurd (hcond _ he) (by decide)

end Greyd
