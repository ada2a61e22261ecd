import Greyd.GreyPipe
import Greyd.Provenance
import Greyd.SyncRoundTrip

/-!
# A cluster of hosts (sync.c, grey.c, main_greydb.c, main_greylogd.c)

Hosts that share a key tell each other about tries, traps and white addresses by datagrams
that may be lost, repeated, late or out of order. What a host has been told it does not tell
on, so everything that is listed anywhere goes back to a client or a tool of some host.
-/
namespace Greyd

open SerialRuns

/-- The datagram of a call of the sync engine. -/
def SyncSend.packet (hmac : HmacSha1) (engine : SyncEngine) : SyncSend → List Char
  | .update gt now => syncUpdate hmac engine gt now
  | .white ip now expire delete => syncWhite hmac engine ip now expire delete
  | .trapped ip now expire delete => syncTrapped hmac engine ip now expire delete

/-- A host, with the address its datagrams come from. -/
structure ClusterHost where
  greylister : Greylister
  engine : SyncEngine
  addr : Nat

/-- The databases of the hosts, and the datagrams that were ever sent. -/
structure Cluster (H : Type) where
  dbs : H → Bdb
  sent : List (H × SyncSend)

/-- A transaction of a program of the host, or one its greylister makes for a message of a
datagram. The counter is the one of the sender's engine when the datagram was sent. -/
inductive ClusterEvent (H : Type)
  | own (h : H) (t : DbTick)
  | told (h src : H) (send : SyncSend) (counter : Int) (m : SyncMessage) (now : Int)
      (faults : DbFaults) (event : GreyEvent)

def ClusterEvent.host {H : Type} : ClusterEvent H → H
  | .own h _ => h
  | .told h _ _ _ _ _ _ _ => h

def ClusterEvent.tick {H : Type} : ClusterEvent H → DbTick
  | .own _ t => t
  | .told _ _ _ _ _ now faults event => ⟨now, faults, .grey event⟩

/-- A transaction a host makes for its own clients and tools. The texts of a try have passed
the lexer of the grey pipe; messages that trap or whitelist come from other hosts only. -/
def DbTick.Own (t : DbTick) : Prop :=
  match t.event with
  | .grey (.grey gt sync _) => sync = true ∧
      ∀ s ∈ [gt.helo, gt.from_, gt.to_], s.length ≤ maxToken ∧ nul ∉ s
  | .grey (.nonGrey ..) => False
  | _ => True

section Cluster

variable {H : Type} [DecidableEq H] (net : H → ClusterHost) (hmac : HmacSha1)

/-- What may happen. A message whose texts the reader of the pipe cannot read ends that
reader, and is not followed further. -/
def ClusterEvent.Fits (e : ClusterEvent H) (c : Cluster H) : Prop :=
  e.tick.Fits (c.dbs e.host) ∧
    match e with
    | .own _ t => t.Own
    | .told h src send counter m _ _ event => (src, send) ∈ c.sent ∧
        Peers { (net src).engine with counter := counter } (net h).engine (net src).addr ∧
        m ∈ syncRecv hmac (net h).engine (net src).addr
          (send.packet hmac { (net src).engine with counter := counter }) ∧
        PipeItem.ReadAs (.sync m) event

def clusterStep (e : ClusterEvent H) (c : Cluster H) : Cluster H :=
  let next := dbTick (net e.host).greylister e.tick (c.dbs e.host)
  ⟨Function.update c.dbs e.host next.1, c.sent ++ next.2.map fun send => (e.host, send)⟩

end Cluster

/-! ## What a datagram says -/

/-- The address a host finds in a datagram for the address it was made for. -/
def wireAddr (ip : CStr) : CStr := addrText (inetAddr ip)

theorem inetAddr_lt (ip : CStr) : inetAddr ip < 2 ^ 32 := by
  unfold inetAddr
  cases hread : inetAton ip with
  | none => decide
  | some addr => exact inetAtonLoop_lt hread rfl (by decide)

theorem mem_addrText {addr : Nat} (h : addr < 2 ^ 32) {c : Char} (hc : c ∈ addrText addr) :
    c.isDigit = true ∨ c = '.' := by
  rw [addrText_eq h, dotted, octets] at hc
  simp only [List.map_cons, List.map_nil, List.intercalate, List.intersperse, List.flatten_cons,
    List.flatten_nil, List.mem_append, List.mem_singleton, List.not_mem_nil, or_false] at hc
  rcases hc with hd | hdot | hd | hdot | hd | hdot | hd
  · exact .inl (isDigit_of_mem_decimal hd)
  · exact .inr hdot
  · exact .inl (isDigit_of_mem_decimal hd)
  · exact .inr hdot
  · exact .inl (isDigit_of_mem_decimal hd)
  · exact .inr hdot
  · exact .inl (isDigit_of_mem_decimal hd)

/-- The address of a datagram is read as it was written. -/
theorem reads_wireAddr {ip u : CStr} (h : Reads (wireAddr ip) u) : cstr u = wireAddr ip := by
  have hclean : ∀ c ∈ wireAddr ip, c ≠ '"' ∧ c ≠ '\\' ∧ c ≠ nul := by
    intro c hc
    rcases mem_addrText (inetAddr_lt ip) hc with hd | rfl
    · refine ⟨?_, ?_, ?_⟩ <;> rintro rfl <;> exact absurd hd (by decide)
    · decide
  have hself : unescape false (wireAddr ip) = some (wireAddr ip) :=
    unescape_eq_self (fun hq => (hclean _ hq).1 rfl) fun hb => (hclean _ hb).2.1 rfl
  have hu : u = wireAddr ip := Option.some.inj (h.unescaped.symm.trans hself)
  rw [hu]
  exact cstr_eq_self fun hn => (hclean _ hn).2.2 rfl

/-- What the reader of another host makes of a tuple it is told of. -/
def HeardAs (gt gt' : GreyTuple) : Prop :=
  ∃ u, SyncGreyReads (wireAddr gt.ip) gt.helo gt.from_ gt.to_ u ∧
    gt' = ⟨cstr u.ip, cstr u.helo, cstr u.from_, cstr u.to_⟩

theorem HeardAs.ip {gt gt' : GreyTuple} (h : HeardAs gt gt') : gt'.ip = wireAddr gt.ip := by
  obtain ⟨u, hreads, rfl⟩ := h
  exact reads_wireAddr hreads.ip

/-- The tuple of a try is short and without NULs, and fits a datagram. -/
def SyncSend.Fits : SyncSend → Prop
  | .update gt _ => ∀ s ∈ [gt.helo, gt.from_, gt.to_], s.length ≤ maxToken ∧ nul ∉ s
  | _ => True

section Told

variable {hmac : HmacSha1} {engine peer : SyncEngine} {src : Nat}

end Told

/-! ## What is sent -/

section Sends

variable {g : Greylister} {b : Bdb} {t : DbTick} {send : SyncSend}

/-- Why a message is sent: the tuple was tried, or the address was trapped, whitelisted or
deleted. -/
inductive SendCause (g : Greylister) (b : Bdb) (t : DbTick) : SyncSend → Prop
  | tried {gt now} : t.Tries gt → SendCause g b t (.update gt now)
  | trapped {ip now expire} : Traps g b ip t → SendCause g b t (.trapped ip now expire false)
  | white {ip now expire} : Whitens g b ip t → SendCause g b t (.white ip now expire false)
  | untrapped {ip now expire} : SendCause g b t (.trapped ip now expire true)
  | unwhite {ip now expire} : SendCause g b t (.white ip now expire true)

theorem mem_recordSends {now : Int} {gt : GreyTuple} {sync spamtrap : Bool}
    (h : send ∈ recordSends g now gt sync spamtrap) :
    spamtrap = true ∧ (∃ expire, send = .trapped gt.ip now expire false) ∨
      spamtrap = false ∧ send = .update gt now := by
  unfold recordSends at h
  cases sync <;> cases spamtrap <;> simp at h
  · exact .inr ⟨rfl, h⟩
  · exact .inl ⟨rfl, _, h⟩

theorem recordGreySends_cause {now : Int} {f : DbFaults} {gt : GreyTuple} {sync spamtrap : Bool}
    {dstIp : CStr} (htrap : spamtrap = true → Traps g b gt.ip ⟨now, f, .grey (.grey gt sync dstIp)⟩)
    (hc : spamtrap = false → trapCheck g f b gt.to_ = .noTrap)
    (h : send ∈ recordGreySends g f now gt sync dstIp spamtrap b) :
    SendCause g b ⟨now, f, .grey (.grey gt sync dstIp)⟩ send := by
  have htries : DbTick.Tries ⟨now, f, .grey (.grey gt sync dstIp)⟩ gt := ⟨sync, dstIp, rfl⟩
  have hsends : ∀ {spamtrap'}, (spamtrap' = true →
      Traps g b gt.ip ⟨now, f, .grey (.grey gt sync dstIp)⟩) →
      send ∈ recordSends g now gt sync spamtrap' →
      SendCause g b ⟨now, f, .grey (.grey gt sync dstIp)⟩ send := by
    intro spamtrap' htrap' hsend
    rcases mem_recordSends hsend with ⟨hon, expire, rfl⟩ | ⟨-, rfl⟩
    · exact .trapped (htrap' hon)
    · exact .tried htries
  unfold recordGreySends at h
  cases hget : modDbGet f b (greyKey spamtrap gt) with
  | err =>
    rw [hget] at h
    simp at h
  | found gd =>
    rw [hget] at h
    simp only at h
    split at h
    · exact hsends htrap h
    · simp at h
  | notFound =>
    rw [hget] at h
    simp only at h
    split at h
    · refine hsends (fun hon => ?_) h
      cases spamtrap with
      | true => exact htrap rfl
      | false =>
        -- The tuple has no entry, so it is the low priority MX that traps the address.
        rw [Bool.false_or] at hon
        rcases modDbGet_cases f b (rfl : b.file (greyKey false gt) = b.db) with
          he | ⟨gd, he, -⟩ | ⟨-, hent⟩
        · rw [he] at hget; cases hget
        · rw [he] at hget; cases hget
        · exact .lowPrio rfl (hc rfl) hent hon
    · simp at h

theorem processGreySends_cause {now : Int} {f : DbFaults} {gt : GreyTuple} {sync : Bool}
    {dstIp : CStr} (h : send ∈ processGreySends g f now gt sync dstIp b) :
    SendCause g b ⟨now, f, .grey (.grey gt sync dstIp)⟩ send := by
  unfold processGreySends at h
  cases hc : trapCheck g f b gt.to_ with
  | err =>
    rw [hc] at h
    simp at h
  | spamtrap =>
    have hverdict : spfVerdict g gt sync true = 1 := by
      unfold spfVerdict
      cases g.spfLookup <;> simp
    rw [hc] at h
    simp only [decide_true, hverdict] at h
    rw [if_neg (by simp)] at h
    exact recordGreySends_cause (fun _ => .spamtrap rfl hc) (by simp) h
  | noTrap =>
    rw [hc] at h
    simp only [reduceCtorEq, decide_false, Bool.false_or] at h
    split at h
    · simp at h
    · exact recordGreySends_cause (fun hfail => .policy rfl hc (of_decide_eq_true hfail))
        (fun _ => hc) h

theorem updateSends_cause {type : EntryType} {ip : CStr} {now expire : Int} {delete : Bool}
    (hadd : delete = false → t = ⟨t.now, t.faults, .update .add type ip⟩)
    (h : send ∈ updateSends type ip now expire delete) : SendCause g b t send := by
  cases type with
  | white =>
    rw [updateSends, List.mem_singleton] at h
    subst h
    cases delete with
    | true => exact .unwhite
    | false =>
      rw [hadd rfl]
      exact .white .greydb
  | traphit =>
    rw [updateSends, List.mem_singleton] at h
    subst h
    cases delete with
    | true => exact .untrapped
    | false =>
      rw [hadd rfl]
      exact .trapped .greydb
  | spamtrap | domain => simp [updateSends] at h

theorem dbUpdate_sends {f : DbFaults} {now : Int} {action : DbAction} {type : EntryType} {ip : CStr}
    {b' : Bdb} {sent : List SyncSend} (h : dbUpdate g f now action type ip b = some (b', sent)) :
    ∃ expire, sent = updateSends type ip now expire (decide (action = .del)) := by
  unfold dbUpdate at h
  obtain ⟨key, -, h⟩ := Option.bind_eq_some_iff.mp h
  cases action with
  | del =>
    simp only at h
    split at h
    · cases h
    · obtain ⟨left, -, hpair⟩ := Option.bind_eq_some_iff.mp h
      cases hpair
      exact ⟨0, rfl⟩
  | add =>
    simp only at h
    cases hget : modDbGet f b key with
    | found gd =>
      rw [hget] at h
      obtain ⟨written, -, hpair⟩ := Option.bind_eq_some_iff.mp h
      cases hpair
      exact ⟨_, rfl⟩
    | notFound =>
      rw [hget] at h
      obtain ⟨written, -, hpair⟩ := Option.bind_eq_some_iff.mp h
      cases hpair
      exact ⟨_, rfl⟩
    | err =>
      rw [hget] at h
      cases h

theorem logEntry_sends {f : DbFaults} {now : Int} {ip : CStr} {b' : Bdb} {sent : List SyncSend}
    (h : logEntry g f now ip b = some (b', sent)) :
    sent = [.white ip now (now + g.whiteExp) false] := by
  unfold logEntry at h
  cases hget : modDbGet f b (.ip ip) with
  | err =>
    rw [hget] at h
    cases h
  | notFound =>
    rw [hget] at h
    obtain ⟨written, -, hpair⟩ := Option.bind_eq_some_iff.mp h
    cases hpair
    rfl
  | found gd =>
    rw [hget] at h
    obtain ⟨written, -, hpair⟩ := Option.bind_eq_some_iff.mp h
    cases hpair
    rfl

theorem dbTick_sends (h : send ∈ (dbTick g t b).2) : SendCause g b t send := by
  obtain ⟨now, f, event⟩ := t
  cases event with
  | grey event =>
    cases event with
    | grey gt sync dstIp => exact processGreySends_cause h
    | nonGrey => simp [dbTick] at h
    | scan => simp [dbTick] at h
  | update action type ip =>
    replace h : send ∈ ((dbUpdate g f now action type ip b).getD (b, [])).2 := h
    cases hup : dbUpdate g f now action type ip b with
    | none =>
      rw [hup] at h
      simp at h
    | some out =>
      obtain ⟨expire, hsent⟩ := dbUpdate_sends hup
      rw [hup, Option.getD_some, hsent] at h
      refine updateSends_cause (fun hadd => ?_) h
      cases action with
      | add => rfl
      | del => simp at hadd
  | logged ip =>
    replace h : send ∈ ((logEntry g f now ip b).getD (b, [])).2 := h
    cases hlog : logEntry g f now ip b with
    | none =>
      rw [hlog] at h
      simp at h
    | some out =>
      rw [hlog, Option.getD_some, logEntry_sends hlog, List.mem_singleton] at h
      rw [h]
      exact .white .logged

theorem DbTick.Own.fits (hown : t.Own) (h : send ∈ (dbTick g t b).2) : send.Fits := by
  cases dbTick_sends h with
  | tried htries =>
    obtain ⟨sync, dstIp, hev⟩ := htries
    unfold DbTick.Own at hown
    rw [hev] at hown
    exact hown.2
  | trapped | white | untrapped | unwhite => trivial

end Sends

/-! ## Runs of the cluster -/

section Runs

variable {H : Type} [DecidableEq H] {net : H → ClusterHost} {hmac : HmacSha1} {first c : Cluster H}
  {es : List (ClusterEvent H)} {e : ClusterEvent H} {h src : H} {ip : CStr}

/-- Where a datagram comes from: a host has sent it at one of its own transactions. -/
structure SentBy (net : H → ClusterHost) (hmac : HmacSha1) (first : Cluster H)
    (es : List (ClusterEvent H)) (src : H) (send : SyncSend) : Prop where
  fits : send.Fits
  cause : ∃ before c₁ t, Happened (ClusterEvent.Fits net hmac) (clusterStep net) first es before c₁
    (.own src t) ∧ SendCause (net src).greylister (c₁.dbs src) t send

theorem SentBy.later {send : SyncSend} (hsent : SentBy net hmac first es src send)
    (more : List (ClusterEvent H)) : SentBy net hmac first (es ++ more) src send := by
  obtain ⟨before, c₁, t, hhap, hcause⟩ := hsent.cause
  exact ⟨hsent.fits, before, c₁, t, hhap.later more, hcause⟩

/-- The event at the host src, at the state `c`, is a transaction of its own. -/
def OwnAt (net : H → ClusterHost) (hmac : HmacSha1) (first : Cluster H) (es : List (ClusterEvent H))
    (src : H) (t : DbTick) (c : Cluster H) : Prop :=
  ∃ before, Happened (ClusterEvent.Fits net hmac) (clusterStep net) first es before c (.own src t)

theorem OwnAt.later {t : DbTick} {c₁ : Cluster H} (hown : OwnAt net hmac first es src t c₁)
    {more : List (ClusterEvent H)} (hpart : es <+: more) : OwnAt net hmac first more src t c₁ := by
  obtain ⟨before, hhap⟩ := hown
  exact ⟨before, hhap.run, hhap.allowed, hhap.part.trans hpart⟩

/-- A client of some host has tried the tuple, or one that the host `h` hears as this one. -/
def ClientTried (net : H → ClusterHost) (hmac : HmacSha1) (first : Cluster H)
    (es : List (ClusterEvent H)) (h : H) (gt : GreyTuple) : Prop :=
  ∃ src t c gt₀, OwnAt net hmac first es src t c ∧ t.Tries gt₀ ∧ (src = h ∧ gt₀ = gt ∨ HeardAs gt₀ gt)

theorem ClientTried.later {gt : GreyTuple} (htried : ClientTried net hmac first es h gt)
    {more : List (ClusterEvent H)} (hpart : es <+: more) : ClientTried net hmac first more h gt := by
  obtain ⟨src, t, c, gt₀, hown, hrest⟩ := htried
  exact ⟨src, t, c, gt₀, hown.later hpart, hrest⟩

end Runs

/-! ## A host that tells another one -/

end Greyd
