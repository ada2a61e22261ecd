import Greyd.Provenance

/-!
# What becomes of one address

The entries of an address depend on the messages and commands about it, on the spamtraps and
the permitted domains, and on when a scan comes across them. Whatever else happens to the
database makes no difference to it.
-/
namespace Greyd

open SerialRuns

/-- The address whose entry or tuple is kept under the key. -/
def DbKey.address : DbKey → Option CStr
  | .ip a => some a
  | .tuple gt => some gt.ip
  | .mail _ | .dom _ => none

/-- What there is of a transaction for an address: all of it if it is about the address, or about
the spamtraps or the domains; of a scan, the order in which it meets the keys of the address, if
it meets any. -/
def DbTick.seenBy (ip : CStr) (t : DbTick) : Option DbTick :=
  match t.event with
  | .grey (.grey gt _ _) => if gt.ip = ip then some t else none
  | .grey (.nonGrey _ ip' _ _) => if ip' = ip then some t else none
  | .grey (.scan order) =>
    let keys := order.filter fun key => key.address = some ip
    if keys = [] then none else some ⟨t.now, .none, .grey (.scan keys)⟩
  | .update _ .white ip' => if ip' = ip then some t else none
  | .update _ .traphit ip' => if ip' = ip then some t else none
  | .update _ .spamtrap _ => some t
  | .update _ .domain _ => some t
  | .logged ip' => if ip' = ip then some t else none

/-- No scan is broken off. -/
def DbTick.Completed (g : Greylister) (t : DbTick) (b : Bdb) : Prop :=
  match t.event with
  | .grey (.scan order) => (modScanDb g.checkAddr t.faults t.now g.whiteExp b order).isSome
  | _ => True

/-- The databases hold the same for the address, and the same spamtraps and domains. -/
structure Bdb.AlikeFor (ip : CStr) (b b' : Bdb) : Prop where
  entries : ∀ key : DbKey, key.address = some ip → b.entry key = b'.entry key
  spamtraps : b.spamtraps = b'.spamtraps
  domains : b.domains = b'.domains

/-- The address is on the same lists. -/
structure DbScan.AlikeFor (ip : CStr) (st st' : DbScan) : Prop where
  db : st.db.AlikeFor ip st'.db
  whitelist : ip ∈ st.whitelist ↔ ip ∈ st'.whitelist
  whitelistIpv6 : ip ∈ st.whitelistIpv6 ↔ ip ∈ st'.whitelistIpv6
  traplist : ip ∈ st.traplist ↔ ip ∈ st'.traplist

section Alike

variable {ip : CStr} {b b' b'' : Bdb} {key : DbKey} {f : DbFaults} {val : GreyData}

theorem Bdb.AlikeFor.refl (ip : CStr) (b : Bdb) : b.AlikeFor ip b := ⟨fun _ _ => rfl, rfl, rfl⟩

theorem Bdb.AlikeFor.symm (h : b.AlikeFor ip b') : b'.AlikeFor ip b :=
  ⟨fun key hkey => (h.entries key hkey).symm, h.spamtraps.symm, h.domains.symm⟩

theorem Bdb.AlikeFor.trans (h : b.AlikeFor ip b') (h' : b'.AlikeFor ip b'') : b.AlikeFor ip b'' :=
  ⟨fun key hkey => (h.entries key hkey).trans (h'.entries key hkey), h.spamtraps.trans h'.spamtraps,
    h.domains.trans h'.domains⟩

theorem Bdb.AlikeFor.lookup (h : b.AlikeFor ip b') (hkey : ∀ ip', key.address = some ip' → ip' = ip) :
    (b.file key).lookup key = (b'.file key).lookup key := by
  cases key with
  | ip ip' => exact h.entries _ (congrArg some (hkey ip' rfl))
  | tuple gt => exact h.entries _ (congrArg some (hkey gt.ip rfl))
  | mail a => exact congrArg (AList.lookup (.mail a)) h.spamtraps
  | dom d => exact congrArg (AList.lookup (.dom d)) h.domains

theorem Bdb.AlikeFor.get (h : b.AlikeFor ip b') (hkey : ∀ ip', key.address = some ip' → ip' = ip) :
    modDbGet f b key = modDbGet f b' key := by
  unfold modDbGet
  rw [h.lookup hkey]

/-- A change of the file of a key that gives the records of the address the same data. -/
theorem Bdb.AlikeFor.setFile (h : b.AlikeFor ip b') (change : DbFile → DbFile)
    (hchange : ∀ key' : DbKey, (b.db.lookup key' = b'.db.lookup key') →
      (change b.db).lookup key' = (change b'.db).lookup key') :
    (b.setFile key (change (b.file key))).AlikeFor ip (b'.setFile key (change (b'.file key))) := by
  cases key with
  | ip _ | tuple _ => exact ⟨fun key' hkey => hchange key' (h.entries key' hkey), h.spamtraps, h.domains⟩
  | mail _ => exact ⟨h.entries, congrArg change h.spamtraps, h.domains⟩
  | dom _ => exact ⟨h.entries, h.spamtraps, congrArg change h.domains⟩

theorem Bdb.AlikeFor.put (h : b.AlikeFor ip b') :
    Option.Rel (Bdb.AlikeFor ip) (modDbPut f b key val) (modDbPut f b' key val) := by
  unfold modDbPut
  split
  · exact .none
  · refine .some (h.setFile (fun file => file.insert key val) fun key' heq => ?_)
    by_cases hkey : key' = key
    · rw [hkey, AList.lookup_insert, AList.lookup_insert]
    · rw [AList.lookup_insert_ne hkey, AList.lookup_insert_ne hkey, heq]

theorem Bdb.AlikeFor.del (h : b.AlikeFor ip b') :
    Option.Rel (Bdb.AlikeFor ip) (modDbDel f b key) (modDbDel f b' key) := by
  unfold modDbDel
  split
  · exact .none
  · refine .some (h.setFile (fun file => file.erase key) fun key' heq => ?_)
    by_cases hkey : key' = key
    · rw [hkey, AList.lookup_erase, AList.lookup_erase]
    · rw [AList.lookup_erase_ne hkey, AList.lookup_erase_ne hkey, heq]

theorem Bdb.AlikeFor.getD {o o' : Option Bdb} (h : b.AlikeFor ip b')
    (ho : Option.Rel (Bdb.AlikeFor ip) o o') : (o.getD b).AlikeFor ip (o'.getD b') := by
  cases ho with
  | none => exact h
  | some hc => exact hc

end Alike

/-! ## Transactions -/

/-- What a transaction leaves and sends is the same for the address. -/
def SameOutcome (ip : CStr) (out out' : Bdb × List SyncSend) : Prop :=
  out.1.AlikeFor ip out'.1 ∧ out.2 = out'.2

section Transactions

variable {ip : CStr} {b b' : Bdb} {g : Greylister} {f : DbFaults} {now : Int}

theorem modDbPut_isSome (f : DbFaults) (b : Bdb) (key : DbKey) (val : GreyData) :
    (modDbPut f b key val).isSome = !f.put key := by
  unfold modDbPut
  cases f.put key <;> rfl

theorem greyKey_address (spamtrap : Bool) (gt : GreyTuple) : (greyKey spamtrap gt).address = some gt.ip := by
  cases spamtrap <;> rfl

theorem committed_alike {o o' : Option Bdb} (h : b.AlikeFor ip b') (ho : Option.Rel (Bdb.AlikeFor ip) o o')
    (sent : List SyncSend) : SameOutcome ip ((o.bind fun c => some (c, sent)).getD (b, []))
      ((o'.bind fun c => some (c, sent)).getD (b', [])) := by
  cases ho with
  | none => exact ⟨h, rfl⟩
  | some hc => exact ⟨hc, rfl⟩

theorem trapCheck_alike (h : b.AlikeFor ip b') (to_ : CStr) : trapCheck g f b to_ = trapCheck g f b' to_ := by
  have hget : modDbGet f b (.mail to_) = modDbGet f b' (.mail to_) := h.get nofun
  unfold trapCheck checkPartialDom
  rw [hget, h.domains]

theorem recordGrey_alike (h : b.AlikeFor ip b') {gt : GreyTuple} (hgt : gt.ip = ip) (sync : Bool)
    (dstIp : CStr) (spamtrap : Bool) :
    SameOutcome ip
      (recordGrey g f now gt sync dstIp spamtrap b, recordGreySends g f now gt sync dstIp spamtrap b)
      (recordGrey g f now gt sync dstIp spamtrap b', recordGreySends g f now gt sync dstIp spamtrap b') := by
  have hget : modDbGet f b (greyKey spamtrap gt) = modDbGet f b' (greyKey spamtrap gt) := by
    apply h.get
    intro ip' hkey
    rw [greyKey_address, hgt] at hkey
    exact (Option.some.inj hkey).symm
  unfold SameOutcome recordGrey recordGreySends
  rw [hget]
  cases modDbGet f b' (greyKey spamtrap gt) with
  | notFound =>
    refine ⟨h.getD h.put, ?_⟩
    dsimp only
    rw [modDbPut_isSome, modDbPut_isSome]
  | found gd =>
    refine ⟨h.getD h.put, ?_⟩
    dsimp only
    rw [modDbPut_isSome, modDbPut_isSome]
  | err => exact ⟨h, rfl⟩

theorem processGrey_alike (h : b.AlikeFor ip b') {gt : GreyTuple} (hgt : gt.ip = ip) (sync : Bool)
    (dstIp : CStr) : SameOutcome ip
      (processGrey g f now gt sync dstIp b, processGreySends g f now gt sync dstIp b)
      (processGrey g f now gt sync dstIp b', processGreySends g f now gt sync dstIp b') := by
  have hgo : ∀ spamtrap : Bool, SameOutcome ip
      (if spfVerdict g gt sync spamtrap = 0 ∧ g.whitelistOnPass then
          (modDbPut f b (.ip gt.ip) (spfPassed g now)).getD b
        else recordGrey g f now gt sync dstIp (spamtrap || decide (spfVerdict g gt sync spamtrap = 2)) b,
        if spfVerdict g gt sync spamtrap = 0 ∧ g.whitelistOnPass then []
        else recordGreySends g f now gt sync dstIp
          (spamtrap || decide (spfVerdict g gt sync spamtrap = 2)) b)
      (if spfVerdict g gt sync spamtrap = 0 ∧ g.whitelistOnPass then
          (modDbPut f b' (.ip gt.ip) (spfPassed g now)).getD b'
        else recordGrey g f now gt sync dstIp (spamtrap || decide (spfVerdict g gt sync spamtrap = 2)) b',
        if spfVerdict g gt sync spamtrap = 0 ∧ g.whitelistOnPass then []
        else recordGreySends g f now gt sync dstIp
          (spamtrap || decide (spfVerdict g gt sync spamtrap = 2)) b') := by
    intro spamtrap
    split_ifs
    · exact ⟨h.getD h.put, rfl⟩
    · exact recordGrey_alike h hgt sync dstIp _
  unfold processGrey processGreySends
  rw [trapCheck_alike h]
  cases trapCheck g f b' gt.to_ with
  | err => exact ⟨h, rfl⟩
  | spamtrap => exact hgo true
  | noTrap => exact hgo false

theorem processNonGrey_alike (h : b.AlikeFor ip b') (spamtrap : Bool) (expires : CStr) (delete : Bool) :
    (processNonGrey f now spamtrap ip expires delete b).AlikeFor ip
      (processNonGrey f now spamtrap ip expires delete b') := by
  have hget : modDbGet f b (.ip ip) = modDbGet f b' (.ip ip) :=
    h.get fun _ hkey => (Option.some.inj hkey).symm
  unfold processNonGrey
  rw [hget]
  split
  · exact h
  · cases modDbGet f b' (.ip ip) with
    | notFound =>
      dsimp only
      split_ifs
      · exact h
      · exact h.getD h.put
    | found gd =>
      dsimp only
      split_ifs
      · exact h.getD h.del
      · exact h.getD h.put
    | err => exact h

theorem dbUpdate_alike (h : b.AlikeFor ip b') (action : DbAction) {type : EntryType} {a : CStr}
    (hkey : ∀ key, updateKey g.checkAddr type a = some key → ∀ ip', key.address = some ip' → ip' = ip) :
    SameOutcome ip ((dbUpdate g f now action type a b).getD (b, []))
      ((dbUpdate g f now action type a b').getD (b', [])) := by
  unfold dbUpdate
  cases hk : updateKey g.checkAddr type a with
  | none => exact ⟨h, rfl⟩
  | some key =>
    have hsafe := hkey key hk
    simp only [Option.bind_eq_bind, Option.bind_some]
    cases action with
    | del =>
      dsimp only
      rw [h.lookup hsafe]
      split_ifs
      · exact ⟨h, rfl⟩
      · exact committed_alike h h.del _
    | add =>
      dsimp only
      rw [h.get hsafe]
      cases modDbGet f b' key with
      | found gd => exact committed_alike h h.put _
      | notFound => exact committed_alike h h.put _
      | err => exact ⟨h, rfl⟩

theorem logEntry_alike (h : b.AlikeFor ip b') :
    SameOutcome ip ((logEntry g f now ip b).getD (b, [])) ((logEntry g f now ip b').getD (b', [])) := by
  have hget : modDbGet f b (.ip ip) = modDbGet f b' (.ip ip) :=
    h.get fun _ hkey => (Option.some.inj hkey).symm
  unfold logEntry
  rw [hget]
  cases modDbGet f b' (.ip ip) with
  | notFound => exact committed_alike h h.put _
  | found gd => exact committed_alike h h.put _
  | err => exact ⟨h, rfl⟩

/-- What is seen of a transaction is the transaction itself, or the scan of the address's keys. -/
theorem seenBy_cases {t v : DbTick} (h : t.seenBy ip = some v) :
    (∃ order, t.event = .grey (.scan order) ∧
        v = ⟨t.now, .none, .grey (.scan (order.filter fun key => key.address = some ip))⟩) ∨
      (∀ order, t.event ≠ .grey (.scan order)) ∧ v = t := by
  obtain ⟨now, f, event⟩ := t
  cases event with
  | grey event =>
    cases event with
    | grey gt sync dstIp =>
      simp only [DbTick.seenBy, Option.ite_none_right_eq_some, Option.some.injEq] at h
      exact .inr ⟨nofun, h.2.symm⟩
    | nonGrey spamtrap a expires delete =>
      simp only [DbTick.seenBy, Option.ite_none_right_eq_some, Option.some.injEq] at h
      exact .inr ⟨nofun, h.2.symm⟩
    | scan order =>
      simp only [DbTick.seenBy, Option.ite_none_left_eq_some, Option.some.injEq] at h
      exact .inl ⟨order, rfl, h.2.symm⟩
  | update action type a =>
    cases type with
    | white | traphit =>
      simp only [DbTick.seenBy, Option.ite_none_right_eq_some, Option.some.injEq] at h
      exact .inr ⟨nofun, h.2.symm⟩
    | spamtrap | domain => exact .inr ⟨nofun, (Option.some.inj h).symm⟩
  | logged a =>
    simp only [DbTick.seenBy, Option.ite_none_right_eq_some, Option.some.injEq] at h
    exact .inr ⟨nofun, h.2.symm⟩

/-- A transaction that is seen does and sends the same on databases that are alike. -/
theorem dbTick_alike (h : b.AlikeFor ip b') {t v : DbTick} (hseen : t.seenBy ip = some v)
    (hscan : ∀ order, t.event ≠ .grey (.scan order)) : SameOutcome ip (dbTick g t b) (dbTick g t b') := by
  obtain ⟨now, f, event⟩ := t
  cases event with
  | grey event =>
    cases event with
    | grey gt sync dstIp =>
      simp only [DbTick.seenBy, Option.ite_none_right_eq_some] at hseen
      exact processGrey_alike h hseen.1 sync dstIp
    | nonGrey spamtrap a expires delete =>
      simp only [DbTick.seenBy, Option.ite_none_right_eq_some] at hseen
      obtain ⟨rfl, -⟩ := hseen
      exact ⟨processNonGrey_alike h spamtrap expires delete, rfl⟩
    | scan order => exact absurd rfl (hscan order)
  | update action type a =>
    refine dbUpdate_alike h action fun key hkey ip' haddr => ?_
    cases type with
    | white | traphit =>
      simp only [DbTick.seenBy, Option.ite_none_right_eq_some] at hseen
      simp only [updateKey, Option.ite_none_left_eq_some, Option.some.injEq] at hkey
      obtain ⟨-, rfl⟩ := hkey
      exact (Option.some.inj haddr).symm.trans hseen.1
    | spamtrap =>
      simp only [updateKey, Option.ite_none_right_eq_some, Option.some.injEq] at hkey
      obtain ⟨-, rfl⟩ := hkey
      cases haddr
    | domain =>
      cases hkey
      cases haddr
  | logged a =>
    simp only [DbTick.seenBy, Option.ite_none_right_eq_some] at hseen
    obtain ⟨rfl, -⟩ := hseen
    exact logEntry_alike h

/-! ### Transactions that are not seen -/

variable {key : DbKey} {a : CStr}

theorem other_key (hkey : key.address = some a) (hne : a ≠ ip) :
    ∀ key' : DbKey, key'.address = some ip → key' ≠ key := by
  rintro key' haddr rfl
  rw [hkey] at haddr
  exact hne (Option.some.inj haddr)

theorem put_other {val : GreyData} (hkey : key.address = some a) (hne : a ≠ ip) :
    ((modDbPut f b key val).getD b).AlikeFor ip b := by
  have hnew := other_key hkey hne
  unfold modDbPut
  split
  · exact .refl ip b
  · cases key with
    | ip _ | tuple _ => exact ⟨fun key' haddr => AList.lookup_insert_ne (hnew key' haddr), rfl, rfl⟩
    | mail _ | dom _ => cases hkey

theorem del_other (hkey : key.address = some a) (hne : a ≠ ip) :
    ((modDbDel f b key).getD b).AlikeFor ip b := by
  have hnew := other_key hkey hne
  unfold modDbDel
  split
  · exact .refl ip b
  · cases key with
    | ip _ | tuple _ => exact ⟨fun key' haddr => AList.lookup_erase_ne (hnew key' haddr), rfl, rfl⟩
    | mail _ | dom _ => cases hkey

theorem recordGrey_other {gt : GreyTuple} (hne : gt.ip ≠ ip) (sync : Bool) (dstIp : CStr) (spamtrap : Bool) :
    (recordGrey g f now gt sync dstIp spamtrap b).AlikeFor ip b := by
  unfold recordGrey
  cases modDbGet f b (greyKey spamtrap gt) with
  | notFound => exact put_other (greyKey_address _ gt) hne
  | found gd => exact put_other (greyKey_address _ gt) hne
  | err => exact .refl ip b

theorem processGrey_other {gt : GreyTuple} (hne : gt.ip ≠ ip) (sync : Bool) (dstIp : CStr) :
    (processGrey g f now gt sync dstIp b).AlikeFor ip b := by
  unfold processGrey
  cases trapCheck g f b gt.to_ with
  | err => exact .refl ip b
  | spamtrap | noTrap =>
    dsimp only
    split
    · exact put_other rfl hne
    · exact recordGrey_other hne sync dstIp _

theorem processNonGrey_other (hne : a ≠ ip) (spamtrap : Bool) (expires : CStr) (delete : Bool) :
    (processNonGrey f now spamtrap a expires delete b).AlikeFor ip b := by
  unfold processNonGrey
  split
  · exact .refl ip b
  · cases modDbGet f b (.ip a) with
    | notFound =>
      dsimp only
      split_ifs
      · exact .refl ip b
      · exact put_other rfl hne
    | found gd =>
      dsimp only
      split_ifs
      · exact del_other rfl hne
      · exact put_other rfl hne
    | err => exact .refl ip b

theorem dbUpdate_other (action : DbAction) {type : EntryType} (htype : type = .white ∨ type = .traphit)
    (hne : a ≠ ip) : ((dbUpdate g f now action type a b).getD (b, [])).1.AlikeFor ip b := by
  cases hup : dbUpdate g f now action type a b with
  | none => exact .refl ip b
  | some out =>
    obtain ⟨b', sent⟩ := out
    obtain ⟨key, hkey, hcases⟩ := dbUpdate_cases hup
    have haddr : key.address = some a := by
      rcases htype with rfl | rfl <;>
      · simp only [updateKey, Option.ite_none_left_eq_some, Option.some.injEq] at hkey
        rw [← hkey.2]
        rfl
    show b'.AlikeFor ip b
    rcases hcases with ⟨-, hdel⟩ | ⟨-, ⟨gd, -, hput⟩ | ⟨-, hput⟩⟩
    · have hother := @del_other ip b f key a haddr hne
      rwa [hdel] at hother
    · have hother := @put_other ip b f key a (updatedEntry g now type gd) haddr hne
      rwa [hput] at hother
    · have hother := @put_other ip b f key a (createdEntry g now type) haddr hne
      rwa [hput] at hother

end Transactions

/-! ## Scans -/

section Scans

variable {ip : CStr} {checkAddr : CStr → Option SaFamily} {f f' : DbFaults} {now whiteExp : Int}
  {st st' st₁ st₁' st₂ : DbScan} {key : DbKey} {keys keys' : List DbKey}

theorem DbScan.AlikeFor.refl (ip : CStr) (st : DbScan) : st.AlikeFor ip st := ⟨.refl ip st.db, .rfl, .rfl, .rfl⟩

theorem DbScan.AlikeFor.symm (h : st.AlikeFor ip st₁) : st₁.AlikeFor ip st :=
  ⟨h.db.symm, h.whitelist.symm, h.whitelistIpv6.symm, h.traplist.symm⟩

theorem DbScan.AlikeFor.trans (h : st.AlikeFor ip st₁) (h' : st₁.AlikeFor ip st₂) : st.AlikeFor ip st₂ :=
  ⟨h.db.trans h'.db, h.whitelist.trans h'.whitelist, h.whitelistIpv6.trans h'.whitelistIpv6,
    h.traplist.trans h'.traplist⟩

theorem DbScan.AlikeFor.setDb {b b' : Bdb} (h : st.AlikeFor ip st₁) (hdb : b.AlikeFor ip b') :
    (st.setDb b).AlikeFor ip (st₁.setDb b') :=
  ⟨hdb, h.whitelist, h.whitelistIpv6, h.traplist⟩

theorem DbScan.AlikeFor.trap (h : st.AlikeFor ip st₁) (a : CStr) : (st.trap a).AlikeFor ip (st₁.trap a) :=
  ⟨h.db, h.whitelist, h.whitelistIpv6, by simp [h.traplist]⟩

theorem DbScan.AlikeFor.white (h : st.AlikeFor ip st₁) (a : CStr) :
    (st.white checkAddr a).AlikeFor ip (st₁.white checkAddr a) := by
  unfold DbScan.white
  split
  · exact ⟨h.db, h.whitelist, by simp [h.whitelistIpv6], h.traplist⟩
  · exact ⟨h.db, by simp [h.whitelist], h.whitelistIpv6, h.traplist⟩

theorem DbScan.white_other {a : CStr} (hne : a ≠ ip) : (st.white checkAddr a).AlikeFor ip st := by
  unfold DbScan.white
  split
  · exact ⟨.refl ip st.db, .rfl, by simp [hne.symm], .rfl⟩
  · exact ⟨.refl ip st.db, by simp [hne.symm], .rfl, .rfl⟩

theorem rel_bind {α β γ δ : Type} {R : α → β → Prop} {S : γ → δ → Prop} {o : Option α} {o' : Option β}
    {k : α → Option γ} {k' : β → Option δ} (h : Option.Rel R o o')
    (hk : ∀ x y, R x y → Option.Rel S (k x) (k' y)) : Option.Rel S (o.bind k) (o'.bind k') := by
  cases h with
  | none => exact .none
  | some hxy => exact hk _ _ hxy

theorem itrDelCurr_alike {b b' : Bdb} (h : b.AlikeFor ip b') :
    Option.Rel (Bdb.AlikeFor ip) (modDbItrDelCurr f b key) (modDbItrDelCurr f b' key) := by
  unfold modDbItrDelCurr
  split
  · exact .none
  · refine .some ⟨fun key' haddr => ?_, h.spamtraps, h.domains⟩
    show (b.dropEntry key).entry key' = (b'.dropEntry key).entry key'
    rw [entry_dropEntry, entry_dropEntry, h.entries key' haddr]

theorem promote_alike (h : st.AlikeFor ip st₁) {gt : GreyTuple} (hgt : gt.ip = ip) (gd : GreyData) :
    Option.Rel (DbScan.AlikeFor ip) (promote checkAddr f now whiteExp st gt gd)
      (promote checkAddr f now whiteExp st₁ gt gd) := by
  have hstate : dbAddrState f st.db gt.ip = dbAddrState f st₁.db gt.ip := by
    have hget : modDbGet f st.db (.ip gt.ip) = modDbGet f st₁.db (.ip gt.ip) :=
      h.db.get fun ip' haddr => (Option.some.inj haddr).symm.trans hgt
    unfold dbAddrState
    rw [hget]
  unfold promote
  rw [hstate]
  cases dbAddrState f st₁.db gt.ip with
  | trapped => exact .some h
  | err => exact .none
  | unknown | known =>
    apply rel_bind h.db.put
    intro written written' hwritten
    apply rel_bind (itrDelCurr_alike hwritten)
    intro left left' hleft
    exact .some ((h.white gt.ip).setDb hleft)

/-- The turn at a key of the address. -/
theorem scanKey_alikeFor (h : st.AlikeFor ip st₁) (haddr : key.address = some ip) :
    Option.Rel (DbScan.AlikeFor ip) (scanKey checkAddr f now whiteExp st key)
      (scanKey checkAddr f now whiteExp st₁ key) := by
  have hentry : st.db.db.lookup key = st₁.db.db.lookup key := h.db.entries key haddr
  unfold scanKey
  rw [hentry]
  cases st₁.db.db.lookup key with
  | none => exact .some h
  | some gd =>
    show Option.Rel _ (scanRecord checkAddr f now whiteExp st key gd)
      (scanRecord checkAddr f now whiteExp st₁ key gd)
    unfold scanRecord
    split
    · rw [Option.map_eq_bind, Option.map_eq_bind]
      apply rel_bind (itrDelCurr_alike h.db)
      intro left left' hleft
      exact .some (h.setDb hleft)
    · cases key with
      | ip a =>
        dsimp only
        split_ifs
        · exact .some (h.trap a)
        · exact .some (h.white a)
        · exact .some h
      | tuple gt =>
        dsimp only
        split_ifs
        · exact promote_alike h (Option.some.inj haddr) gd
        · exact .some h
      | mail _ | dom _ => cases haddr

theorem promote_faultless {gt : GreyTuple} {gd : GreyData}
    (h : promote checkAddr f now whiteExp st gt gd = some st') :
    promote checkAddr .none now whiteExp st gt gd = some st' := by
  obtain ⟨mid, hmid⟩ := Option.isSome_iff_exists.mp (@promote_isSome checkAddr now whiteExp st gt gd)
  rw [hmid]
  rcases promote_eq_some h with ⟨ht, rfl⟩ | ⟨ht, rfl⟩
  · rcases promote_eq_some hmid with ⟨-, rfl⟩ | ⟨ht', -⟩
    · rfl
    · exact absurd ht ht'
  · rcases promote_eq_some hmid with ⟨ht', -⟩ | ⟨-, rfl⟩
    · exact absurd ht' ht
    · rfl

/-- A turn that succeeds does what it does without failing operations. -/
theorem scanKey_faultless (h : scanKey checkAddr f now whiteExp st key = some st') :
    scanKey checkAddr .none now whiteExp st key = some st' := by
  unfold scanKey at h ⊢
  cases hl : st.db.db.lookup key with
  | none => rwa [hl] at h
  | some gd =>
    rw [hl] at h
    show scanRecord checkAddr .none now whiteExp st key gd = some st'
    have hrecord : scanRecord checkAddr f now whiteExp st key gd = some st' := h
    unfold scanRecord at hrecord ⊢
    by_cases hx : gd.expire ≤ now ∧ gd.pcount > -2
    · rw [if_pos hx] at hrecord ⊢
      obtain ⟨left, hleft, rfl⟩ := Option.map_eq_some_iff.mp hrecord
      unfold modDbItrDelCurr at hleft
      split at hleft
      · cases hleft
      · cases hleft
        rfl
    · rw [if_neg hx] at hrecord ⊢
      cases key with
      | tuple gt =>
        dsimp only at hrecord ⊢
        split_ifs at hrecord ⊢
        · exact promote_faultless hrecord
        · exact hrecord
      | ip _ | mail _ | dom _ => exact hrecord

/-- The turn at a key of another address, a spamtrap or a domain. -/
theorem ScanStep.other (h : ScanStep checkAddr now whiteExp st key st') (hother : key.address ≠ some ip) :
    st'.AlikeFor ip st := by
  have hkey : ∀ key' : DbKey, key'.address = some ip → key' ≠ key := by
    rintro key' haddr rfl
    exact hother haddr
  cases h with
  | absent | waiting | blocked | foreign => exact .refl ip st
  | expired =>
    refine ⟨⟨fun key' haddr => ?_, rfl, rfl⟩, .rfl, .rfl, .rfl⟩
    rw [DbScan.setDb_db, entry_dropEntry, if_neg (hkey key' haddr)]
  | @trap a =>
    have hne : a ≠ ip := fun heq => hother (congrArg some heq)
    exact ⟨.refl ip st.db, .rfl, .rfl, by simp [hne.symm]⟩
  | white => exact DbScan.white_other fun heq => hother (congrArg some heq)
  | @promote gt gd =>
    have hne : gt.ip ≠ ip := fun heq => hother (congrArg some heq)
    have hdb : (st.db.promoted gt gd (now + whiteExp)).AlikeFor ip st.db := by
      refine ⟨fun key' haddr => ?_, rfl, rfl⟩
      rw [entry_promoted, if_neg (hkey key' haddr), if_neg]
      rintro rfl
      exact hne (Option.some.inj haddr)
    exact (DbScan.white_other hne).setDb hdb

/-- The loop of a scan that is carried out is a run of its turns. -/
theorem scanKeys_run (h : scanKeys checkAddr f now whiteExp st keys = some st') :
    Run (fun key st => (scanKey checkAddr f now whiteExp st key).isSome)
      (fun key st => (scanKey checkAddr f now whiteExp st key).getD st) st keys st' := by
  induction keys generalizing st with
  | nil =>
    cases h
    exact .start
  | cons key keys ih =>
    obtain ⟨mid, hmid, hrest⟩ := Option.bind_eq_some_iff.mp h
    have hturn := @Run.tick _ _ (fun key st => (scanKey checkAddr f now whiteExp st key).isSome = true)
      (fun key st => (scanKey checkAddr f now whiteExp st key).getD st) st [] st key .start (by rw [hmid]; rfl)
    rw [hmid] at hturn
    exact hturn.append (ih hrest)

theorem scan_unwinding (ip : CStr) (checkAddr : CStr → Option SaFamily) (f f' : DbFaults) (now whiteExp : Int) :
    Unwinding (fun key st => (scanKey checkAddr f now whiteExp st key).isSome)
      (fun key st => (scanKey checkAddr f now whiteExp st key).getD st)
      (fun key st => (scanKey checkAddr f' now whiteExp st key).isSome)
      (fun key st => (scanKey checkAddr f' now whiteExp st key).getD st)
      (Option.guard fun key => decide (key.address = some ip)) (DbScan.AlikeFor ip) where
  left {key st st₁} hfits hseen h := by
    obtain ⟨st', hst'⟩ := Option.isSome_iff_exists.mp hfits
    have hother : key.address ≠ some ip := by simpa using hseen
    rw [hst']
    exact ((scanKey_step hst').other hother).trans h
  right {key st st₁} hfits hseen h := by
    obtain ⟨st', hst'⟩ := Option.isSome_iff_exists.mp hfits
    have hother : key.address ≠ some ip := by simpa using hseen
    rw [hst']
    exact h.trans ((scanKey_step hst').other hother).symm
  both {key key' seen st st₁} hfits hfits' hseen hseen' h := by
    obtain ⟨st', hst'⟩ := Option.isSome_iff_exists.mp hfits
    obtain ⟨st₁', hst₁'⟩ := Option.isSome_iff_exists.mp hfits'
    obtain ⟨rfl, haddr⟩ := Option.guard_eq_some_iff.mp hseen
    obtain ⟨rfl, -⟩ := Option.guard_eq_some_iff.mp hseen'
    have hturns := @scanKey_alikeFor ip checkAddr .none now whiteExp st st₁ _ h (by simpa using haddr)
    rw [hst', hst₁']
    rw [scanKey_faultless hst', scanKey_faultless hst₁'] at hturns
    cases hturns with
    | some halike => exact halike

/-- Two scans that meet the keys of the address in the same order leave it alike. -/
theorem scanKeys_alikeFor (h : st.AlikeFor ip st₁) (hscan : scanKeys checkAddr f now whiteExp st keys = some st')
    (hscan' : scanKeys checkAddr f' now whiteExp st₁ keys' = some st₁')
    (hseen : (keys.filter fun key => key.address = some ip) = keys'.filter fun key => key.address = some ip) :
    st'.AlikeFor ip st₁' := by
  refine (scan_unwinding ip checkAddr f f' now whiteExp).runs (scanKeys_run hscan) (scanKeys_run hscan') ?_ h
  rw [List.filterMap_eq_filter]
  exact hseen

theorem modScanDb_alikeFor {b b' : Bdb} (h : b.AlikeFor ip b')
    (hscan : modScanDb checkAddr f now whiteExp b keys = some st')
    (hscan' : modScanDb checkAddr f' now whiteExp b' keys' = some st₁')
    (hseen : (keys.filter fun key => key.address = some ip) = keys'.filter fun key => key.address = some ip) :
    st'.AlikeFor ip st₁' := by
  have hstart : DbScan.AlikeFor ip ⟨b, [], [], []⟩ ⟨b', [], [], []⟩ := ⟨h, .rfl, .rfl, .rfl⟩
  exact scanKeys_alikeFor hstart hscan hscan' hseen

/-- A scan that meets no key of the address. -/
theorem greyScanDb_other {g : Greylister} {b : Bdb} (hother : ∀ key ∈ keys, key.address ≠ some ip) :
    (greyScanDb g f now keys b).AlikeFor ip b := by
  unfold greyScanDb
  cases hscan : modScanDb g.checkAddr f now g.whiteExp b keys with
  | none => exact .refl ip b
  | some st =>
    refine (scanKeys_induct (P := fun st => st.AlikeFor ip ⟨b, [], [], []⟩) ?_ hscan (.refl ip _)).db
    intro st st' key hkey hstep h
    exact (hstep.other (hother key hkey)).trans h

end Scans

/-! ## The transactions of all programs -/

section Address

variable {g : Greylister} {ip : CStr} {b₀ b b' : Bdb} {ts ts' : List DbTick}

/-- A transaction that is not seen leaves what the address depends on as it is. -/
theorem dbStep_unseen {t : DbTick} (hseen : t.seenBy ip = none) : (dbStep g t b).AlikeFor ip b := by
  obtain ⟨now, f, event⟩ := t
  cases event with
  | grey event =>
    cases event with
    | grey gt sync dstIp =>
      simp only [DbTick.seenBy, ite_eq_right_iff, reduceCtorEq, imp_false] at hseen
      exact processGrey_other hseen sync dstIp
    | nonGrey spamtrap a expires delete =>
      simp only [DbTick.seenBy, ite_eq_right_iff, reduceCtorEq, imp_false] at hseen
      exact processNonGrey_other hseen spamtrap expires delete
    | scan order =>
      simp only [DbTick.seenBy, ite_eq_left_iff, reduceCtorEq, imp_false, not_not] at hseen
      exact greyScanDb_other (by simpa using hseen)
  | update action type a =>
    cases type with
    | white =>
      simp only [DbTick.seenBy, ite_eq_right_iff, reduceCtorEq, imp_false] at hseen
      exact dbUpdate_other action (.inl rfl) hseen
    | traphit =>
      simp only [DbTick.seenBy, ite_eq_right_iff, reduceCtorEq, imp_false] at hseen
      exact dbUpdate_other action (.inr rfl) hseen
    | spamtrap | domain => cases hseen
  | logged a =>
    simp only [DbTick.seenBy, ite_eq_right_iff, reduceCtorEq, imp_false] at hseen
    show ((logEntry g f now a b).getD (b, [])).1.AlikeFor ip b
    cases hlog : logEntry g f now a b with
    | none => exact .refl ip b
    | some out =>
      have hother := @put_other ip b f (.ip a) a (loggedEntry g now (b.entry (.ip a))) rfl hseen
      rwa [logEntry_cases hlog] at hother

/-- Transactions of which the same is seen. -/
theorem dbStep_alike {t t' v : DbTick} (hfits : t.Completed g b) (hfits' : t'.Completed g b')
    (hseen : t.seenBy ip = some v) (hseen' : t'.seenBy ip = some v) (h : b.AlikeFor ip b') :
    (dbStep g t b).AlikeFor ip (dbStep g t' b') := by
  rcases seenBy_cases hseen with ⟨order, hev, hv⟩ | ⟨hno, rfl⟩
  · rcases seenBy_cases hseen' with ⟨order', hev', hv'⟩ | ⟨hno', rfl⟩
    · obtain ⟨now, f, event⟩ := t
      obtain ⟨now', f', event'⟩ := t'
      dsimp only at hev hev'
      subst hev hev'
      rw [hv] at hv'
      simp only [DbTick.mk.injEq, DbEvent.grey.injEq, GreyEvent.scan.injEq, true_and] at hv'
      obtain ⟨rfl, horder⟩ := hv'
      obtain ⟨st, hst⟩ := Option.isSome_iff_exists.mp hfits
      obtain ⟨st', hst'⟩ := Option.isSome_iff_exists.mp hfits'
      have hdb := (modScanDb_alikeFor h hst hst' horder).db
      show (greyScanDb g f now order b).AlikeFor ip (greyScanDb g f' now order' b')
      unfold greyScanDb
      rw [hst, hst']
      exact hdb
    · exact absurd (congrArg DbTick.event hv) (hno' _)
  · rcases seenBy_cases hseen' with ⟨order', hev', hv'⟩ | ⟨hno', rfl⟩
    · exact absurd (congrArg DbTick.event hv') (hno _)
    · exact (dbTick_alike h hseen hno).1

theorem db_unwinding (g : Greylister) (ip : CStr) : Unwinding (DbTick.Completed g) (dbStep g)
    (DbTick.Completed g) (dbStep g) (DbTick.seenBy ip) (Bdb.AlikeFor ip) where
  left _ hseen h := (dbStep_unseen hseen).trans h
  right _ hseen h := h.trans (dbStep_unseen hseen).symm
  both := dbStep_alike

/-- Two runs of which the address sees the same leave the same for it. A transaction about it does
and sends the same after either run, and a scan that meets its keys in the same order puts it on
the same lists. -/
theorem addresses_independent (h : Run (DbTick.Completed g) (dbStep g) b₀ ts b)
    (h' : Run (DbTick.Completed g) (dbStep g) b₀ ts' b')
    (hseen : ts.filterMap (DbTick.seenBy ip) = ts'.filterMap (DbTick.seenBy ip)) :
    b.AlikeFor ip b' ∧
      (∀ t : DbTick, t.seenBy ip = some t → (∀ order, t.event ≠ .grey (.scan order)) →
        SameOutcome ip (dbTick g t b) (dbTick g t b')) ∧
      ∀ f f' now order order' st st', modScanDb g.checkAddr f now g.whiteExp b order = some st →
        modScanDb g.checkAddr f' now g.whiteExp b' order' = some st' →
        (order.filter fun key => key.address = some ip) = (order'.filter fun key => key.address = some ip) →
        st.AlikeFor ip st' := by
  have halike : b.AlikeFor ip b' := (db_unwinding g ip).runs h h' hseen (.refl ip b₀)
  refine ⟨halike, fun t ht hno => dbTick_alike halike ht hno, ?_⟩
  intro f f' now order order' st st' hst hst' horder
  exact modScanDb_alikeFor halike hst hst' horder

def neighbourTrapped : DbTick := ⟨2000, .none, .update .add .traphit "10.0.0.2".toList⟩

def scanTick (now : Int) (order : List DbKey) : DbTick := ⟨now, .none, .grey (.scan order)⟩

example : (neighbourTrapped.seenBy triedTuple.ip).isNone := by decide +kernel

theorem scanTick_completed (g : Greylister) (now : Int) (order : List DbKey) (b : Bdb) :
    (scanTick now order).Completed g b :=
  Option.isSome_iff_exists.mpr (scanKeys_total ⟨b, [], [], []⟩ order)

/-- A neighbour that is trapped in between makes no difference to the address. -/
theorem addresses_independent_neighbour :
    (dbStep defaultGreylister (scanTick 3060 [.tuple triedTuple])
      (dbStep defaultGreylister (tryAt 1000) .empty)).AlikeFor triedTuple.ip
    (dbStep defaultGreylister (scanTick 3060 [.ip "10.0.0.2".toList, .tuple triedTuple])
      (dbStep defaultGreylister neighbourTrapped (dbStep defaultGreylister (tryAt 1000) .empty))) := by
  have hfirst : Run (DbTick.Completed defaultGreylister) (dbStep defaultGreylister) .empty [tryAt 1000]
      (dbStep defaultGreylister (tryAt 1000) .empty) := @Run.tick _ _ _ _ _ [] _ _ .start trivial
  have hneighbour := @Run.tick _ _ _ _ _ _ _ neighbourTrapped hfirst trivial
  have hscan := hfirst.tick (scanTick_completed defaultGreylister 3060 [.tuple triedTuple] _)
  have hscan' := hneighbour.tick
    (scanTick_completed defaultGreylister 3060 [.ip "10.0.0.2".toList, .tuple triedTuple] _)
  exact (addresses_independent hscan hscan' rfl).1

end Address

end Greyd
