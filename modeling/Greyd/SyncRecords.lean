import Greyd.SyncRoundTrip

/-!
# The records of a packet (sync.c)

What a record makes the receiver write depends on the record alone, but for the flag that
tells additions from deletions: it is set by a deletion and stays set to the end of the
packet.
-/
namespace Greyd

/-- A string field of a record, with a terminator in it. -/
structure TlvString where
  bytes : List Char
  terminated : nul ∈ bytes

/-- A record as the receiver takes it. The strings and the padding fill the record. -/
inductive TlvRecord
  | grey (timestamp ip : Int) (from_ to_ helo : TlvString) (pad : List Char)
  | addr (trap delete : Bool) (timestamp expire ip : Int)

namespace TlvRecord

def addrType (trap delete : Bool) : Nat :=
  match trap, delete with
  | false, false => syncWhiteType
  | true, false => syncTrappedType
  | false, true => syncDelWhite
  | true, true => syncDelTrapped

def length : TlvRecord → Nat
  | grey _ _ from_ to_ helo pad => syncTlvGreySize + from_.bytes.length + to_.bytes.length +
      helo.bytes.length + pad.length
  | addr .. => syncTlvAddrSize

def bytes : TlvRecord → List Char
  | grey timestamp ip from_ to_ helo pad =>
    be16 syncGrey ++ be16 (length (grey timestamp ip from_ to_ helo pad)) ++ be32 timestamp ++
      be32 ip ++ be16 from_.bytes.length ++ be16 to_.bytes.length ++ be16 helo.bytes.length ++
      (from_.bytes ++ (to_.bytes ++ (helo.bytes ++ pad)))
  | addr trap delete timestamp expire ip =>
    be16 (addrType trap delete) ++ be16 syncTlvAddrSize ++ be32 timestamp ++ be32 expire ++ be32 ip

def deletes : TlvRecord → Bool
  | addr _ delete _ _ _ => delete
  | _ => false

def adds : TlvRecord → Bool
  | addr _ delete _ _ _ => !delete
  | _ => false

/-- The message that is written where the flag has this value when the record is reached. -/
def message (srcIp : CStr) (delete : Bool) : TlvRecord → SyncMessage
  | grey _ ip from_ to_ helo _ => .grey (addrText (ip % 2 ^ 32).toNat) (cstr helo.bytes)
      (cstr from_.bytes) (cstr to_.bytes)
  | addr trap delete' _ expire ip => .addr trap (addrText (ip % 2 ^ 32).toNat) srcIp
      (expire % 2 ^ 32).toNat (delete || delete')

theorem length_bytes (t : TlvRecord) : t.bytes.length = t.length := by
  cases t with
  | grey => simp [bytes, length, be16, be32, syncTlvGreySize]; omega
  | addr => rfl

theorem length_ge (t : TlvRecord) : syncTlvAddrSize ≤ t.length := by
  cases t with
  | grey => simp only [length, syncTlvAddrSize, syncTlvGreySize]; omega
  | addr => exact Nat.le_refl _

theorem message_eq_iff (srcIp : CStr) (delete : Bool) (t : TlvRecord) :
    t.message srcIp delete = t.message srcIp false ↔ (delete = true → t.adds = false) := by
  cases t with
  | grey => simp [message, adds]
  | addr trap delete' => cases delete <;> cases delete' <;> simp [message, adds]

end TlvRecord

/-! ## The loop -/

section loop
variable {engine : SyncEngine} {srcIp : CStr}

/-- What is written in front of whatever else the packet makes the receiver write. -/
def syncWritten (engine : SyncEngine) (m : SyncMessage) : List SyncMessage :=
  if engine.greyEnabled then [m] else []

theorem syncEntries_addrRecord {fuel len : Nat} {seen trap delete : Bool} {timestamp expire ip : Int}
    {rest : List Char} (hlen : syncTlvAddrSize ≤ len) :
    syncEntries engine srcIp (fuel + 1) len seen
        ((TlvRecord.addr trap delete timestamp expire ip).bytes ++ rest) =
      syncWritten engine ((TlvRecord.addr trap delete timestamp expire ip).message srcIp seen) ++
        syncEntries engine srcIp fuel (len - syncTlvAddrSize) (seen || delete) rest := by
  have htype : TlvRecord.addrType trap delete = syncDelWhite ∨
      TlvRecord.addrType trap delete = syncWhiteType ∨
      TlvRecord.addrType trap delete = syncDelTrapped ∨
      TlvRecord.addrType trap delete = syncTrappedType := by
    cases trap <;> cases delete <;> decide
  have htraps : decide (TlvRecord.addrType trap delete = syncDelTrapped ∨
      TlvRecord.addrType trap delete = syncTrappedType) = trap := by
    cases trap <;> cases delete <;> rfl
  have hdeletes : decide (TlvRecord.addrType trap delete = syncDelWhite ∨
      TlvRecord.addrType trap delete = syncDelTrapped) = delete := by
    cases trap <;> cases delete <;> rfl
  rw [TlvRecord.bytes, syncEntries_addrNext hlen htype, htraps, hdeletes]
  rfl

theorem syncEntries_greyRecord {fuel len : Nat} {seen : Bool} {timestamp ip : Int}
    {from_ to_ helo : TlvString} {pad rest : List Char}
    (hlen : (TlvRecord.grey timestamp ip from_ to_ helo pad).length ≤ len) (hmax : len < 2 ^ 16) :
    syncEntries engine srcIp (fuel + 1) len seen
        ((TlvRecord.grey timestamp ip from_ to_ helo pad).bytes ++ rest) =
      syncWritten engine ((TlvRecord.grey timestamp ip from_ to_ helo pad).message srcIp seen) ++
        syncEntries engine srcIp fuel
          (len - (TlvRecord.grey timestamp ip from_ to_ helo pad).length) seen rest := by
  rw [TlvRecord.bytes]
  simp only [List.append_assoc]
  have hnext := @syncEntries_greyNext engine fuel len _ seen srcIp timestamp ip _ _ _ pad rest
    from_.terminated to_.terminated helo.terminated rfl hlen hmax
  simp only [List.append_assoc] at hnext
  exact hnext

/-- One record: its message, and the loop goes on behind it. -/
theorem syncEntries_record (t : TlvRecord) {fuel len : Nat} {seen : Bool} {rest : List Char}
    (hlen : t.length ≤ len) (hmax : len < 2 ^ 16) :
    syncEntries engine srcIp (fuel + 1) len seen (t.bytes ++ rest) =
      syncWritten engine (t.message srcIp seen) ++
        syncEntries engine srcIp fuel (len - t.length) (seen || t.deletes) rest := by
  cases t with
  | grey timestamp ip from_ to_ helo pad =>
    rw [syncEntries_greyRecord hlen hmax, show TlvRecord.deletes _ = false from rfl, Bool.or_false]
  | addr trap delete timestamp expire ip => exact syncEntries_addrRecord hlen

/-- The messages of records that are read one after the other. -/
def recordMessages (srcIp : CStr) : Bool → List TlvRecord → List SyncMessage
  | _, [] => []
  | seen, t :: ts => t.message srcIp seen :: recordMessages srcIp (seen || t.deletes) ts

theorem syncEntries_records (hgrey : engine.greyEnabled = true) (ts : List TlvRecord)
    {fuel len : Nat} {seen : Bool} {rest : List Char}
    (hlen : (ts.map TlvRecord.length).sum ≤ len) (hmax : len < 2 ^ 16) (hfuel : len < fuel) :
    syncEntries engine srcIp fuel len seen (ts.flatMap TlvRecord.bytes ++ (syncEndMarker ++ rest)) =
      recordMessages srcIp seen ts := by
  induction ts generalizing fuel len seen with
  | nil => exact syncEntries_end fuel len seen srcIp rest
  | cons t ts ih =>
    rw [List.map_cons, List.sum_cons] at hlen
    have hpos := t.length_ge
    have hsize : syncTlvAddrSize = 16 := rfl
    cases fuel with
    | zero => omega
    | succ fuel =>
      rw [List.flatMap_cons, List.append_assoc, syncEntries_record t (by omega) hmax,
        ih (by omega) (by omega) (by omega), syncWritten, if_pos hgrey]
      rfl

theorem syncEntries_disabled (hgrey : engine.greyEnabled = false) (fuel len : Nat) (seen : Bool)
    (p : List Char) : syncEntries engine srcIp fuel len seen p = [] := by
  induction fuel generalizing len seen p with
  | zero => rfl
  | succ fuel ih =>
    rw [syncEntries]
    simp only [hgrey, ih, Bool.false_eq_true, ↓reduceIte, List.append_nil, ite_self]

/-- The flag changes nothing exactly where no addition comes behind a deletion. -/
theorem recordMessages_eq_iff (srcIp : CStr) (seen : Bool) (ts : List TlvRecord) :
    recordMessages srcIp seen ts = ts.map (TlvRecord.message srcIp false) ↔
      (seen = true → ∀ t ∈ ts, t.adds = false) ∧
        ts.Pairwise fun t u => t.deletes = true → u.adds = false := by
  induction ts generalizing seen with
  | nil => simp [recordMessages]
  | cons t ts ih =>
    rw [recordMessages, List.map_cons, List.cons.injEq, TlvRecord.message_eq_iff, ih,
      List.forall_mem_cons, List.pairwise_cons]
    cases seen <;> cases t.deletes <;> simp <;> tauto

end loop

/-! ## Packets -/

/-- The payload: the records and the end marker. -/
def recordBytes (ts : List TlvRecord) : List Char := ts.flatMap TlvRecord.bytes ++ syncEndMarker

def recordsSize (ts : List TlvRecord) : Nat := syncHdrSize + (recordBytes ts).length

/-- What a sender is free to choose in a packet that holds these records: the counter, the
padding of the header and what the datagram has behind the packet. -/
structure SyncDatagram (ts : List TlvRecord) where
  counter : List Char
  pad : List Char
  extra : List Char
  counter_length : counter.length = 4
  pad_length : pad.length = 4
  fits : recordsSize ts ≤ syncMaxsize

namespace SyncDatagram

variable {ts : List TlvRecord} (d : SyncDatagram ts)

/-- The header up to the digest. -/
def front : List Char := [byte syncVersion, byte afInet.toNat] ++ be16 (recordsSize ts) ++ d.counter

def digest (hmac : HmacSha1) (key : List Char) : List Char :=
  hmac.digest key (d.front ++ List.replicate syncHmacLen nul ++ d.pad ++ recordBytes ts)

/-- The bytes of the datagram. The digest is right. -/
def bytes (hmac : HmacSha1) (key : List Char) : List Char :=
  d.front ++ d.digest hmac key ++ d.pad ++ recordBytes ts ++ d.extra

theorem front_length : d.front.length = 8 := by
  simp [front, be16, d.counter_length]

theorem digest_length (hmac : HmacSha1) (key : List Char) :
    (d.digest hmac key).length = syncHmacLen := hmac.length _ _

/-- The checks let the datagram through, unless it comes from the receiver's own address. -/
theorem syncRecv_bytes (hmac : HmacSha1) (engine : SyncEngine) (src : Nat) :
    ∃ more, syncRecv hmac engine src (d.bytes hmac engine.key) =
      if src ≠ 0 ∧ engine.addr = src then []
      else syncEntries engine (addrText src) (recordsSize ts + 1) (recordsSize ts) false
        (recordBytes ts ++ more) := by
  have hfits := d.fits
  have hmaxsize : syncMaxsize = 1408 := rfl
  have hn16 : recordsSize ts < 2 ^ 16 := by omega
  obtain ⟨digest, hdigest⟩ : ∃ digest, digest = d.digest hmac engine.key := ⟨_, rfl⟩
  have hdlen : digest.length = syncHmacLen := by rw [hdigest, d.digest_length]
  have hheader : (d.front ++ digest ++ d.pad).length = syncHdrSize := by
    rw [List.length_append, List.length_append, d.front_length, hdlen, d.pad_length]
    rfl
  have hpacket : (d.front ++ digest ++ d.pad ++ recordBytes ts).length = recordsSize ts := by
    rw [List.length_append, hheader]
    rfl
  have hbuf : ∃ more, (d.bytes hmac engine.key).take syncMaxsize ++ List.replicate (syncMaxsize -
      min (d.bytes hmac engine.key).length syncMaxsize) nul =
        d.front ++ (digest ++ (d.pad ++ (recordBytes ts ++ more))) := by
    refine ⟨d.extra.take (syncMaxsize - recordsSize ts) ++ List.replicate (syncMaxsize -
      min (d.bytes hmac engine.key).length syncMaxsize) nul, ?_⟩
    have htake : (d.bytes hmac engine.key).take syncMaxsize =
        d.front ++ digest ++ d.pad ++ recordBytes ts ++
          d.extra.take (syncMaxsize - recordsSize ts) := by
      rw [bytes, ← hdigest, List.take_append, List.take_of_length_le (by rw [hpacket]; exact hfits),
        hpacket]
    rw [htake]
    simp only [List.append_assoc]
  obtain ⟨more, hbuf⟩ := hbuf
  have hlong : recordsSize ts ≤ min (d.bytes hmac engine.key).length syncMaxsize := by
    refine le_min ?_ hfits
    rw [bytes, ← hdigest, List.length_append, hpacket]
    omega
  have hhdr : syncHdrSize ≤ recordsSize ts := Nat.le_add_right _ _
  have hdrSize : syncHdrSize = 32 := rfl
  refine ⟨more, ?_⟩
  rw [syncRecv]
  dsimp only
  rw [hbuf]
  generalize hlen : min (d.bytes hmac engine.key).length syncMaxsize = len at hlong ⊢
  have hversion : field (d.front ++ (digest ++ (d.pad ++ (recordBytes ts ++ more)))) 0 1 =
      syncVersion := rfl
  have hfamily : field (d.front ++ (digest ++ (d.pad ++ (recordBytes ts ++ more)))) 1 1 =
      afInet.toNat := rfl
  have hlength : field (d.front ++ (digest ++ (d.pad ++ (recordBytes ts ++ more)))) 2 2 =
      recordsSize ts := by
    rw [show field _ 2 2 = ntoh (be16 (recordsSize ts)) from rfl, ntoh_be16, Nat.mod_eq_of_lt hn16]
  have hdrop8 : (d.front ++ (digest ++ (d.pad ++ (recordBytes ts ++ more)))).drop 8 =
      digest ++ (d.pad ++ (recordBytes ts ++ more)) := List.drop_left' d.front_length
  have hdrop28 : (d.front ++ (digest ++ (d.pad ++ (recordBytes ts ++ more)))).drop 28 =
      d.pad ++ (recordBytes ts ++ more) := by
    rw [show (28 : Nat) = 8 + syncHmacLen from rfl, ← List.drop_drop, hdrop8, List.drop_left' hdlen]
  have hdropAll : (d.front ++ (digest ++ (d.pad ++ (recordBytes ts ++ more)))).drop syncHdrSize =
      recordBytes ts ++ more := by
    rw [show syncHdrSize = 28 + 4 from rfl, ← List.drop_drop, hdrop28, List.drop_left' d.pad_length]
  have htake8 : (d.front ++ (digest ++ (d.pad ++ (recordBytes ts ++ more)))).take 8 = d.front :=
    List.take_left' d.front_length
  have hzeroed : (d.front ++ List.replicate syncHmacLen nul ++
      (d.pad ++ (recordBytes ts ++ more))).take (recordsSize ts) =
        d.front ++ List.replicate syncHmacLen nul ++ d.pad ++ recordBytes ts := by
    rw [← List.append_assoc, ← List.append_assoc, List.take_left']
    rw [← hpacket]
    simp only [List.length_append, List.length_replicate, hdlen]
  rw [hversion, hfamily, hlength, hdrop8, hdrop28, hdropAll, htake8, hzeroed,
    List.take_left' hdlen]
  by_cases hown : src ≠ 0 ∧ engine.addr = src
  · rw [if_pos (.inr hown), if_pos hown]
  · rw [if_neg (by rintro (h | h); exacts [absurd h (by omega), hown h]), if_neg hown,
      if_neg (by simp only [ne_eq, not_true_eq_false, false_or]; omega), if_neg (by
        rw [hdigest]
        exact fun h => h rfl)]

/-- What a datagram makes the receiver write. -/
theorem syncRecv_messages (hmac : HmacSha1) (engine : SyncEngine) (src : Nat) :
    syncRecv hmac engine src (d.bytes hmac engine.key) =
      if (src ≠ 0 ∧ engine.addr = src) ∨ engine.greyEnabled = false then []
      else recordMessages (addrText src) false ts := by
  obtain ⟨more, hrecv⟩ := d.syncRecv_bytes hmac engine src
  rw [hrecv]
  by_cases hown : src ≠ 0 ∧ engine.addr = src
  · rw [if_pos hown, if_pos (.inl hown)]
  rw [if_neg hown]
  cases hgrey : engine.greyEnabled with
  | false => rw [if_pos (.inr rfl), syncEntries_disabled hgrey]
  | true =>
    have hfits := d.fits
    have hmaxsize : syncMaxsize = 1408 := rfl
    have hsum : (ts.map TlvRecord.length).sum ≤ recordsSize ts := by
      have hlen : (ts.flatMap TlvRecord.bytes).length = (ts.map TlvRecord.length).sum := by
        rw [List.length_flatMap]
        exact congrArg List.sum (List.map_congr_left fun t _ => t.length_bytes)
      rw [recordsSize, recordBytes, List.length_append, hlen]
      omega
    rw [if_neg (by rintro (h | h); exacts [hown h, Bool.noConfusion h]), recordBytes,
      List.append_assoc, syncEntries_records hgrey ts hsum (by omega) (Nat.lt_succ_self _)]

end SyncDatagram

/-- A packet makes the receiver write what its records make it write one by one exactly when
nothing is written at all, or no addition comes behind a deletion. -/
theorem records_independent_iff (hmac : HmacSha1) (engine : SyncEngine) (src : Nat)
    {ts : List TlvRecord} (d : SyncDatagram ts) (alone : ∀ t, t ∈ ts → SyncDatagram [t]) :
    syncRecv hmac engine src (d.bytes hmac engine.key) =
        ts.attach.flatMap (fun t =>
          syncRecv hmac engine src ((alone t.1 t.2).bytes hmac engine.key)) ↔
      (src ≠ 0 ∧ engine.addr = src) ∨ engine.greyEnabled = false ∨
        ts.Pairwise fun t u => t.deletes = true → u.adds = false := by
  simp only [SyncDatagram.syncRecv_messages]
  by_cases hsilent : (src ≠ 0 ∧ engine.addr = src) ∨ engine.greyEnabled = false
  · simp only [if_pos hsilent]
    refine iff_of_true ?_ (hsilent.imp id .inl)
    simp
  · simp only [if_neg hsilent]
    have hmap : (ts.attach.flatMap fun t => recordMessages (addrText src) false [t.1]) =
        ts.map (TlvRecord.message (addrText src) false) := by
      rw [List.map_eq_flatMap]
      simp [recordMessages]
    rw [hmap, recordMessages_eq_iff]
    simp only [Bool.false_eq_true, false_implies, true_and]
    exact ⟨fun h => .inr (.inr h), fun h => h.elim (fun h => absurd (.inl h) hsilent)
      fun h => h.elim (fun h => absurd (.inr h) hsilent) id⟩

/-- A host leaves the whitelist and another one enters it. -/
def whiteRecords : List TlvRecord := [.addr false true 0 100 0x0a010203, .addr false false 0 100 0x0a010204]

/-- A packet of a few records with nothing chosen. -/
def plainDatagram {ts : List TlvRecord} (h : recordsSize ts ≤ syncMaxsize) : SyncDatagram ts :=
  ⟨be32 7, List.replicate 4 nul, [], rfl, rfl, h⟩

theorem whiteRecords_alone_fit : ∀ t ∈ whiteRecords, recordsSize [t] ≤ syncMaxsize := by
  intro t ht
  rw [whiteRecords, List.mem_cons, List.mem_singleton] at ht
  rcases ht with rfl | rfl <;> decide

def whitePacket : SyncDatagram whiteRecords := plainDatagram (by decide)

/-- The entry of the second host is deleted, too. -/
theorem addition_behind_deletion :
    ¬ (syncRecv syncTupleHmac syncReceiver 0x0a000001
        (whitePacket.bytes syncTupleHmac syncReceiver.key) =
      whiteRecords.attach.flatMap (fun t => syncRecv syncTupleHmac syncReceiver 0x0a000001
        ((plainDatagram (whiteRecords_alone_fit t.1 t.2)).bytes syncTupleHmac syncReceiver.key))) := by
  have hloud : ¬ ((0x0a000001 ≠ 0 ∧ syncReceiver.addr = 0x0a000001) ∨
      syncReceiver.greyEnabled = false) := by decide
  simp only [SyncDatagram.syncRecv_messages, if_neg hloud]
  intro h
  have hflags := congrArg (List.map fun m => match m with
    | SyncMessage.addr _ _ _ _ delete => delete
    | _ => false) h
  exact absurd hflags (by decide)

end Greyd
