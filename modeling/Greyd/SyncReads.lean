import Greyd.SyncRoundTrip
import Mathlib.Logic.Relation

/-!
# What the receiver's loop reads (sync.c)

The loop counts down the length of the whole packet while it starts behind the header: what
is left to it is 32 bytes more than the packet has. What it reads stays inside the packet
only where the records themselves see to it.
-/
namespace Greyd

/-- The buffer a datagram is received in, which has been cleared before. -/
def syncBuf (packet : List Char) : List Char :=
  packet.take syncMaxsize ++ List.replicate (syncMaxsize - min packet.length syncMaxsize) nul

/-- `sh_length`. -/
def shLength (buf : List Char) : Nat := field buf 2 2

/-- The checks that come before the loop let the datagram through. -/
def SyncAccepts (hmac : HmacSha1) (engine : SyncEngine) (src : Nat) (packet : List Char) : Prop :=
  let len := min packet.length syncMaxsize
  let buf := syncBuf packet
  ¬ (len < 1 ∨ (src ≠ 0 ∧ engine.addr = src)) ∧
    ¬ (len < syncHdrSize ∨ field buf 0 1 ≠ syncVersion ∨ field buf 1 1 ≠ afInet.toNat ∨
      len < shLength buf) ∧
    hmac.digest engine.key
      ((buf.take 8 ++ List.replicate syncHmacLen nul ++ buf.drop 28).take (shLength buf)) =
        (buf.drop 8).take syncHmacLen

instance (hmac : HmacSha1) (engine : SyncEngine) (src : Nat) (packet : List Char) :
    Decidable (SyncAccepts hmac engine src packet) :=
  inferInstanceAs (Decidable (_ ∧ _ ∧ _))

/-- The loop begins behind the header, with the length of the whole packet. -/
theorem SyncAccepts.syncRecv_eq {hmac : HmacSha1} {engine : SyncEngine} {src : Nat}
    {packet : List Char} (h : SyncAccepts hmac engine src packet) :
    syncRecv hmac engine src packet = syncEntries engine (addrText src)
      (shLength (syncBuf packet) + 1) (shLength (syncBuf packet)) false
        ((syncBuf packet).drop syncHdrSize) := by
  obtain ⟨hnonempty, hheader, hdigest⟩ := h
  rw [syncRecv]
  exact (if_neg hnonempty).trans ((if_neg hheader).trans (if_neg (not_not.mpr hdigest)))

/-! ## The reads of the loop -/

def isAddrType (type : Nat) : Prop :=
  type = syncDelWhite ∨ type = syncWhiteType ∨ type = syncDelTrapped ∨ type = syncTrappedType

instance (type : Nat) : Decidable (isAddrType type) := inferInstanceAs (Decidable (_ ∨ _ ∨ _ ∨ _))

section fields
variable (buf : List Char) (off : Nat)

def stType : Nat := field (buf.drop off) 0 2
def stLength : Nat := field (buf.drop off) 2 2
def sgFromLength : Nat := field (buf.drop off) 12 2
def sgToLength : Nat := field (buf.drop off) 14 2
def sgHeloLength : Nat := field (buf.drop off) 16 2

/-- What a grey record claims to need. -/
def sgSize : Nat := syncTlvGreySize + sgFromLength buf off + sgToLength buf off + sgHeloLength buf off

/-- One past the terminator of the string at the offset. -/
def stringEnd : Nat := off + (cstr (buf.drop off)).length + 1

/-- Where the strings of a grey record start. -/
def sgStrings : List Nat :=
  [off + syncTlvGreySize, off + syncTlvGreySize + sgFromLength buf off,
    off + syncTlvGreySize + sgFromLength buf off + sgToLength buf off]

end fields

/-- The stretches of the buffer that the loop reads, each with the offset behind it. The
strings of a record are read where they are printed, for the greylister or for the log. -/
def syncReads (prints : Bool) (buf : List Char) : Nat → Nat → Nat → Option (List (Nat × Nat))
  | 0, _, _ => none
  | fuel + 1, len, off =>
    if len = 0 ∨ len < syncTlvHdrSize then some []
    else if len < stLength buf off then some [(off + 2, off + 4)]
    else if stType buf off = syncGrey then
      let lengths := [(off, off + 4), (off + 12, off + syncTlvGreySize)]
      if sgSize buf off > stLength buf off then some lengths
      else
        let strings := if prints then (sgStrings buf off).map fun s => (s, stringEnd buf s) else []
        (syncReads prints buf fuel (len - stLength buf off) (off + stLength buf off)).map
          (lengths ++ (off + 8, off + 12) :: strings ++ ·)
    else if isAddrType (stType buf off) then
      if syncTlvAddrSize ≠ stLength buf off then some [(off, off + 4)]
      else
        (syncReads prints buf fuel (len - stLength buf off) (off + stLength buf off)).map
          ([(off, off + 4), (off + 8, off + syncTlvAddrSize)] ++ ·)
    else some [(off, off + 4)]

/-- The loop ends, and everything it reads lies in front of `sh_length`. -/
def ReadsInside (prints : Bool) (buf : List Char) : Prop :=
  ∃ reads, syncReads prints buf (shLength buf + 1) (shLength buf) syncHdrSize = some reads ∧
    ∀ r ∈ reads, r.2 ≤ shLength buf

/-! ## Records inside the packet -/

/-- The loop goes on from one record to the next. -/
def NextRecord (buf : List Char) (n off off' : Nat) : Prop :=
  off + stLength buf off ≤ n + syncHdrSize ∧
    (stType buf off = syncGrey ∧ sgSize buf off ≤ stLength buf off ∨
      isAddrType (stType buf off) ∧ stLength buf off = syncTlvAddrSize) ∧
    off' = off + stLength buf off

/-- As much of the record as its kind has lies in front of the end, with the terminators of
its strings. -/
structure RecordInside (prints : Bool) (buf : List Char) (n off : Nat) : Prop where
  header : off + syncTlvHdrSize ≤ n
  grey : off + stLength buf off ≤ n + syncHdrSize → stType buf off = syncGrey →
    off + syncTlvGreySize ≤ n
  strings : off + stLength buf off ≤ n + syncHdrSize → stType buf off = syncGrey →
    sgSize buf off ≤ stLength buf off → prints = true →
      ∀ s ∈ sgStrings buf off, stringEnd buf s ≤ n
  addr : isAddrType (stType buf off) → stLength buf off = syncTlvAddrSize →
    off + stLength buf off ≤ n + syncHdrSize → off + syncTlvAddrSize ≤ n

/-- Every record that is reached, unless it starts where no header is read any more. -/
def RecordsInside (prints : Bool) (buf : List Char) (n start : Nat) : Prop :=
  ∀ off, Relation.ReflTransGen (NextRecord buf n) start off →
    off + syncTlvHdrSize ≤ n + syncHdrSize → RecordInside prints buf n off

section step
variable {prints : Bool} {buf : List Char} {n off : Nat}

theorem recordsInside_last (hlast : ∀ off', ¬ NextRecord buf n off off') :
    RecordsInside prints buf n off ↔
      (off + syncTlvHdrSize ≤ n + syncHdrSize → RecordInside prints buf n off) := by
  refine ⟨fun h => h off .refl, fun h off' hreach => ?_⟩
  rcases hreach.cases_head with rfl | ⟨next, hnext, -⟩
  · exact h
  · exact absurd hnext (hlast next)

theorem recordsInside_next (hnext : NextRecord buf n off (off + stLength buf off)) :
    RecordsInside prints buf n off ↔
      (off + syncTlvHdrSize ≤ n + syncHdrSize → RecordInside prints buf n off) ∧
        RecordsInside prints buf n (off + stLength buf off) := by
  refine ⟨fun h => ⟨h off .refl, fun off' hreach => h off' (.head hnext hreach)⟩,
    fun h off' hreach => ?_⟩
  rcases hreach.cases_head with rfl | ⟨next, ⟨hlen, hkind, rfl⟩, hrest⟩
  · exact h.1
  · exact h.2 off' hrest

/-- The reads of a record and those of the records behind it. -/
theorem reads_append_iff {front : List (Nat × Nat)} {o : Option (List (Nat × Nat))} :
    (∃ reads, o.map (front ++ ·) = some reads ∧ ∀ r ∈ reads, r.2 ≤ n) ↔
      (∀ r ∈ front, r.2 ≤ n) ∧ ∃ reads, o = some reads ∧ ∀ r ∈ reads, r.2 ≤ n := by
  constructor
  · intro hgiven
    obtain ⟨reads, hmap, hreads⟩ := hgiven
    obtain ⟨rest, rfl, rfl⟩ := Option.map_eq_some_iff.mp hmap
    exact ⟨fun r hr => hreads r (List.mem_append_left _ hr), rest, rfl,
      fun r hr => hreads r (List.mem_append_right _ hr)⟩
  · intro hgiven
    obtain ⟨hfront, rest, rfl, hrest⟩ := hgiven
    exact ⟨front ++ rest, rfl, fun r hr => (List.mem_append.mp hr).elim (hfront r) (hrest r)⟩

theorem reads_some_iff {reads : List (Nat × Nat)} :
    (∃ reads', some reads = some reads' ∧ ∀ r ∈ reads', r.2 ≤ n) ↔ ∀ r ∈ reads, r.2 ≤ n := by
  simp

theorem not_addr_of_grey (h : stType buf off = syncGrey) : ¬ isAddrType (stType buf off) := by
  rw [h]
  decide

/-- A record that the loop goes on behind takes 16 bytes off the counter. -/
theorem syncReads_ends (prints : Bool) (buf : List Char) (fuel len off : Nat) (hfuel : len < fuel) :
    ∃ reads, syncReads prints buf fuel len off = some reads := by
  have haddrSize : syncTlvAddrSize = 16 := rfl
  have hgreySize : syncTlvGreySize = 18 := rfl
  induction fuel generalizing len off with
  | zero => omega
  | succ fuel ih =>
    have hrest : ∀ front : List (Nat × Nat), ¬ (len = 0 ∨ len < syncTlvHdrSize) →
        syncTlvAddrSize ≤ stLength buf off →
        ∃ reads, (syncReads prints buf fuel (len - stLength buf off) (off + stLength buf off)).map
          (front ++ ·) = some reads := by
      intro front hpos hsize
      obtain ⟨reads, hreads⟩ := ih (len - stLength buf off) (off + stLength buf off) (by omega)
      exact ⟨front ++ reads, by rw [hreads]; rfl⟩
    rw [syncReads]
    by_cases hend : len = 0 ∨ len < syncTlvHdrSize
    · exact ⟨_, if_pos hend⟩
    rw [if_neg hend]
    by_cases hlong : len < stLength buf off
    · exact ⟨_, if_pos hlong⟩
    rw [if_neg hlong]
    by_cases hgrey : stType buf off = syncGrey
    · rw [if_pos hgrey]
      by_cases hsize : sgSize buf off > stLength buf off
      · exact ⟨_, if_pos hsize⟩
      · rw [if_neg hsize]
        refine hrest _ hend ?_
        have : syncTlvGreySize ≤ sgSize buf off := by rw [sgSize]; omega
        omega
    rw [if_neg hgrey]
    by_cases haddr : isAddrType (stType buf off)
    · rw [if_pos haddr]
      by_cases hsize : syncTlvAddrSize ≠ stLength buf off
      · exact ⟨_, if_pos hsize⟩
      · rw [if_neg hsize]
        exact hrest _ hend (by omega)
    · exact ⟨_, if_neg haddr⟩

/-- The counter stays 32 ahead of what the packet has. -/
theorem syncReads_inside_iff (prints : Bool) (buf : List Char) (n : Nat) (fuel len off : Nat)
    (hlen : len + off = n + syncHdrSize) (hfuel : len < fuel) :
    (∃ reads, syncReads prints buf fuel len off = some reads ∧ ∀ r ∈ reads, r.2 ≤ n) ↔
      RecordsInside prints buf n off := by
  have htlv : syncTlvHdrSize = 4 := rfl
  have hgreySize : syncTlvGreySize = 18 := rfl
  have haddrSize : syncTlvAddrSize = 16 := rfl
  induction fuel generalizing len off with
  | zero => omega
  | succ fuel ih =>
    rw [syncReads]
    by_cases hend : len = 0 ∨ len < syncTlvHdrSize
    · rw [if_pos hend, reads_some_iff, recordsInside_last]
      · refine iff_of_true (by simp) fun h => absurd h (by omega)
      · rintro off' ⟨hfit, ⟨-, hsize⟩ | ⟨-, hsize⟩, -⟩
        · have : syncTlvGreySize ≤ sgSize buf off := by rw [sgSize]; omega
          omega
        · omega
    rw [if_neg hend]
    have hreach : off + syncTlvHdrSize ≤ n + syncHdrSize := by omega
    by_cases hlong : len < stLength buf off
    · rw [if_pos hlong, reads_some_iff, recordsInside_last]
      · constructor
        · intro h _
          have hheader := h (off + 2, off + 4) (by simp)
          exact ⟨hheader, fun hfit => by omega, fun hfit => by omega, fun _ _ hfit => by omega⟩
        · intro h r hr
          rw [List.mem_singleton.mp hr]
          exact (h hreach).header
      · rintro off' ⟨hfit, -⟩
        omega
    rw [if_neg hlong]
    have hfit : off + stLength buf off ≤ n + syncHdrSize := by omega
    by_cases hgrey : stType buf off = syncGrey
    · rw [if_pos hgrey]
      by_cases hsize : sgSize buf off > stLength buf off
      · rw [if_pos hsize, reads_some_iff, recordsInside_last]
        · constructor
          · intro h _
            exact ⟨h (off, off + 4) (by simp), fun _ _ => h (off + 12, off + syncTlvGreySize) (by simp),
              fun _ _ hle => absurd hle (by omega), fun h => absurd h (not_addr_of_grey hgrey)⟩
          · intro h r hr
            have hrec := h hreach
            rcases List.mem_cons.mp hr with rfl | hr
            · exact hrec.header
            · rw [List.mem_singleton.mp hr]
              exact hrec.grey hfit hgrey
        · rintro off' ⟨-, ⟨-, hle⟩ | ⟨haddr, -⟩, -⟩
          · omega
          · exact not_addr_of_grey hgrey haddr
      · have hsize' : sgSize buf off ≤ stLength buf off := by omega
        have hmin : syncTlvGreySize ≤ sgSize buf off := by rw [sgSize]; omega
        have hbehind := ih (len - stLength buf off) (off + stLength buf off) (by omega) (by omega)
        rw [if_neg hsize]
        refine reads_append_iff.trans (Iff.trans (and_congr ⟨fun h _ => ?_, fun h r hr => ?_⟩ hbehind)
          (recordsInside_next ⟨hfit, .inl ⟨hgrey, hsize'⟩, rfl⟩).symm)
        · refine ⟨h (off, off + 4) (by simp), fun _ _ => h (off + 12, off + syncTlvGreySize) (by simp),
            fun _ _ _ hprints s hs => h (s, stringEnd buf s) ?_,
            fun h => absurd h (not_addr_of_grey hgrey)⟩
          simp [hprints, hs]
        · have hrec := h hreach
          have hfixed := hrec.grey hfit hgrey
          simp only [List.mem_append, List.mem_cons, List.not_mem_nil, or_false] at hr
          rcases hr with (rfl | rfl) | rfl | hr
          · exact hrec.header
          · exact hfixed
          · show off + 12 ≤ n
            omega
          · cases hprints : prints with
            | false => simp [hprints] at hr
            | true =>
              rw [hprints, if_pos rfl] at hr
              obtain ⟨s, hs, rfl⟩ := List.mem_map.mp hr
              exact hrec.strings hfit hgrey hsize' hprints s hs
    rw [if_neg hgrey]
    by_cases haddr : isAddrType (stType buf off)
    · rw [if_pos haddr]
      by_cases hsize : syncTlvAddrSize ≠ stLength buf off
      · rw [if_pos hsize, reads_some_iff, recordsInside_last]
        · constructor
          · intro h _
            exact ⟨h (off, off + 4) (by simp), fun _ h => absurd h hgrey, fun _ h => absurd h hgrey,
              fun _ h => absurd h.symm hsize⟩
          · intro h r hr
            rw [List.mem_singleton.mp hr]
            exact (h hreach).header
        · rintro off' ⟨-, ⟨h, -⟩ | ⟨-, h⟩, -⟩
          · exact hgrey h
          · exact hsize h.symm
      · have hsize' : stLength buf off = syncTlvAddrSize := (not_not.mp hsize).symm
        have hbehind := ih (len - stLength buf off) (off + stLength buf off) (by omega) (by omega)
        rw [if_neg hsize]
        refine reads_append_iff.trans (Iff.trans (and_congr ⟨fun h _ => ?_, fun h r hr => ?_⟩ hbehind)
          (recordsInside_next ⟨hfit, .inr ⟨haddr, hsize'⟩, rfl⟩).symm)
        · exact ⟨h (off, off + 4) (by simp), fun _ h => absurd h hgrey, fun _ h => absurd h hgrey,
            fun _ _ _ => h (off + 8, off + syncTlvAddrSize) (by simp)⟩
        · have hrec := h hreach
          rcases List.mem_cons.mp hr with rfl | hr
          · exact hrec.header
          · rw [List.mem_singleton.mp hr]
            exact hrec.addr haddr hsize' hfit
    · rw [if_neg haddr, reads_some_iff, recordsInside_last]
      · constructor
        · intro h _
          exact ⟨h (off, off + 4) (by simp), fun _ h => absurd h hgrey, fun _ h => absurd h hgrey,
            fun h => absurd h haddr⟩
        · intro h r hr
          rw [List.mem_singleton.mp hr]
          exact (h hreach).header
      · rintro off' ⟨-, ⟨h, -⟩ | ⟨h, -⟩, -⟩
        · exact hgrey h
        · exact haddr h

end step

/-- The loop always ends, and stays inside a packet that is let through exactly when every
record it comes to lies inside. -/
theorem reads_inside_iff (hmac : HmacSha1) (engine : SyncEngine) (src : Nat) (packet : List Char)
    (haccepts : SyncAccepts hmac engine src packet) (debug : Bool) :
    shLength (syncBuf packet) ≤ syncMaxsize ∧
      (∃ reads, syncReads (engine.greyEnabled || debug) (syncBuf packet)
        (shLength (syncBuf packet) + 1) (shLength (syncBuf packet)) syncHdrSize = some reads) ∧
      (ReadsInside (engine.greyEnabled || debug) (syncBuf packet) ↔
        RecordsInside (engine.greyEnabled || debug) (syncBuf packet) (shLength (syncBuf packet))
          syncHdrSize) := by
  obtain ⟨-, hheader, -⟩ := haccepts
  refine ⟨?_, syncReads_ends _ _ _ _ _ (Nat.lt_succ_self _),
    syncReads_inside_iff _ _ _ _ _ _ rfl (Nat.lt_succ_self _)⟩
  simp only [not_or, not_lt] at hheader
  exact hheader.2.2.2.trans (min_le_right _ _)

/-- A packet with one address, and one that is nothing but its header. -/
def zeroHmac : HmacSha1 := knownDigest (List.replicate syncHmacLen 0) rfl

def onePacket : List Char := syncTrapped zeroHmac syncSender "10.1.2.3".toList 0 100 false

def barePacket : List Char := syncPacket zeroHmac syncSender syncHdrSize []

theorem reads_inside_one :
    RecordsInside true (syncBuf onePacket) (shLength (syncBuf onePacket)) syncHdrSize := by
  refine (reads_inside_iff zeroHmac syncReceiver 0x0a000001 onePacket (by decide +kernel)
    false).2.2.mp ⟨[(32, 36), (40, 48), (48, 52)], by decide +kernel, by decide +kernel⟩

/-- Without an end marker the loop reads on behind the packet. -/
theorem reads_behind_packet :
    SyncAccepts zeroHmac syncReceiver 0x0a000001 barePacket ∧
      ¬ ReadsInside true (syncBuf barePacket) := by
  refine ⟨by decide +kernel, ?_⟩
  intro hgiven
  obtain ⟨reads, hreads, hinside⟩ := hgiven
  have hlength : shLength (syncBuf barePacket) = 32 := by decide +kernel
  have hrun : syncReads true (syncBuf barePacket) 33 32 32 = some [(32, 36)] := by decide +kernel
  rw [hlength] at hreads hinside
  rw [show syncReads true (syncBuf barePacket) (32 + 1) 32 syncHdrSize =
    some [(32, 36)] from hrun, Option.some.injEq] at hreads
  have hpast := hinside (32, 36) (by rw [← hreads]; exact List.mem_singleton_self _)
  omega

end Greyd
