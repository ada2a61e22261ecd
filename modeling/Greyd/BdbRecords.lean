import Greyd.Greydb

/-!
# Packed records (bdb.c)

The driver stores a key as a type tag and strings with their terminators, and a value as the
object representation of its fields. The sizes are numbers here: an `int` counts the strings
of any caller. A file of packed records is a finite map on the keys themselves.
-/
namespace Greyd

/-! ## Numbers in memory -/

/-- How the machine puts the bytes of a number. -/
inductive ByteOrder
  | little
  | big
  deriving DecidableEq

/-- The lowest `size` bytes of a number, the lowest first. -/
def lowBytes : Nat → Nat → List Char
  | 0, _ => []
  | size + 1, n => Char.ofNat (n % 256) :: lowBytes size (n / 256)

def ofLowBytes : List Char → Nat
  | [] => 0
  | c :: cs => c.toNat + 256 * ofLowBytes cs

namespace ByteOrder

variable (order : ByteOrder)

def arrange (bytes : List Char) : List Char :=
  match order with
  | .little => bytes
  | .big => bytes.reverse

/-- The object representation of a number of `size` bytes. -/
def store (size : Nat) (n : BitVec (8 * size)) : List Char := order.arrange (lowBytes size n.toNat)

/-- The number that the first `size` bytes of an object represent. -/
def load (size : Nat) (buf : List Char) : BitVec (8 * size) :=
  BitVec.ofNat (8 * size) (ofLowBytes (order.arrange (buf.take size)))

end ByteOrder

theorem lowBytes_length (size n : Nat) : (lowBytes size n).length = size := by
  induction size generalizing n with
  | zero => rfl
  | succ size ih => rw [lowBytes, List.length_cons, ih]

theorem ofLowBytes_lowBytes (size n : Nat) : ofLowBytes (lowBytes size n) = n % 256 ^ size := by
  induction size generalizing n with
  | zero => rw [pow_zero, Nat.mod_one]; rfl
  | succ size ih =>
    have hchar : (Char.ofNat (n % 256)).toNat = n % 256 := by
      have hvalid : (n % 256).isValidChar := .inl (by omega)
      unfold Char.ofNat Char.toNat
      rw [dif_pos hvalid]
      rfl
    rw [lowBytes, ofLowBytes, ih, hchar, pow_succ', Nat.mod_mul]

namespace ByteOrder

variable (order : ByteOrder)

theorem arrange_arrange (bytes : List Char) : order.arrange (order.arrange bytes) = bytes := by
  cases order with
  | little => rfl
  | big => exact bytes.reverse_reverse

theorem store_length {size : Nat} (n : BitVec (8 * size)) : (order.store size n).length = size := by
  cases order with
  | little => exact lowBytes_length size n.toNat
  | big => exact List.length_reverse.trans (lowBytes_length size n.toNat)

/-- What is stored is loaded again, whatever follows it. -/
theorem load_store {size : Nat} (n : BitVec (8 * size)) (rest : List Char) :
    order.load size (order.store size n ++ rest) = n := by
  have htake : (order.store size n ++ rest).take size = order.store size n :=
    List.take_left' (order.store_length n)
  unfold load
  rw [htake, store, arrange_arrange, ofLowBytes_lowBytes]
  apply BitVec.eq_of_toNat_eq
  have hpow : 256 ^ size = 2 ^ (8 * size) := by rw [pow_mul]; rfl
  rw [BitVec.toNat_ofNat, hpow, Nat.mod_mod, Nat.mod_eq_of_lt n.isLt]

theorem drop_store {size : Nat} (n : BitVec (8 * size)) (rest : List Char) :
    (order.store size n ++ rest).drop size = rest :=
  List.drop_left' (order.store_length n)

end ByteOrder

/-! ## Values -/

/-- `struct Grey_data` with the types of its fields. -/
structure GreyCounters where
  first : Int64
  pass : Int64
  expire : Int64
  bcount : Int32
  pcount : Int32
  deriving DecidableEq

/-- `struct DB_val`. -/
structure DbVal where
  type : Int16
  gd : GreyCounters
  deriving DecidableEq

def GreyCounters.data (gd : GreyCounters) : GreyData :=
  ⟨gd.first.toInt, gd.pass.toInt, gd.expire.toInt, gd.bcount.toInt, gd.pcount.toInt⟩

section Records

variable (order : ByteOrder)

def storeShort (n : Int16) : List Char := order.store 2 n.toBitVec

def storeInt (n : Int32) : List Char := order.store 4 n.toBitVec

def storeTime (n : Int64) : List Char := order.store 8 n.toBitVec

def loadShort (buf : List Char) : Int16 := Int16.ofBitVec (order.load 2 buf)

def loadInt (buf : List Char) : Int32 := Int32.ofBitVec (order.load 4 buf)

def loadTime (buf : List Char) : Int64 := Int64.ofBitVec (order.load 8 buf)

def GreyCounters.store (gd : GreyCounters) : List Char :=
  storeTime order gd.first ++ storeTime order gd.pass ++ storeTime order gd.expire ++
    storeInt order gd.bcount ++ storeInt order gd.pcount

def GreyCounters.load (buf : List Char) : GreyCounters where
  first := loadTime order buf
  pass := loadTime order (buf.drop 8)
  expire := loadTime order (buf.drop 16)
  bcount := loadInt order (buf.drop 24)
  pcount := loadInt order (buf.drop 28)

def sizeofShort : Nat := 2
def sizeofGreyData : Nat := 32

/-- `pack_val`: what the DBT points to. -/
def packVal (val : DbVal) : List Char :=
  let buf := List.replicate (sizeofShort + sizeofGreyData) nul
  let buf := overwrite buf 0 (storeShort order val.type)
  overwrite buf sizeofShort (val.gd.store order)

/-- `unpack_val` -/
def unpackVal (buf : List Char) : DbVal where
  type := loadShort order buf
  gd := GreyCounters.load order (buf.drop sizeofShort)

/-! ## Keys -/

def dbKeyIp : Int16 := 1
def dbKeyMail : Int16 := 2
def dbKeyTuple : Int16 := 3
def dbKeyDom : Int16 := 4

def DbKey.type : DbKey → Int16
  | .ip _ => dbKeyIp
  | .mail _ => dbKeyMail
  | .tuple _ => dbKeyTuple
  | .dom _ => dbKeyDom

/-- The buffer of `pack_key` with the type in front. -/
def packType (key : DbKey) (slen : Nat) : List Char :=
  overwrite (List.replicate (sizeofShort + slen) nul) 0 (storeShort order key.type)

/-- `pack_key` -/
def packKey (key : DbKey) : List Char :=
  match key with
  | .ip s | .mail s | .dom s =>
    overwrite (packType order key (s.length + 1)) sizeofShort (s ++ [nul])
  | .tuple gt =>
    let buf := packType order key
      (gt.ip.length + 1 + gt.helo.length + 1 + gt.from_.length + 1 + gt.to_.length + 1)
    let s := sizeofShort
    let buf := overwrite buf s (gt.ip ++ [nul])
    let s := s + (gt.ip.length + 1)
    let buf := overwrite buf s (gt.helo ++ [nul])
    let s := s + (gt.helo.length + 1)
    let buf := overwrite buf s (gt.from_ ++ [nul])
    let s := s + (gt.from_.length + 1)
    overwrite buf s (gt.to_ ++ [nul])

/-- `unpack_key`; a type of no key leaves the strings unset. -/
def unpackKey (buf : List Char) : Option DbKey :=
  let type := loadShort order buf
  let buf := buf.drop sizeofShort
  if type = dbKeyIp then some (.ip (cstr buf))
  else if type = dbKeyMail then some (.mail (cstr buf))
  else if type = dbKeyDom then some (.dom (cstr buf))
  else if type = dbKeyTuple then
    let ip := cstr buf
    let buf := buf.drop (ip.length + 1)
    let helo := cstr buf
    let buf := buf.drop (helo.length + 1)
    let from_ := cstr buf
    let buf := buf.drop (from_.length + 1)
    some (.tuple ⟨ip, helo, from_, cstr buf⟩)
  else none

end Records

/-- The strings of a key, in the order of the record. -/
def DbKey.strings : DbKey → List CStr
  | .ip s | .mail s | .dom s => [s]
  | .tuple gt => [gt.ip, gt.helo, gt.from_, gt.to_]

def DbKey.NulFree (key : DbKey) : Prop := ∀ s ∈ key.strings, nul ∉ s

variable {order : ByteOrder}

theorem storeShort_length (n : Int16) : (storeShort order n).length = sizeofShort :=
  order.store_length _

theorem GreyCounters.store_length (gd : GreyCounters) :
    (gd.store order).length = sizeofGreyData := by
  simp only [GreyCounters.store, storeTime, storeInt, List.length_append, ByteOrder.store_length]
  rfl

theorem loadShort_store (n : Int16) (rest : List Char) :
    loadShort order (storeShort order n ++ rest) = n := by
  unfold loadShort storeShort
  rw [ByteOrder.load_store, Int16.ofBitVec_toBitVec]

theorem loadInt_store (n : Int32) (rest : List Char) :
    loadInt order (storeInt order n ++ rest) = n := by
  unfold loadInt storeInt
  rw [ByteOrder.load_store, Int32.ofBitVec_toBitVec]

theorem loadTime_store (n : Int64) (rest : List Char) :
    loadTime order (storeTime order n ++ rest) = n := by
  unfold loadTime storeTime
  rw [ByteOrder.load_store, Int64.ofBitVec_toBitVec]

theorem GreyCounters.load_store (gd : GreyCounters) : load order (gd.store order) = gd := by
  have hpass : (gd.store order).drop 8 = storeTime order gd.pass ++ (storeTime order gd.expire ++
      (storeInt order gd.bcount ++ (storeInt order gd.pcount ++ []))) := by
    simp only [GreyCounters.store, List.append_assoc, List.append_nil]
    exact ByteOrder.drop_store ..
  have hexpire : (gd.store order).drop 16 = storeTime order gd.expire ++
      (storeInt order gd.bcount ++ (storeInt order gd.pcount ++ [])) := by
    rw [show 16 = 8 + 8 from rfl, ← List.drop_drop, hpass]
    exact ByteOrder.drop_store ..
  have hbcount : (gd.store order).drop 24 =
      storeInt order gd.bcount ++ (storeInt order gd.pcount ++ []) := by
    rw [show 24 = 16 + 8 from rfl, ← List.drop_drop, hexpire]
    exact ByteOrder.drop_store ..
  have hpcount : (gd.store order).drop 28 = storeInt order gd.pcount ++ [] := by
    rw [show 28 = 24 + 4 from rfl, ← List.drop_drop, hbcount]
    exact ByteOrder.drop_store ..
  have hfirst : loadTime order (gd.store order) = gd.first := by
    simp only [GreyCounters.store, List.append_assoc]
    exact loadTime_store ..
  unfold load
  rw [hpass, hexpire, hbcount, hpcount, hfirst, loadTime_store, loadTime_store, loadInt_store,
    loadInt_store]

/-! ## Packed bytes -/

/-- Writing where the zeros of a buffer begin. -/
theorem overwrite_zeros (front bytes : List Char) (rest : Nat) {pos zeros : Nat}
    (hpos : pos = front.length) (hzeros : zeros = bytes.length + rest) :
    overwrite (front ++ List.replicate zeros nul) pos bytes =
      front ++ bytes ++ List.replicate rest nul := by
  subst hpos hzeros
  unfold overwrite
  rw [List.take_left, List.drop_length_add_append, List.drop_replicate, Nat.add_sub_cancel_left]

/-- The type goes to the front of a buffer of zeros. -/
theorem overwrite_type (n : Int16) (slen : Nat) :
    overwrite (List.replicate (sizeofShort + slen) nul) 0 (storeShort order n) =
      storeShort order n ++ List.replicate slen nul :=
  overwrite_zeros [] (storeShort order n) slen rfl (by rw [storeShort_length])

theorem packVal_eq (val : DbVal) : packVal order val = storeShort order val.type ++ val.gd.store order := by
  have hgd := overwrite_zeros (storeShort order val.type) (val.gd.store order) 0
    (storeShort_length val.type).symm (GreyCounters.store_length val.gd).symm
  simp only [packVal]
  rw [overwrite_type, hgd, List.replicate_zero, List.append_nil]

/-- A record key is the type and the strings, each with its terminator. -/
theorem packKey_eq (key : DbKey) :
    packKey order key = storeShort order key.type ++ key.strings.flatMap (· ++ [nul]) := by
  have hone : ∀ s, overwrite (packType order key (s.length + 1)) sizeofShort (s ++ [nul]) =
      storeShort order key.type ++ (s ++ [nul]) := by
    intro s
    rw [packType, overwrite_type, overwrite_zeros _ _ 0 (storeShort_length _).symm (by simp),
      List.replicate_zero, List.append_nil]
  cases key with
  | ip s | mail s | dom s => simpa [packKey, DbKey.strings] using hone s
  | tuple gt =>
    simp only [packKey]
    rw [packType, overwrite_type,
      overwrite_zeros _ _ (gt.helo.length + 1 + (gt.from_.length + 1) + (gt.to_.length + 1))
        (storeShort_length _).symm (by simp; omega),
      overwrite_zeros _ _ (gt.from_.length + 1 + (gt.to_.length + 1)) (by simp [storeShort_length])
        (by simp; omega),
      overwrite_zeros _ _ (gt.to_.length + 1) (by simp [storeShort_length]; omega) (by simp),
      overwrite_zeros _ _ 0 (by simp [storeShort_length]; omega) (by simp)]
    simp [DbKey.strings]

/-! ## Reading them back -/

/-- A string read from the front, and what is behind its terminator. -/
theorem drop_string (s : CStr) (rest : List Char) : (s ++ nul :: rest).drop (s.length + 1) = rest := by
  rw [← List.drop_drop, List.drop_left]
  rfl

theorem unpackVal_packVal (val : DbVal) : unpackVal order (packVal order val) = val := by
  rw [packVal_eq]
  have hdrop : (storeShort order val.type ++ val.gd.store order).drop sizeofShort =
      val.gd.store order := ByteOrder.drop_store ..
  unfold unpackVal
  rw [hdrop, loadShort_store, GreyCounters.load_store]

theorem unpackKey_packKey {key : DbKey} (h : key.NulFree) :
    unpackKey order (packKey order key) = some key := by
  rw [packKey_eq]
  have hdrop : (storeShort order key.type ++ key.strings.flatMap (· ++ [nul])).drop sizeofShort =
      key.strings.flatMap (· ++ [nul]) := ByteOrder.drop_store ..
  simp only [unpackKey, hdrop, loadShort_store]
  have hone : ∀ s, key.strings = [s] → cstr (key.strings.flatMap (· ++ [nul])) = s := by
    intro s hs
    have hnul : nul ∉ s := h s (hs ▸ List.mem_singleton_self s)
    rw [hs]
    simpa using cstr_append_nul hnul []
  cases key with
  | ip s => rw [hone s rfl]; rfl
  | mail s => rw [hone s rfl]; rfl
  | dom s => rw [hone s rfl]; rfl
  | tuple gt =>
    obtain ⟨ip, helo, from_, to_⟩ := gt
    have hip : nul ∉ ip := h ip (by simp [DbKey.strings])
    have hhelo : nul ∉ helo := h helo (by simp [DbKey.strings])
    have hfrom : nul ∉ from_ := h from_ (by simp [DbKey.strings])
    have hto : nul ∉ to_ := h to_ (by simp [DbKey.strings])
    have hbytes : (DbKey.tuple ⟨ip, helo, from_, to_⟩).strings.flatMap (· ++ [nul]) =
        ip ++ nul :: (helo ++ nul :: (from_ ++ nul :: (to_ ++ nul :: []))) := by
      simp [DbKey.strings]
    rw [hbytes, cstr_append_nul hip, drop_string, cstr_append_nul hhelo, drop_string,
      cstr_append_nul hfrom, drop_string, cstr_append_nul hto]
    rfl

/-- Different keys have different records, whatever their kinds are. -/
theorem packKey_inj {key key' : DbKey} (h : key.NulFree) (h' : key'.NulFree)
    (heq : packKey order key = packKey order key') : key = key' := by
  have hread := @unpackKey_packKey order _ h
  rw [heq, unpackKey_packKey h'] at hread
  exact (Option.some.inj hread).symm

/-- What is packed is unpacked again, and no two keys share a record. -/
theorem record_coding (order : ByteOrder) (key : DbKey) (h : key.NulFree) (val : DbVal) :
    unpackKey order (packKey order key) = some key ∧ unpackVal order (packVal order val) = val ∧
      ∀ key', key'.NulFree → packKey order key = packKey order key' → key = key' :=
  ⟨unpackKey_packKey h, unpackVal_packVal val, fun _ h' => packKey_inj h h'⟩

/-- A tuple without a sender. -/
theorem record_coding_bounce :
    let key := DbKey.tuple ⟨"10.0.0.1".toList, "h".toList, [], "t@b".toList⟩
    let val : DbVal := ⟨1, ⟨1, 2, 3, 1, -2⟩⟩
    unpackKey .little (packKey .little key) = some key ∧
      unpackVal .little (packVal .little val) = val ∧
      ∀ key', key'.NulFree → packKey .little key = packKey .little key' → key = key' :=
  record_coding .little _ (by unfold DbKey.NulFree; decide) _

/-! ## A file of records -/

/-- The records of a file, under their packed keys. -/
abbrev RecordFile := AList fun _ : List Char => List Char

/-- The file has the record of a key exactly if the map has its data. -/
def Stores (order : ByteOrder) (file : RecordFile) (db : DbFile) : Prop :=
  ∀ key, key.NulFree →
    (file.lookup (packKey order key)).map (fun buf => (unpackVal order buf).gd.data) = db.lookup key

section Files

variable {file : RecordFile} {db : DbFile} {key : DbKey}

theorem stores_empty : Stores order ∅ ∅ := fun _ _ => rfl

theorem Stores.put (h : Stores order file db) (hkey : key.NulFree) (val : DbVal) :
    Stores order (file.insert (packKey order key) (packVal order val)) (db.insert key val.gd.data) := by
  intro key' hkey'
  by_cases hk : key' = key
  · subst hk
    rw [AList.lookup_insert, AList.lookup_insert, Option.map_some, unpackVal_packVal]
  · have hrecord : packKey order key' ≠ packKey order key := fun heq => hk (packKey_inj hkey' hkey heq)
    rw [AList.lookup_insert_ne hrecord, AList.lookup_insert_ne hk, h key' hkey']

theorem Stores.del (h : Stores order file db) (hkey : key.NulFree) :
    Stores order (file.erase (packKey order key)) (db.erase key) := by
  intro key' hkey'
  by_cases hk : key' = key
  · subst hk
    rw [AList.lookup_erase, AList.lookup_erase, Option.map_none]
  · have hrecord : packKey order key' ≠ packKey order key := fun heq => hk (packKey_inj hkey' hkey heq)
    rw [AList.lookup_erase_ne hrecord, AList.lookup_erase_ne hk, h key' hkey']

end Files

end Greyd
