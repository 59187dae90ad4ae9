import V8Malloc.Lib.Wire
import Mathlib.Data.Nat.Bitwise
import Mathlib.Data.List.FinRange

/-!
# Encoding the heap profile

Embedding of the encoder in `v8m_pprof.c`. A writer gets the bytes already in its
buffer, whose number is the source's `off`, and returns them with its own behind
them; `none` is the source's `SIZE_MAX`, a buffer that is too small. Submessages
are built in scratch buffers of fixed size and copied.

Each writer appends the encoding of its fields when there is room for it.
-/
namespace V8Malloc.Pprof

open Wire

/-- `V8M_PUBLIC_NUM_SIZE_CLASSES` -/
def numClasses : ℕ := 41

/-- `V8M_PPROF_BUF_BYTES` -/
def bufBytes : ℕ := 64 * 1024

/-- `struct v8m_size_class_histogram` -/
structure Histogram where
  requestCount : Fin numClasses → UInt64
  requestBytes : Fin numClasses → UInt64
  hugeRequestCount : UInt64
  hugeRequestBytes : UInt64

section Writers

theorem shiftRight_seven_lt {value : UInt64} (hlarge : 0x80 ≤ value) :
    (value >>> 7).toNat < value.toNat := by
  have h : (128 : ℕ) ≤ value.toNat := by simpa using UInt64.le_iff_toNat_le.1 hlarge
  simp only [UInt64.toNat_shiftRight, UInt64.reduceToNat, Nat.reduceMod,
    Nat.shiftRight_eq_div_pow]
  omega

def pbWriteVarint (cap : ℕ) (buf : List UInt8) (value : UInt64) : Option (List UInt8) :=
  if 0x80 ≤ value then
    if cap ≤ buf.length then none
    else pbWriteVarint cap (buf ++ [((value &&& 0x7F) ||| 0x80).toUInt8]) (value >>> 7)
  else if cap ≤ buf.length then none
  else some (buf ++ [(value &&& 0x7F).toUInt8])
termination_by value.toNat
decreasing_by exact shiftRight_seven_lt ‹_›

def pbWriteTag (cap : ℕ) (buf : List UInt8) (field wire : UInt32) : Option (List UInt8) :=
  pbWriteVarint cap buf ((field.toUInt64 <<< 3) ||| wire.toUInt64)

def pbWriteUint64Field (cap : ℕ) (buf : List UInt8) (field : UInt32) (value : UInt64) :
    Option (List UInt8) := do
  let buf ← pbWriteTag cap buf field 0
  pbWriteVarint cap buf value

def pbWriteInt64Field (cap : ℕ) (buf : List UInt8) (field : UInt32) (value : Int64) :
    Option (List UInt8) :=
  pbWriteUint64Field cap buf field value.toUInt64

def pbWriteBytesField (cap : ℕ) (buf : List UInt8) (field : UInt32) (data : List UInt8) :
    Option (List UInt8) := do
  let buf ← pbWriteTag cap buf field 2
  let buf ← pbWriteVarint cap buf (UInt64.ofNat data.length)
  if cap < buf.length + data.length then none else some (buf ++ data)

/-- The bytes of a text without the terminating zero. -/
def ascii (text : String) : List UInt8 :=
  text.toList.map fun c => UInt8.ofNat c.toNat

def pbWriteStringField (cap : ℕ) (buf : List UInt8) (field : UInt32) (str : String) :
    Option (List UInt8) :=
  pbWriteBytesField cap buf field (ascii str)

end Writers

section Messages

def emitValueType (cap : ℕ) (out : List UInt8) (outerField : UInt32) (typeIdx unitIdx : Int64) :
    Option (List UInt8) := do
  let inner ← pbWriteInt64Field 32 [] 1 typeIdx
  let inner ← pbWriteInt64Field 32 inner 2 unitIdx
  pbWriteBytesField cap out outerField inner

def emitFunction (cap : ℕ) (out : List UInt8) (funcId : UInt64) (nameIdx : Int64) :
    Option (List UInt8) := do
  let inner ← pbWriteUint64Field 32 [] 1 funcId
  let inner ← pbWriteInt64Field 32 inner 2 nameIdx
  let inner ← pbWriteInt64Field 32 inner 3 nameIdx
  pbWriteBytesField cap out 5 inner

def emitLocation (cap : ℕ) (out : List UInt8) (locId functionId : UInt64) :
    Option (List UInt8) := do
  let line ← pbWriteUint64Field 16 [] 1 functionId
  let inner ← pbWriteUint64Field 64 [] 1 locId
  let inner ← pbWriteBytesField 64 inner 4 line
  pbWriteBytesField cap out 4 inner

def emitSample (cap : ℕ) (out : List UInt8) (locationId allocCount allocBytes : UInt64) :
    Option (List UInt8) := do
  let locs ← pbWriteVarint 16 [] locationId
  let vals ← pbWriteVarint 32 [] allocCount
  let vals ← pbWriteVarint 32 vals allocBytes
  let inner ← pbWriteBytesField 64 [] 1 locs
  let inner ← pbWriteBytesField 64 inner 2 vals
  pbWriteBytesField cap out 2 inner

def strAllocObjects : Int64 := 1
def strCount : Int64 := 2
def strAllocSpace : Int64 := 3
def strBytes : Int64 := 4
def strFirstClass : Int64 := 5

/-- The digit `n` as a character. -/
def digit (n : ℕ) : UInt8 := UInt8.ofNat ('0'.toNat + n)

def formatClassName (cap cls : ℕ) : List UInt8 :=
  if cap < (ascii "size_class_").length + 4 then []
  else
    ascii "size_class_" ++ (if 100 ≤ cls then [digit (cls / 100)] else []) ++
      (if 10 ≤ cls then [digit (cls / 10 % 10)] else []) ++ [digit (cls % 10)]

def emitSampleTypes (cap : ℕ) (buf : List UInt8) : Option (List UInt8) := do
  let buf ← emitValueType cap buf 1 strAllocObjects strCount
  emitValueType cap buf 1 strAllocSpace strBytes

/-- The loop of the sections over the classes that are alive, then the row of the huge
requests. -/
def emitRows (alive : Fin numClasses → Bool) (hugeAlive : Bool)
    (emit : List UInt8 → Fin numClasses → Option (List UInt8))
    (emitHuge : List UInt8 → Option (List UInt8)) (buf : List UInt8) : Option (List UInt8) := do
  let buf ← (List.finRange numClasses).foldlM
    (fun buf cls => if alive cls then emit buf cls else some buf) buf
  if hugeAlive then emitHuge buf else some buf

/-- The id of a class, also of its location and its function. -/
def classId (cls : Fin numClasses) : UInt64 := UInt64.ofNat cls + 1

def hugeId : UInt64 := UInt64.ofNat numClasses + 1

def emitSamples (cap : ℕ) (buf : List UInt8) (hist : Histogram) (alive : Fin numClasses → Bool)
    (hugeAlive : Bool) : Option (List UInt8) :=
  emitRows alive hugeAlive
    (fun buf cls =>
      emitSample cap buf (classId cls) (hist.requestCount cls) (hist.requestBytes cls))
    (fun buf => emitSample cap buf hugeId hist.hugeRequestCount hist.hugeRequestBytes) buf

def emitLocations (cap : ℕ) (buf : List UInt8) (alive : Fin numClasses → Bool)
    (hugeAlive : Bool) : Option (List UInt8) :=
  emitRows alive hugeAlive (fun buf cls => emitLocation cap buf (classId cls) (classId cls))
    (fun buf => emitLocation cap buf hugeId hugeId) buf

def emitFunctions (cap : ℕ) (buf : List UInt8) (alive : Fin numClasses → Bool)
    (hugeAlive : Bool) : Option (List UInt8) :=
  emitRows alive hugeAlive
    (fun buf cls => emitFunction cap buf (classId cls) (strFirstClass + Int64.ofNat cls))
    (fun buf => emitFunction cap buf hugeId (strFirstClass + Int64.ofNat numClasses)) buf

def fixedStrings : List String := ["", "alloc_objects", "count", "alloc_space", "bytes"]

def emitStringTable (cap : ℕ) (buf : List UInt8) : Option (List UInt8) := do
  let buf ← fixedStrings.foldlM (fun buf str => pbWriteStringField cap buf 6 str) buf
  let buf ← (List.finRange numClasses).foldlM
    (fun buf cls => pbWriteBytesField cap buf 6 (formatClassName 16 cls)) buf
  pbWriteStringField cap buf 6 "huge"

/-- `encode_heap_profile`, of the histogram that `v8m_get_size_class_histogram` returns. -/
def encodeHeapProfile (hist : Histogram) : Option (List UInt8) := do
  let alive := fun cls => decide (0 < hist.requestCount cls)
  let hugeAlive := decide (0 < hist.hugeRequestCount)
  let buf ← emitSampleTypes bufBytes []
  let buf ← emitSamples bufBytes buf hist alive hugeAlive
  let buf ← emitLocations bufBytes buf alive hugeAlive
  let buf ← emitFunctions bufBytes buf alive hugeAlive
  emitStringTable bufBytes buf

end Messages

section Appended

theorem toNat_low_seven (value : UInt64) : (value &&& 0x7F).toNat = value.toNat % 128 := by
  have hmask : (0x7F : UInt64).toNat = 2 ^ 7 - 1 := rfl
  rw [UInt64.toNat_and, hmask, Nat.and_two_pow_sub_one_eq_mod]

theorem last_byte {value : UInt64} (hsmall : value.toNat < 128) :
    (value &&& 0x7F).toUInt8 = UInt8.ofNat value.toNat := by
  apply UInt8.toNat_inj.1
  rw [UInt64.toNat_toUInt8, toNat_low_seven, UInt8.toNat_ofNat', Nat.mod_eq_of_lt hsmall]

theorem more_byte (value : UInt64) :
    ((value &&& 0x7F) ||| 0x80).toUInt8 = UInt8.ofNat (value.toNat % 128 + 128) := by
  have hlow : value.toNat % 128 < 2 ^ 7 := by omega
  have hbit : (0x80 : UInt64).toNat = 2 ^ 7 * 1 := rfl
  apply UInt8.toNat_inj.1
  rw [UInt64.toNat_toUInt8, UInt64.toNat_or, toNat_low_seven, hbit, Nat.or_comm,
    ← Nat.two_pow_add_eq_or_of_lt hlow, UInt8.toNat_ofNat']
  omega

theorem toNat_shiftRight_seven (value : UInt64) : (value >>> 7).toNat = value.toNat / 128 := by
  simp [UInt64.toNat_shiftRight, Nat.shiftRight_eq_div_pow]

theorem le_iff_toNat (value : UInt64) : 0x80 ≤ value ↔ ¬ value.toNat < 128 := by
  rw [UInt64.le_iff_toNat_le, not_lt]
  rfl

theorem appends_varint (cap : ℕ) (value : UInt64) :
    Appends cap (pbWriteVarint cap · value) (encodeVarint value.toNat) := by
  intro out hroom
  beta_reduce
  have hpos := List.length_pos_iff.2 (encodeVarint_ne_nil value.toNat)
  -- along the writer's own loop: every round adds one byte to both sides
  fun_induction pbWriteVarint cap out value with
  | case1 out value hlarge hfull => omega
  | case2 out value hlarge hfull ih =>
    have hsplit : encodeVarint value.toNat =
        UInt8.ofNat (value.toNat % 128 + 128) :: encodeVarint (value.toNat / 128) := by
      rw [encodeVarint, if_neg ((le_iff_toNat value).1 hlarge)]
    rw [toNat_shiftRight_seven] at ih
    rw [hsplit, List.length_cons] at hroom
    rw [ih (by rw [List.length_append, List.length_singleton]; omega)
      (List.length_pos_iff.2 (encodeVarint_ne_nil _)), more_byte, hsplit]
    simp
  | case3 out value hsmall hfull => omega
  | case4 out value hsmall hfull =>
    rw [le_iff_toNat, not_not] at hsmall
    rw [encodeVarint, if_pos hsmall, last_byte hsmall]

theorem toNat_tag {field wire : UInt32} (hfield : field.toNat < 2 ^ 29) (hwire : wire.toNat < 8) :
    ((field.toUInt64 <<< 3) ||| wire.toUInt64).toNat = field.toNat * 8 + wire.toNat := by
  have hshift : (field.toUInt64 <<< 3).toNat = 2 ^ 3 * field.toNat := by
    simp only [UInt64.toNat_shiftLeft, UInt32.toNat_toUInt64, UInt64.reduceToNat, Nat.reduceMod,
      Nat.shiftLeft_eq]
    omega
  rw [UInt64.toNat_or, hshift, UInt32.toNat_toUInt64, ← Nat.two_pow_add_eq_or_of_lt hwire]
  omega

theorem appends_tag (cap : ℕ) {field wire : UInt32} (hfield : field.toNat < 2 ^ 29)
    (hwire : wire.toNat < 8) :
    Appends cap (pbWriteTag cap · field wire) (encodeVarint (field.toNat * 8 + wire.toNat)) := by
  rw [← toNat_tag hfield hwire]
  exact appends_varint cap _

theorem appends_uint64Field (cap : ℕ) (field : UInt32) (hfield : field.toNat < 2 ^ 29)
    (value : UInt64) :
    Appends cap (pbWriteUint64Field cap · field value)
      (encodeField ⟨field.toNat, .varint value.toNat⟩) :=
  (appends_tag cap hfield (by decide)).andThen (appends_varint cap value)

theorem appends_bytesField (cap : ℕ) (field : UInt32) (hfield : field.toNat < 2 ^ 29)
    {data : List UInt8} (hdata : data.length < 2 ^ 64) :
    Appends cap (pbWriteBytesField cap · field data) (encodeField ⟨field.toNat, .bytes data⟩) := by
  have hlength : (UInt64.ofNat data.length).toNat = data.length :=
    (UInt64.toNat_ofNat').trans (Nat.mod_eq_of_lt hdata)
  have hcopy : Appends cap (fun buf => if cap < buf.length + data.length then none
      else some (buf ++ data)) data := by
    intro buf hroom
    simp [not_lt.2 hroom]
  have hcount := appends_varint cap (UInt64.ofNat data.length)
  rw [hlength] at hcount
  exact (appends_tag cap hfield (by decide)).andThen (hcount.andThen hcopy)

/-- A writer with a scratch buffer of its own leaves there what it adds. -/
theorem scratch {cap : ℕ} {write : List UInt8 → Option (List UInt8)} {bytes : List UInt8}
    (hwrite : Appends cap write bytes) (hroom : bytes.length ≤ cap) : write [] = some bytes := by
  simpa using hwrite [] (by simpa using hroom)

theorem length_varint_le (value : UInt64) : (encodeVarint value.toNat).length ≤ 10 :=
  length_encodeVarint_le (k := 9) (value.toNat_lt.trans (by decide))

end Appended

section Fields

def valueTypeFields (typeIdx unitIdx : ℕ) : List Field :=
  [⟨1, .varint typeIdx⟩, ⟨2, .varint unitIdx⟩]

def functionFields (id name : ℕ) : List Field :=
  [⟨1, .varint id⟩, ⟨2, .varint name⟩, ⟨3, .varint name⟩]

def lineFields (functionId : ℕ) : List Field :=
  [⟨1, .varint functionId⟩]

def locationFields (id functionId : ℕ) : List Field :=
  [⟨1, .varint id⟩, message 4 (lineFields functionId)]

def sampleFields (location count bytes : ℕ) : List Field :=
  [⟨1, .bytes (encodePacked [location])⟩, ⟨2, .bytes (encodePacked [count, bytes])⟩]

theorem length_smallField {number value : ℕ} (hnumber : number < 16) (hvalue : value < 128) :
    (encodeField ⟨number, .varint value⟩).length = 2 := by
  rw [length_encodeField_varint hnumber, length_encodeVarint_small hvalue]

theorem length_valueType {typeIdx unitIdx : ℕ} (htype : typeIdx < 128) (hunit : unitIdx < 128) :
    (encodeFields (valueTypeFields typeIdx unitIdx)).length = 4 := by
  rw [valueTypeFields, encodeFields_cons, encodeFields_singleton, List.length_append,
    length_smallField (by decide) htype, length_smallField (by decide) hunit]

theorem length_function {id name : ℕ} (hid : id < 128) (hname : name < 128) :
    (encodeFields (functionFields id name)).length = 6 := by
  rw [functionFields, encodeFields_cons, encodeFields_cons, encodeFields_singleton, List.length_append,
    List.length_append, length_smallField (by decide) hid, length_smallField (by decide) hname,
    length_smallField (by decide) hname]

theorem length_line {functionId : ℕ} (hfunction : functionId < 128) :
    (encodeFields (lineFields functionId)).length = 2 := by
  rw [lineFields, encodeFields_singleton, length_smallField (by decide) hfunction]

theorem length_location {id functionId : ℕ} (hid : id < 128) (hfunction : functionId < 128) :
    (encodeFields (locationFields id functionId)).length = 6 := by
  have hline := length_line hfunction
  rw [locationFields, encodeFields_cons, encodeFields_singleton, List.length_append,
    length_smallField (by decide) hid, message, length_encodeField_bytes (by decide) (by omega),
    hline]

theorem length_packed_small {n : ℕ} (hn : n < 128) : (encodePacked [n]).length = 1 := by
  rw [encodePacked_singleton, length_encodeVarint_small hn]

theorem length_packed_pair (m n : UInt64) : (encodePacked [m.toNat, n.toNat]).length ≤ 20 := by
  rw [encodePacked_pair, List.length_append]
  exact Nat.add_le_add (length_varint_le m) (length_varint_le n)

theorem length_sample {location : ℕ} (hlocation : location < 128) (count bytes : UInt64) :
    (encodeFields (sampleFields location count.toNat bytes.toNat)).length ≤ 25 := by
  have hlocs := length_packed_small hlocation
  have hvals := length_packed_pair count bytes
  rw [sampleFields, encodeFields_cons, encodeFields_singleton, List.length_append,
    length_encodeField_bytes (by decide) (by omega), length_encodeField_bytes (by decide) (by omega)]
  omega

/-- A submessage is written to a scratch buffer of `size` bytes and copied. -/
theorem appends_message (cap : ℕ) (field : UInt32) (hfield : field.toNat < 2 ^ 29) {size : ℕ}
    (hsize : size < 2 ^ 64) {write : List UInt8 → Option (List UInt8)} {fs : List Field}
    (hwrite : Appends size write (encodeFields fs)) (hroom : (encodeFields fs).length ≤ size) :
    Appends cap (fun out => write [] >>= pbWriteBytesField cap out field)
      (encodeField (message field.toNat fs)) := by
  intro out hout
  have hinner := scratch hwrite hroom
  have hcopy := appends_bytesField cap field hfield (hroom.trans_lt hsize) out hout
  rw [hinner]
  exact hcopy

theorem appends_valueType (cap : ℕ) (typeIdx unitIdx : Int64)
    (htype : typeIdx.toUInt64.toNat < 128) (hunit : unitIdx.toUInt64.toNat < 128) :
    Appends cap (emitValueType cap · 1 typeIdx unitIdx)
      (encodeField (message 1 (valueTypeFields typeIdx.toUInt64.toNat unitIdx.toUInt64.toNat))) := by
  have hinner := (appends_uint64Field 32 1 (by decide) typeIdx.toUInt64).andThen
    (appends_uint64Field 32 2 (by decide) unitIdx.toUInt64)
  simp only [← encodeFields_singleton, ← encodeFields_append] at hinner
  have hroom := length_valueType htype hunit
  have hmessage := appends_message cap 1 (by decide) (by decide) hinner
    (hroom.trans_le (by decide))
  simp only [bind_assoc] at hmessage
  exact hmessage

theorem appends_function (cap : ℕ) {funcId : UInt64} {nameIdx : Int64}
    (hid : funcId.toNat < 128) (hname : nameIdx.toUInt64.toNat < 128) :
    Appends cap (emitFunction cap · funcId nameIdx)
      (encodeField (message 5 (functionFields funcId.toNat nameIdx.toUInt64.toNat))) := by
  have hinner := ((appends_uint64Field 32 1 (by decide) funcId).andThen
    (appends_uint64Field 32 2 (by decide) nameIdx.toUInt64)).andThen
    (appends_uint64Field 32 3 (by decide) nameIdx.toUInt64)
  simp only [← encodeFields_singleton, ← encodeFields_append] at hinner
  have hroom := length_function hid hname
  have hmessage := appends_message cap 5 (by decide) (by decide) hinner
    (hroom.trans_le (by decide))
  simp only [bind_assoc] at hmessage
  exact hmessage

theorem appends_location (cap : ℕ) {locId functionId : UInt64} (hid : locId.toNat < 128)
    (hfunction : functionId.toNat < 128) :
    Appends cap (emitLocation cap · locId functionId)
      (encodeField (message 4 (locationFields locId.toNat functionId.toNat))) := by
  have hlength := length_line hfunction
  have hline := appends_uint64Field 16 1 (by decide) functionId
  rw [← encodeFields_singleton] at hline
  have hscratch := scratch hline (hlength.trans_le (by decide))
  have hinner := (appends_uint64Field 64 1 (by decide) locId).andThen
    (appends_bytesField 64 4 (by decide) (hlength.trans_lt (by decide)))
  simp only [← encodeFields_singleton, ← encodeFields_append] at hinner
  have hroom := length_location hid hfunction
  have hmessage := appends_message cap 4 (by decide) (by decide) hinner (hroom.trans_le (by decide))
  simp only [bind_assoc] at hmessage
  intro out hout
  simp only [emitLocation, hscratch]
  exact hmessage out hout

theorem appends_sample (cap : ℕ) {locationId : UInt64} (hid : locationId.toNat < 128)
    (allocCount allocBytes : UInt64) :
    Appends cap (emitSample cap · locationId allocCount allocBytes)
      (encodeField (message 2 (sampleFields locationId.toNat allocCount.toNat allocBytes.toNat))) := by
  have hlocsLength := length_packed_small hid
  have hvalsLength := length_packed_pair allocCount allocBytes
  have hloc := appends_varint 16 locationId
  have hval := (appends_varint 32 allocCount).andThen (appends_varint 32 allocBytes)
  rw [← encodePacked_singleton] at hloc
  rw [← encodePacked_pair] at hval
  have hlocs := scratch hloc (hlocsLength.trans_le (by decide))
  have hvals := scratch hval (hvalsLength.trans (by decide))
  have hinner := (appends_bytesField 64 1 (by decide) (hlocsLength.trans_lt (by decide))).andThen
    (appends_bytesField 64 2 (by decide) (hvalsLength.trans_lt (by decide)))
  simp only [← encodeFields_singleton, ← encodeFields_append] at hinner
  have hroom := length_sample hid allocCount allocBytes
  have hmessage := appends_message cap 2 (by decide) (by decide) hinner (hroom.trans (by decide))
  simp only [bind_assoc] at hmessage
  intro out hout
  simp only [emitSample, hlocs, Option.bind_eq_bind, Option.bind_some] at hvals ⊢
  rw [← Option.bind_assoc, hvals]
  exact hmessage out hout

end Fields

end V8Malloc.Pprof
