import V8Malloc.Pprof.Encode
import Mathlib.Data.Fintype.Option

/-!
# Reading the heap profile back

A reader of `Profile` messages by the field numbers of `profile.proto`, and the
round trip: what the encoder writes for a histogram is read back as one sample a
class that has requests, with the locations, functions and names it refers to.
-/
namespace V8Malloc.Pprof

open Wire

section Reader

structure ValueType where
  type : ℕ
  unit : ℕ
  deriving DecidableEq, Repr

structure Sample where
  locationId : List ℕ
  value : List ℕ
  deriving DecidableEq, Repr

structure Line where
  functionId : ℕ
  line : ℕ
  deriving DecidableEq, Repr

structure Location where
  id : ℕ
  mappingId : ℕ
  address : ℕ
  lines : List Line
  deriving DecidableEq, Repr

structure ProfileFunction where
  id : ℕ
  name : ℕ
  systemName : ℕ
  filename : ℕ
  startLine : ℕ
  deriving DecidableEq, Repr

structure Profile where
  sampleType : List ValueType
  sample : List Sample
  location : List Location
  function : List ProfileFunction
  stringTable : List (List UInt8)
  deriving DecidableEq, Repr

/-- A scalar field: the last value given, zero if there is none. -/
def scalar (number : ℕ) (fs : List Field) : ℕ :=
  fs.foldl (fun value f =>
    match f.payload with
    | .varint v => if f.number = number then v else value
    | .bytes _ => value) 0

/-- A repeated scalar field, packed or not. -/
def scalars (number : ℕ) : List Field → Option (List ℕ)
  | [] => some []
  | f :: fs => do
    let rest ← scalars number fs
    if f.number = number then
      match f.payload with
      | .varint v => some (v :: rest)
      | .bytes data => (decodePacked data).map (· ++ rest)
    else some rest

/-- A repeated field of strings or submessages. -/
def messages (number : ℕ) (fs : List Field) : List (List UInt8) :=
  fs.filterMap fun f =>
    match f.payload with
    | .varint _ => none
    | .bytes data => if f.number = number then some data else none

def parseValueType (bytes : List UInt8) : Option ValueType := do
  let fs ← decodeMessage bytes
  return ⟨scalar 1 fs, scalar 2 fs⟩

def parseSample (bytes : List UInt8) : Option Sample := do
  let fs ← decodeMessage bytes
  return ⟨← scalars 1 fs, ← scalars 2 fs⟩

def parseLine (bytes : List UInt8) : Option Line := do
  let fs ← decodeMessage bytes
  return ⟨scalar 1 fs, scalar 2 fs⟩

def parseLocation (bytes : List UInt8) : Option Location := do
  let fs ← decodeMessage bytes
  return ⟨scalar 1 fs, scalar 2 fs, scalar 3 fs, ← (messages 4 fs).mapM parseLine⟩

def parseFunction (bytes : List UInt8) : Option ProfileFunction := do
  let fs ← decodeMessage bytes
  return ⟨scalar 1 fs, scalar 2 fs, scalar 3 fs, scalar 4 fs, scalar 5 fs⟩

def parseProfile (bytes : List UInt8) : Option Profile := do
  let fs ← decodeMessage bytes
  return {
    sampleType := ← (messages 1 fs).mapM parseValueType
    sample := ← (messages 2 fs).mapM parseSample
    location := ← (messages 4 fs).mapM parseLocation
    function := ← (messages 5 fs).mapM parseFunction
    stringTable := messages 6 fs }

end Reader

section Rows

/-- A size class, or the requests above the last one. -/
abbrev Row := Option (Fin numClasses)

def rowId : Row → ℕ
  | some cls => cls + 1
  | none => numClasses + 1

def rowCount (hist : Histogram) : Row → UInt64
  | some cls => hist.requestCount cls
  | none => hist.hugeRequestCount

def rowBytes (hist : Histogram) : Row → UInt64
  | some cls => hist.requestBytes cls
  | none => hist.hugeRequestBytes

def rowName : Row → List UInt8
  | some cls => ascii ("size_class_" ++ toString cls.val)
  | none => ascii "huge"

def allRows : List Row := (List.finRange numClasses).map some ++ [none]

/-- The rows with requests, in class order. -/
def liveRows (hist : Histogram) : List Row :=
  allRows.filter fun row => 0 < rowCount hist row

def stringTable : List (List UInt8) :=
  fixedStrings.map ascii ++ allRows.map rowName

theorem formatClassName_eq (cls : Fin numClasses) :
    formatClassName 16 cls = rowName (some cls) := by
  revert cls
  decide

theorem length_of_mem_stringTable : ∀ str ∈ stringTable, str.length ≤ 13 := by
  decide

theorem stringTable_rowName (row : Row) : stringTable[4 + rowId row]? = some (rowName row) := by
  revert row
  decide

theorem rowId_lt (row : Row) : rowId row < 128 := by
  revert row
  decide

theorem rowId_injective : Function.Injective rowId := by
  rintro (_ | a) (_ | b) hab <;> simp only [rowId] at hab
  · rfl
  · omega
  · omega
  · rw [Fin.ext (Nat.succ_injective hab)]

theorem toNat_classId (cls : Fin numClasses) : (classId cls).toNat = rowId (some cls) := by
  revert cls
  decide

theorem toNat_nameIdx (cls : Fin numClasses) :
    (strFirstClass + Int64.ofNat cls).toUInt64.toNat = 4 + rowId (some cls) := by
  revert cls
  decide

theorem allRows_nodup : allRows.Nodup := by
  decide

theorem liveRows_nodup (hist : Histogram) : (liveRows hist).Nodup :=
  allRows_nodup.filter _

theorem length_liveRows_le (hist : Histogram) : (liveRows hist).length ≤ 42 :=
  List.length_filter_le _ allRows

end Rows

section Written

variable {cap : ℕ} (hist : Histogram)

/-- Rows without requests add nothing. -/
theorem flatMap_liveRows (added : Row → List UInt8) : (liveRows hist).flatMap added =
    allRows.flatMap fun row => if decide (0 < rowCount hist row) then added row else [] := by
  unfold liveRows
  induction allRows with
  | nil => rfl
  | cons row rows ih => by_cases h : 0 < rowCount hist row <;> simp [h, ih]

/-- A writer that is skipped unless `b` holds. -/
theorem appends_ite {write : List UInt8 → Option (List UInt8)} {bytes : List UInt8} {b : Bool}
    (hwrite : Appends cap write bytes) :
    Appends cap (fun out => if b then write out else some out) (if b then bytes else []) := by
  cases b
  · exact Appends.nil
  · exact hwrite

theorem appends_rows {emit : List UInt8 → Fin numClasses → Option (List UInt8)}
    {emitHuge : List UInt8 → Option (List UInt8)} {added : Row → List UInt8}
    (hemit : ∀ cls, Appends cap (emit · cls) (added (some cls)))
    (hhuge : Appends cap emitHuge (added none)) :
    Appends cap (emitRows (fun cls => decide (0 < hist.requestCount cls))
      (decide (0 < hist.hugeRequestCount)) emit emitHuge) ((liveRows hist).flatMap added) := by
  have hclasses := Appends.foldlM fun cls (_ : cls ∈ List.finRange numClasses) =>
    appends_ite (b := decide (0 < hist.requestCount cls)) (hemit cls)
  have hrows := hclasses.andThen (appends_ite (b := decide (0 < hist.hugeRequestCount)) hhuge)
  have hlist : (liveRows hist).flatMap added =
      ((List.finRange numClasses).flatMap fun cls =>
        if decide (0 < hist.requestCount cls) then added (some cls) else []) ++
      if decide (0 < hist.hugeRequestCount) then added none else [] := by
    rw [flatMap_liveRows, allRows, List.flatMap_append, List.flatMap_map, List.flatMap_singleton]
    rfl
  rw [hlist]
  exact hrows

theorem appends_samples :
    Appends cap (emitSamples cap · hist (fun cls => decide (0 < hist.requestCount cls))
      (decide (0 < hist.hugeRequestCount)))
      (encodeFields ((liveRows hist).map fun row =>
        message 2 (sampleFields (rowId row) (rowCount hist row).toNat (rowBytes hist row).toNat))) := by
  rw [encodeFields, List.flatMap_map]
  apply appends_rows
  · intro cls
    have hsample := appends_sample cap (toNat_classId cls ▸ rowId_lt _) (hist.requestCount cls)
      (hist.requestBytes cls)
    rw [toNat_classId] at hsample
    exact hsample
  · have hid : hugeId.toNat < 128 := by decide
    exact appends_sample cap hid hist.hugeRequestCount hist.hugeRequestBytes

theorem appends_locations :
    Appends cap (emitLocations cap · (fun cls => decide (0 < hist.requestCount cls))
      (decide (0 < hist.hugeRequestCount)))
      (encodeFields ((liveRows hist).map fun row => message 4 (locationFields (rowId row) (rowId row)))) := by
  rw [encodeFields, List.flatMap_map]
  apply appends_rows
  · intro cls
    have hid : (classId cls).toNat < 128 := toNat_classId cls ▸ rowId_lt _
    have hlocation := appends_location cap hid hid
    rw [toNat_classId] at hlocation
    exact hlocation
  · have hid : hugeId.toNat < 128 := by decide
    exact appends_location cap hid hid

theorem appends_functions :
    Appends cap (emitFunctions cap · (fun cls => decide (0 < hist.requestCount cls))
      (decide (0 < hist.hugeRequestCount)))
      (encodeFields ((liveRows hist).map fun row => message 5 (functionFields (rowId row) (4 + rowId row)))) := by
  rw [encodeFields, List.flatMap_map]
  apply appends_rows
  · intro cls
    have hrow := rowId_lt (some cls)
    have hid : (classId cls).toNat < 128 := toNat_classId cls ▸ hrow
    have hname : (strFirstClass + Int64.ofNat cls).toUInt64.toNat < 128 := by
      rw [toNat_nameIdx, rowId]
      have := cls.isLt
      simp only [numClasses] at this
      omega
    have hfunction := appends_function cap hid hname
    rw [toNat_classId, toNat_nameIdx] at hfunction
    exact hfunction
  · have hid : hugeId.toNat < 128 := by decide
    have hname : (strFirstClass + Int64.ofNat numClasses).toUInt64.toNat < 128 := by decide
    exact appends_function cap hid hname

def stringField (str : List UInt8) : Field := ⟨6, .bytes str⟩

theorem appends_string {str : List UInt8} (hstr : str.length ≤ 13) :
    Appends cap (pbWriteBytesField cap · 6 str) (encodeField (stringField str)) :=
  appends_bytesField cap 6 (by decide) (hstr.trans_lt (by decide))

theorem length_rowName_le (row : Row) : (rowName row).length ≤ 13 :=
  length_of_mem_stringTable _ (List.mem_of_getElem? (stringTable_rowName row))

theorem appends_stringTable :
    Appends cap (emitStringTable cap) (encodeFields (stringTable.map stringField)) := by
  have hstring : ∀ str : List UInt8, str.length ≤ 13 →
      Appends cap (pbWriteBytesField cap · 6 str) (encodeField (stringField str)) :=
    fun _ => appends_string
  have hfixed := Appends.foldlM fun str (hstr : str ∈ fixedStrings) =>
    hstring (ascii str)
      (length_of_mem_stringTable _ (List.mem_append_left _ (List.mem_map_of_mem hstr)))
  have hclasses := Appends.foldlM fun cls (_ : cls ∈ List.finRange numClasses) =>
    hstring (formatClassName 16 cls) (formatClassName_eq cls ▸ length_rowName_le (some cls))
  have htable := hfixed.andThen (hclasses.andThen (hstring (ascii "huge") (by decide)))
  have hlist : encodeFields (stringTable.map stringField) =
      (fixedStrings.flatMap fun str => encodeField (stringField (ascii str))) ++
      (((List.finRange numClasses).flatMap fun cls : Fin numClasses =>
        encodeField (stringField (formatClassName 16 cls))) ++
        encodeField (stringField (ascii "huge"))) := by
    simp only [formatClassName_eq]
    simp [encodeFields, stringTable, allRows, List.flatMap_map, rowName]
  rw [hlist]
  exact htable

def profileFields : List Field :=
  [message 1 (valueTypeFields 1 2), message 1 (valueTypeFields 3 4)] ++
    ((liveRows hist).map (fun row =>
        message 2 (sampleFields (rowId row) (rowCount hist row).toNat (rowBytes hist row).toNat)) ++
      ((liveRows hist).map (fun row => message 4 (locationFields (rowId row) (rowId row))) ++
        ((liveRows hist).map (fun row => message 5 (functionFields (rowId row) (4 + rowId row))) ++
          stringTable.map stringField)))

theorem length_message_le (number : ℕ) {k : ℕ} {fs : List Field} (hnumber : number < 16)
    (hfs : (encodeFields fs).length ≤ k) (hk : k < 128) :
    (encodeField (message number fs)).length ≤ 2 + k := by
  rw [message, length_encodeField_bytes hnumber (hfs.trans_lt hk)]
  omega

/-- The fields of one section take at most `k` bytes a row. -/
theorem length_section_le {field : Row → Field} {k : ℕ}
    (hfield : ∀ row, (encodeField (field row)).length ≤ k) :
    (encodeFields ((liveRows hist).map field)).length ≤ 42 * k := by
  have hrows := length_liveRows_le hist
  have hlength : (encodeFields ((liveRows hist).map field)).length ≤
      ((liveRows hist).map field).length * k := by
    apply length_encodeFields_le
    simp [hfield]
  rw [List.length_map] at hlength
  exact hlength.trans (Nat.mul_le_mul_right k hrows)

theorem rowName_idx_lt (row : Row) : 4 + rowId row < 128 := by
  revert row
  decide

theorem length_profile_le : (encodeFields (profileFields hist)).length ≤ bufBytes := by
  have htypes : (encodeFields [message 1 (valueTypeFields 1 2), message 1 (valueTypeFields 3 4)]).length ≤ 2 * 6 := by
    apply length_encodeFields_le
    intro f hf
    simp only [List.mem_cons, List.not_mem_nil, or_false] at hf
    rcases hf with rfl | rfl <;>
      exact length_message_le 1 (by decide) (length_valueType (by decide) (by decide)).le (by decide)
  have hsamples := length_section_le hist fun row =>
    length_message_le 2 (by decide)
      (length_sample (rowId_lt row) (rowCount hist row) (rowBytes hist row)) (by decide)
  have hlocations := length_section_le hist fun row =>
    length_message_le 4 (by decide) (length_location (rowId_lt row) (rowId_lt row)).le
      (by decide)
  have hfunctions := length_section_le hist fun row =>
    length_message_le 5 (by decide)
      (length_function (rowId_lt row) (rowName_idx_lt row)).le (by decide)
  have hstrings : (encodeFields (stringTable.map stringField)).length ≤ 47 * 15 := by
    apply length_encodeFields_le
    intro f hf
    obtain ⟨str, hstr, rfl⟩ := List.mem_map.1 hf
    have hlength := length_of_mem_stringTable str hstr
    rw [stringField, length_encodeField_bytes (by decide) (by omega)]
    omega
  simp only [profileFields, encodeFields_append, List.length_append, bufBytes]
  omega

theorem appends_sampleTypes :
    Appends cap (emitSampleTypes cap)
      (encodeFields [message 1 (valueTypeFields 1 2), message 1 (valueTypeFields 3 4)]) := by
  rw [encodeFields_cons, encodeFields_singleton]
  exact (appends_valueType cap strAllocObjects strCount (by decide) (by decide)).andThen
    (appends_valueType cap strAllocSpace strBytes (by decide) (by decide))

/-- The encoder never runs out of room, and writes the fields of the profile. -/
theorem encodeHeapProfile_eq :
    encodeHeapProfile hist = some (encodeFields (profileFields hist)) := by
  have htypes : Appends bufBytes _ _ := appends_sampleTypes
  have hsections := htypes.andThen ((appends_samples hist).andThen
    ((appends_locations hist).andThen ((appends_functions hist).andThen appends_stringTable)))
  simp only [← encodeFields_append] at hsections
  exact scratch hsections (length_profile_le hist)

end Written

section Read

variable (hist : Histogram)

def rowSample (row : Row) : Sample :=
  ⟨[rowId row], [(rowCount hist row).toNat, (rowBytes hist row).toNat]⟩

def rowLocation (row : Row) : Location := ⟨rowId row, 0, 0, [⟨rowId row, 0⟩]⟩

def rowFunction (row : Row) : ProfileFunction := ⟨rowId row, 4 + rowId row, 4 + rowId row, 0, 0⟩

/-- The profile that is read back. -/
def decodedProfile : Profile :=
  { sampleType := [⟨1, 2⟩, ⟨3, 4⟩]
    sample := (liveRows hist).map (rowSample hist)
    location := (liveRows hist).map rowLocation
    function := (liveRows hist).map rowFunction
    stringTable := stringTable }

theorem valid_varint {number value : ℕ} (hpos : 0 < number) (hnumber : number < 16)
    (hvalue : value < 128) : (⟨number, .varint value⟩ : Field).Valid :=
  ⟨hpos, hnumber.trans (by decide), hvalue.trans (by decide)⟩

theorem valid_bytes {number : ℕ} {data : List UInt8} (hpos : 0 < number) (hnumber : number < 16)
    (hdata : data.length < 128) : (⟨number, .bytes data⟩ : Field).Valid :=
  ⟨hpos, hnumber.trans (by decide), hdata.trans (by decide)⟩

theorem parseValueType_eq {typeIdx unitIdx : ℕ} (htype : typeIdx < 128) (hunit : unitIdx < 128) :
    parseValueType (encodeFields (valueTypeFields typeIdx unitIdx)) =
      some ⟨typeIdx, unitIdx⟩ := by
  have hvalid : ∀ f ∈ valueTypeFields typeIdx unitIdx, f.Valid := by
    simp [valueTypeFields, valid_varint, htype, hunit]
  rw [parseValueType, decodeMessage_encodeFields hvalid]
  simp [scalar, valueTypeFields]

theorem parseFunction_eq {id name : ℕ} (hid : id < 128) (hname : name < 128) :
    parseFunction (encodeFields (functionFields id name)) = some ⟨id, name, name, 0, 0⟩ := by
  have hvalid : ∀ f ∈ functionFields id name, f.Valid := by
    simp [functionFields, valid_varint, hid, hname]
  rw [parseFunction, decodeMessage_encodeFields hvalid]
  simp [scalar, functionFields]

theorem parseLine_eq {functionId : ℕ} (hfunction : functionId < 128) :
    parseLine (encodeFields (lineFields functionId)) = some ⟨functionId, 0⟩ := by
  have hvalid : ∀ f ∈ lineFields functionId, f.Valid := by
    simp [lineFields, valid_varint, hfunction]
  rw [parseLine, decodeMessage_encodeFields hvalid]
  simp [scalar, lineFields]

theorem parseLocation_eq {id functionId : ℕ} (hid : id < 128) (hfunction : functionId < 128) :
    parseLocation (encodeFields (locationFields id functionId)) =
      some ⟨id, 0, 0, [⟨functionId, 0⟩]⟩ := by
  have hvalid : ∀ f ∈ locationFields id functionId, f.Valid := by
    simp [locationFields, message, valid_varint, valid_bytes, length_line, hid, hfunction]
  rw [parseLocation, decodeMessage_encodeFields hvalid]
  simp [scalar, messages, locationFields, message, parseLine_eq hfunction]

theorem parseSample_eq {location : ℕ} (hlocation : location < 128) (count bytes : UInt64) :
    parseSample (encodeFields (sampleFields location count.toNat bytes.toNat)) =
      some ⟨[location], [count.toNat, bytes.toNat]⟩ := by
  have hlocs := length_packed_small hlocation
  have hvals := length_packed_pair count bytes
  have hvalid : ∀ f ∈ sampleFields location count.toNat bytes.toNat, f.Valid := by
    rw [sampleFields, List.forall_mem_cons, List.forall_mem_singleton]
    exact ⟨valid_bytes (by decide) (by decide) (by omega),
      valid_bytes (by decide) (by decide) (by omega)⟩
  have hids : ∀ n ∈ [location], n < 2 ^ 64 := by
    simpa using hlocation.trans (by decide)
  have hvalues : ∀ n ∈ [count.toNat, bytes.toNat], n < 2 ^ 64 := by
    simpa using ⟨count.toNat_lt, bytes.toNat_lt⟩
  rw [parseSample, decodeMessage_encodeFields hvalid]
  simp [scalars, sampleFields, decodePacked_encodePacked hids, decodePacked_encodePacked hvalues]

theorem mapM_liveRows {β : Type} {read : List UInt8 → Option β} {bytes : Row → List UInt8}
    {entry : Row → β} (hread : ∀ row, read (bytes row) = some (entry row)) :
    ((liveRows hist).map bytes).mapM read = some ((liveRows hist).map entry) := by
  rw [List.mapM_map, show read ∘ bytes = fun row => pure (entry row) from funext hread]
  exact List.mapM_pure

theorem valid_message {number k : ℕ} {fs : List Field} (hpos : 0 < number) (hnumber : number < 16)
    (hfs : (encodeFields fs).length ≤ k) (hk : k < 128) : (message number fs).Valid :=
  valid_bytes hpos hnumber (hfs.trans_lt hk)

theorem valid_profileFields : ∀ f ∈ profileFields hist, f.Valid := by
  intro f hf
  simp only [profileFields, List.mem_append, List.mem_cons, List.not_mem_nil, or_false,
    List.mem_map] at hf
  rcases hf with (rfl | rfl) | ⟨row, -, rfl⟩ | ⟨row, -, rfl⟩ | ⟨row, -, rfl⟩ | ⟨str, hstr, rfl⟩
  · exact valid_message (by decide) (by decide) (length_valueType (by decide) (by decide)).le
      (by decide)
  · exact valid_message (by decide) (by decide) (length_valueType (by decide) (by decide)).le
      (by decide)
  · exact valid_message (by decide) (by decide)
      (length_sample (rowId_lt row) (rowCount hist row) (rowBytes hist row)) (by decide)
  · exact valid_message (by decide) (by decide) (length_location (rowId_lt row) (rowId_lt row)).le
      (by decide)
  · exact valid_message (by decide) (by decide)
      (length_function (rowId_lt row) (rowName_idx_lt row)).le (by decide)
  · exact valid_bytes (by decide) (by decide)
      ((length_of_mem_stringTable str hstr).trans_lt (by decide))

/-- Reading gives the profile back, and no byte is left. -/
theorem parseProfile_eq :
    parseProfile (encodeFields (profileFields hist)) = some (decodedProfile hist) := by
  have htypes := parseValueType_eq (show 1 < 128 by decide) (show 2 < 128 by decide)
  have hspaces := parseValueType_eq (show 3 < 128 by decide) (show 4 < 128 by decide)
  have hsamples := mapM_liveRows hist fun row =>
    parseSample_eq (rowId_lt row) (rowCount hist row) (rowBytes hist row)
  have hlocations := mapM_liveRows hist fun row =>
    parseLocation_eq (rowId_lt row) (rowId_lt row)
  have hfunctions := mapM_liveRows hist fun row =>
    parseFunction_eq (rowId_lt row) (rowName_idx_lt row)
  rw [parseProfile, decodeMessage_encodeFields (valid_profileFields hist)]
  simp [messages, profileFields, message, stringField, Function.comp_def, htypes, hspaces, hsamples,
    hlocations, hfunctions, decodedProfile, rowSample, rowLocation, rowFunction]

/-- The entry with the id of a live row is found once. -/
theorem filter_id_eq {α : Type} (id : α → ℕ) (entry : Row → α)
    (hid : ∀ row, id (entry row) = rowId row)
    {row : Row} (hrow : row ∈ liveRows hist) :
    ((liveRows hist).map entry).filter (fun x => id x = rowId row) = [entry row] := by
  have hone : (liveRows hist).filter (fun x => x = row) = [row] := by
    rw [← List.replicate_one, ← List.count_eq_one_of_mem (liveRows_nodup hist) hrow]
    exact List.filter_eq row
  rw [List.filter_map]
  simp only [Function.comp_def, hid, rowId_injective.eq_iff, hone, List.map_singleton]

/-- What a profile says of a histogram. A location or function is found by its id once, and a
name index by its place in the string table. -/
structure Describes (hist : Histogram) (profile : Profile) : Prop where
  sample : profile.sample = (liveRows hist).map (rowSample hist)
  location : ∀ s ∈ profile.sample, ∀ id ∈ s.locationId,
    ∃ l, profile.location.filter (fun l => l.id = id) = [l]
  function : ∀ l ∈ profile.location, ∃ f, l.lines.map Line.functionId = [f.id] ∧
    profile.function.filter (fun g => g.id = f.id) = [f]
  name : ∀ row ∈ liveRows hist, ∀ l ∈ profile.location, l.id = rowId row →
    ∀ f ∈ profile.function, f.id ∈ l.lines.map Line.functionId →
      profile.stringTable[f.name]? = some (rowName row) ∧
      profile.stringTable[f.systemName]? = some (rowName row)
  inside : ∀ f ∈ profile.function,
    f.name < profile.stringTable.length ∧ f.systemName < profile.stringTable.length
  unit : ∀ t ∈ profile.sampleType,
    t.type < profile.stringTable.length ∧ t.unit < profile.stringTable.length
  empty : profile.stringTable[0]? = some []

theorem rowName_inside (row : Row) : 4 + rowId row < stringTable.length := by
  revert row
  decide

theorem describes_decodedProfile : Describes hist (decodedProfile hist) where
  sample := rfl
  location := by
    simp only [decodedProfile, List.forall_mem_map, rowSample, List.forall_mem_singleton]
    exact fun row hrow => ⟨_, filter_id_eq hist Location.id rowLocation (fun _ => rfl) hrow⟩
  function := by
    simp only [decodedProfile, List.forall_mem_map]
    intro row hrow
    exact ⟨rowFunction row, rfl,
      filter_id_eq hist ProfileFunction.id rowFunction (fun _ => rfl) hrow⟩
  name := by
    simp only [decodedProfile, List.forall_mem_map]
    intro row hrow r hr hrid q hq hqid
    simp only [rowLocation, rowFunction, List.map_singleton, List.mem_singleton] at hrid hqid ⊢
    rw [hqid, hrid]
    exact ⟨stringTable_rowName row, stringTable_rowName row⟩
  inside := by
    simp only [decodedProfile, List.forall_mem_map]
    exact fun row _ => ⟨rowName_inside row, rowName_inside row⟩
  unit := by
    simp only [decodedProfile]
    decide
  empty := rfl

/-- Whatever the histogram, the encoder stays inside its buffers, and reading what it wrote uses
up all bytes and gives a profile that describes the histogram. -/
theorem heapProfile_round_trip :
    ∃ bytes profile, encodeHeapProfile hist = some bytes ∧ parseProfile bytes = some profile ∧
      Describes hist profile :=
  ⟨_, _, encodeHeapProfile_eq hist, parseProfile_eq hist, describes_decodedProfile hist⟩

end Read

end V8Malloc.Pprof
