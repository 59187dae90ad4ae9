import Mathlib.Data.List.Basic
import Mathlib.Tactic.Common
import Mathlib.Tactic.Linarith

/-!
# Protocol-buffer wire format

A message is a sequence of fields, each a tag and a payload. A tag packs the
field number and the wire type into a variable-length integer; the payload is
such an integer, or a length and that many bytes. Other wire types are refused.

A writer with a bounded buffer appends to what is already there; `Appends` says
which bytes it adds when they fit.
-/
namespace Wire

/-- Seven bits a byte, the lowest first; the high bit of a byte says that more follow. -/
def encodeVarint (n : ℕ) : List UInt8 :=
  if n < 128 then [UInt8.ofNat n] else UInt8.ofNat (n % 128 + 128) :: encodeVarint (n / 128)
termination_by n

/-- The integer at the start of `bytes`, of at most `limit` bytes, and what follows it. -/
def decodeVarint : ℕ → List UInt8 → Option (ℕ × List UInt8)
  | 0, _ => none
  | _ + 1, [] => none
  | limit + 1, b :: rest =>
    if b.toNat < 128 then some (b.toNat, rest)
    else (decodeVarint limit rest).map fun r => (b.toNat - 128 + 128 * r.1, r.2)

theorem encodeVarint_ne_nil (n : ℕ) : encodeVarint n ≠ [] := by
  rw [encodeVarint]
  split_ifs <;> simp

theorem div_lt_pow {k n : ℕ} (hn : n < 2 ^ (7 * (k + 1))) : n / 128 < 2 ^ (7 * k) := by
  rw [Nat.div_lt_iff_lt_mul (by decide)]
  rwa [Nat.mul_succ, pow_add] at hn

theorem decodeVarint_encodeVarint {limit n : ℕ} (hn : n < 2 ^ (7 * limit)) (hlimit : 0 < limit)
    (rest : List UInt8) :
    decodeVarint limit (encodeVarint n ++ rest) = some (n, rest) := by
  induction limit generalizing n with
  | zero => omega
  | succ limit ih =>
    rw [encodeVarint]
    split_ifs with hsmall
    · simp [decodeVarint, Nat.mod_eq_of_lt (show n < 256 by omega), hsmall]
    · have hbyte : (n % 128 + 128) % 256 = n % 128 + 128 := by omega
      have hrest := div_lt_pow hn
      have hpos : 0 < limit := by
        by_contra hzero
        obtain rfl : limit = 0 := by omega
        omega
      simp [decodeVarint, hbyte, ih hrest hpos]
      omega

theorem length_encodeVarint_le {k n : ℕ} (hn : n < 2 ^ (7 * (k + 1))) :
    (encodeVarint n).length ≤ k + 1 := by
  induction k generalizing n with
  | zero =>
    have hsmall : n < 128 := by simpa using hn
    rw [encodeVarint, if_pos hsmall]
    simp
  | succ k ih =>
    rw [encodeVarint]
    split_ifs
    · simp
    · simpa using ih (div_lt_pow hn)

theorem length_encodeVarint_small {n : ℕ} (hn : n < 128) : (encodeVarint n).length = 1 := by
  rw [encodeVarint, if_pos hn]
  rfl

/-- The longest encoding of a 64-bit value. -/
def varintBytes : ℕ := 10

/-- Decoders keep the low 64 bits of a value. -/
def readVarint (bytes : List UInt8) : Option (ℕ × List UInt8) :=
  (decodeVarint varintBytes bytes).map fun r => (r.1 % 2 ^ 64, r.2)

theorem readVarint_encodeVarint {n : ℕ} (hn : n < 2 ^ 64) (rest : List UInt8) :
    readVarint (encodeVarint n ++ rest) = some (n, rest) := by
  have hlimit : n < 2 ^ (7 * varintBytes) := hn.trans (by decide)
  rw [readVarint, decodeVarint_encodeVarint hlimit (by decide), Option.map_some,
    Nat.mod_eq_of_lt hn]

inductive Payload
  | varint (value : ℕ)
  | bytes (data : List UInt8)
  deriving DecidableEq, Repr

structure Field where
  number : ℕ
  payload : Payload
  deriving DecidableEq, Repr

def encodePayload : Payload → List UInt8
  | .varint value => encodeVarint value
  | .bytes data => encodeVarint data.length ++ data

def Payload.wireType : Payload → ℕ
  | .varint _ => 0
  | .bytes _ => 2

def encodeField (f : Field) : List UInt8 :=
  encodeVarint (f.number * 8 + f.payload.wireType) ++ encodePayload f.payload

def encodeFields (fs : List Field) : List UInt8 :=
  fs.flatMap encodeField

theorem encodeFields_cons (f : Field) (fs : List Field) :
    encodeFields (f :: fs) = encodeField f ++ encodeFields fs := rfl

theorem encodeFields_append (fs gs : List Field) :
    encodeFields (fs ++ gs) = encodeFields fs ++ encodeFields gs :=
  List.flatMap_append

theorem encodeFields_singleton (f : Field) : encodeFields [f] = encodeField f := by
  simp [encodeFields]

theorem length_encodeFields_le {fs : List Field} {k : ℕ}
    (hfs : ∀ f ∈ fs, (encodeField f).length ≤ k) : (encodeFields fs).length ≤ fs.length * k := by
  induction fs with
  | nil => simp [encodeFields]
  | cons f fs ih =>
    have hhead := hfs f List.mem_cons_self
    have htail := ih fun g hg => hfs g (List.mem_cons_of_mem f hg)
    rw [encodeFields_cons, List.length_append, List.length_cons, Nat.succ_mul]
    omega

/-- A submessage as a field of the message around it. -/
def message (number : ℕ) (fs : List Field) : Field :=
  ⟨number, .bytes (encodeFields fs)⟩

theorem length_encodeField_varint {number : ℕ} (hnumber : number < 16) (value : ℕ) :
    (encodeField ⟨number, .varint value⟩).length = 1 + (encodeVarint value).length := by
  have htag : number * 8 + 0 < 128 := by omega
  rw [encodeField, encodePayload, Payload.wireType, List.length_append,
    length_encodeVarint_small htag]

theorem length_encodeField_bytes {number : ℕ} (hnumber : number < 16) {data : List UInt8}
    (hdata : data.length < 128) : (encodeField ⟨number, .bytes data⟩).length = 2 + data.length := by
  have htag : number * 8 + 2 < 128 := by omega
  rw [encodeField, encodePayload, Payload.wireType, List.length_append, List.length_append,
    length_encodeVarint_small htag, length_encodeVarint_small hdata]
  omega

def decodePayload (wireType : ℕ) (bytes : List UInt8) : Option (Payload × List UInt8) :=
  match wireType with
  | 0 => (readVarint bytes).map fun r => (.varint r.1, r.2)
  | 2 =>
    match readVarint bytes with
    | none => none
    | some (length, rest) =>
      if rest.length < length then none
      else some (.bytes (rest.take length), rest.drop length)
  | _ => none

def decodeField (bytes : List UInt8) : Option (Field × List UInt8) :=
  match readVarint bytes with
  | none => none
  | some (tag, rest) =>
    if tag / 8 = 0 then none
    else (decodePayload (tag % 8) rest).map fun r => (⟨tag / 8, r.1⟩, r.2)

/-- Items until the bytes are used up; every item takes one byte at least. -/
def decodeAll {α : Type*} (read : List UInt8 → Option (α × List UInt8)) :
    ℕ → List UInt8 → Option (List α)
  | _, [] => some []
  | 0, _ => none
  | fuel + 1, bytes =>
    match read bytes with
    | none => none
    | some (x, rest) => (decodeAll read fuel rest).map (x :: ·)

def decodeMessage (bytes : List UInt8) : Option (List Field) :=
  decodeAll decodeField bytes.length bytes

/-- A packed repeated field is a sequence of integers. -/
def decodePacked (bytes : List UInt8) : Option (List ℕ) :=
  decodeAll readVarint bytes.length bytes

def encodePacked (ns : List ℕ) : List UInt8 :=
  ns.flatMap encodeVarint

theorem encodePacked_singleton (n : ℕ) : encodePacked [n] = encodeVarint n := by
  simp [encodePacked]

theorem encodePacked_pair (m n : ℕ) : encodePacked [m, n] = encodeVarint m ++ encodeVarint n := by
  simp [encodePacked]

def Payload.Valid : Payload → Prop
  | .varint value => value < 2 ^ 64
  | .bytes data => data.length < 2 ^ 64

def Field.Valid (f : Field) : Prop :=
  0 < f.number ∧ f.number < 2 ^ 29 ∧ f.payload.Valid

theorem decodePayload_encodePayload {p : Payload} (hp : p.Valid) (rest : List UInt8) :
    decodePayload p.wireType (encodePayload p ++ rest) = some (p, rest) := by
  cases p with
  | varint value => simp [decodePayload, Payload.wireType, encodePayload, readVarint_encodeVarint hp]
  | bytes data => simp [decodePayload, Payload.wireType, encodePayload, readVarint_encodeVarint hp]

theorem wireType_lt (p : Payload) : p.wireType < 8 := by
  cases p <;> simp [Payload.wireType]

theorem decodeField_encodeField {f : Field} (hf : f.Valid) (rest : List UInt8) :
    decodeField (encodeField f ++ rest) = some (f, rest) := by
  obtain ⟨hpos, hlt, hpayload⟩ := hf
  have hwire := wireType_lt f.payload
  have htag : f.number * 8 + f.payload.wireType < 2 ^ 64 := by omega
  have hnumber : (f.number * 8 + f.payload.wireType) / 8 = f.number := by omega
  have htype : (f.number * 8 + f.payload.wireType) % 8 = f.payload.wireType := by omega
  have hne : f.number ≠ 0 := by omega
  simp only [decodeField, encodeField, List.append_assoc, readVarint_encodeVarint htag, hnumber,
    htype, hne, if_false, decodePayload_encodePayload hpayload, Option.map_some]

theorem encodeField_ne_nil (f : Field) : encodeField f ≠ [] := by
  simp [encodeField, encodeVarint_ne_nil]

theorem decodeAll_flatMap {α : Type*} {read : List UInt8 → Option (α × List UInt8)}
    {encode : α → List UInt8} (hne : ∀ x, encode x ≠ []) {xs : List α}
    (hread : ∀ x ∈ xs, ∀ rest, read (encode x ++ rest) = some (x, rest)) {fuel : ℕ}
    (hfuel : (xs.flatMap encode).length ≤ fuel) :
    decodeAll read fuel (xs.flatMap encode) = some xs := by
  induction xs generalizing fuel with
  | nil => cases fuel <;> rfl
  | cons x xs ih =>
    obtain ⟨b, bs, hcons⟩ := List.exists_cons_of_ne_nil (hne x)
    have hfirst := hread x List.mem_cons_self (xs.flatMap encode)
    rw [List.flatMap_cons, hcons] at hfuel ⊢
    rw [hcons] at hfirst
    simp only [List.cons_append, List.length_cons, List.length_append] at hfuel hfirst ⊢
    cases fuel with
    | zero => omega
    | succ fuel =>
      have hrest : decodeAll read fuel (xs.flatMap encode) = some xs :=
        ih (fun y hy => hread y (List.mem_cons_of_mem x hy)) (by omega)
      simp [decodeAll, hfirst, hrest]

/-- Decoding gives back the fields that were encoded, and no byte is left. -/
theorem decodeMessage_encodeFields {fs : List Field} (hfs : ∀ f ∈ fs, f.Valid) :
    decodeMessage (encodeFields fs) = some fs :=
  decodeAll_flatMap encodeField_ne_nil (fun f hf => decodeField_encodeField (hfs f hf)) le_rfl

theorem decodePacked_encodePacked {ns : List ℕ} (hns : ∀ n ∈ ns, n < 2 ^ 64) :
    decodePacked (encodePacked ns) = some ns :=
  decodeAll_flatMap encodeVarint_ne_nil (fun n hn => readVarint_encodeVarint (hns n hn)) le_rfl

section Writers

/-- A writer that starts after the bytes `out` adds `bytes`, if there is room for them. -/
def Appends (cap : ℕ) (write : List UInt8 → Option (List UInt8)) (bytes : List UInt8) : Prop :=
  ∀ out, out.length + bytes.length ≤ cap → write out = some (out ++ bytes)

variable {α : Type*} {cap : ℕ} {write next : List UInt8 → Option (List UInt8)}
variable {bytes more : List UInt8}

theorem Appends.nil : Appends cap some [] := by
  intro out _
  simp

theorem Appends.andThen (hwrite : Appends cap write bytes) (hnext : Appends cap next more) :
    Appends cap (fun out => write out >>= next) (bytes ++ more) := by
  intro out hroom
  rw [List.length_append] at hroom
  have hfirst := hwrite out (by omega)
  have hsecond := hnext (out ++ bytes) (by rw [List.length_append]; omega)
  simp [hfirst, hsecond]

theorem Appends.foldlM {step : List UInt8 → α → Option (List UInt8)} {added : α → List UInt8}
    {xs : List α} (hstep : ∀ x ∈ xs, Appends cap (step · x) (added x)) :
    Appends cap (fun out => xs.foldlM step out) (xs.flatMap added) := by
  induction xs with
  | nil => exact Appends.nil
  | cons x xs ih =>
    have hhead := hstep x List.mem_cons_self
    have htail := ih fun y hy => hstep y (List.mem_cons_of_mem x hy)
    exact hhead.andThen htail

end Writers

end Wire
