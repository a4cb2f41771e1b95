import Magisk.Bytes.Core
import Magisk.Bytes.Endian
import Magisk.Codec.Core
import Magisk.Core.Su.Daemon

/-!
# Values on a socket

`Encodable` and `Decodable` of `socket.rs` for all types they are implemented for,
with the derived implementations for structs, and the writers of the native code.

A stream is the list of the bytes up to its end.  A panic aborts the process.
-/

namespace Magisk.Core.Socket

open List Bytes Codec

/-! ## Types and values -/

/-- The types that can be sent; a struct is the list of its fields. -/
inductive Ty where
  | u8 | u32 | i32 | usize | bool | string
  | vec (element : Ty)
  | struct (fields : List Ty)

/-- What the code is compiled for: the width of `usize`, and the size of structs, which
Rust leaves open. -/
structure Target where
  bits : Nat
  known : bits = 32 ∨ bits = 64
  structSize : List Ty → Nat

namespace Target

variable (target : Target)

/-- `isize::MAX`, the largest number of bytes an allocation may have. -/
def isizeMax : Nat :=
  2 ^ (target.bits - 1) - 1

/-- `as usize`. -/
def asUsize (value : Int32) : Nat :=
  (value.toInt % 2 ^ target.bits).toNat

/-- `size_of`. -/
def sizeOf : Ty → Nat
  | .u8 | .bool => 1
  | .u32 | .i32 => 4
  | .usize => target.bits / 8
  | .string | .vec _ => 3 * (target.bits / 8)
  | .struct fields => target.structSize fields

end Target

mutual

/-- The values of a type. -/
def Ty.Value (target : Target) : Ty → Type
  | .u8 => UInt8
  | .u32 => UInt32
  | .i32 => Int32
  | .usize => BitVec target.bits
  | .bool => Bool
  | .string => String
  | .vec element => List (Ty.Value target element)
  | .struct fields => Ty.Values target fields

/-- The values of the fields of a struct. -/
def Ty.Values (target : Target) : List Ty → Type
  | [] => Unit
  | field :: fields => Ty.Value target field × Ty.Values target fields

end

/-! ## Encoding -/

/-- `write_pod` of an `i32`. -/
def encodeI32 (value : Int32) : List UInt8 :=
  leBytes 4 value.toUInt32.toNat

mutual

/-- `Encodable::encode`. -/
def encode (target : Target) : (ty : Ty) → ty.Value target → List UInt8
  | .u8, (value : UInt8) => leBytes 1 value.toNat
  | .u32, (value : UInt32) => leBytes 4 value.toNat
  | .i32, value => encodeI32 value
  | .usize, (value : BitVec target.bits) => leBytes (target.bits / 8) value.toNat
  | .bool, (value : Bool) => leBytes 1 (if value then 1 else 0)
  | .string, (value : String) =>
    encodeI32 (Int32.ofNat (utf8 value).length) ++ utf8 value
  | .vec element, (values : List (element.Value target)) =>
    encodeI32 (Int32.ofNat values.length) ++ values.flatMap (encode target element)
  | .struct fields, values => encodeFields target fields values

/-- `gen_encode`: the fields in their order. -/
def encodeFields (target : Target) : (fields : List Ty) → Ty.Values target fields → List UInt8
  | [], _ => []
  | field :: fields, (value, values) => encode target field value ++ encodeFields target fields values

end

/-! ## Decoding -/

/-- Why a value cannot be decoded. -/
inductive Failure where
  | unexpectedEof
  | invalidData
  /-- A panic. -/
  | abort
  deriving DecidableEq, Repr

/-- `read_pod` of a number of some bytes. -/
def readPod (width : Nat) : Decoder UInt8 Failure Nat := fun stream =>
  if stream.length < width then .error .unexpectedEof
  else .ok (ofLe (stream.take width), stream.drop width)

/-- `read_pod`, given how a number stands for the value. -/
def decodePod {α : Type} (width : Nat) (ofNat : Nat → α) : Decoder UInt8 Failure α := fun stream =>
  match readPod width stream with
  | .error error => .error error
  | .ok (value, rest) => .ok (ofNat value, rest)

/-- `i32::decode`. -/
def decodeI32 : Decoder UInt8 Failure Int32 :=
  decodePod 4 fun value => (UInt32.ofNat value).toInt32

/-- `String::decode`: `take` ends at the end of the stream too. -/
def decodeString (target : Target) : Decoder UInt8 Failure String := fun stream =>
  match decodeI32 stream with
  | .error error => .error error
  | .ok (len, rest) =>
    if target.isizeMax < target.asUsize len then .error .abort
    else
      let limit := (len.toInt % 2 ^ 64).toNat
      match fromUtf8 (rest.take limit) with
      | none => .error .invalidData
      | some text => .ok (text, rest.drop limit)

/-- `Vec::decode`, given the size of an element and how one is decoded. -/
def decodeVec {α : Type} (target : Target) (size : Nat) (element : Decoder UInt8 Failure α) :
    Decoder UInt8 Failure (List α) := fun stream =>
  match decodeI32 stream with
  | .error error => .error error
  | .ok (len, rest) =>
    if target.isizeMax < target.asUsize len * size then .error .abort
    else many element len.toInt.toNat rest

mutual

/-- `Decodable::decode`. -/
def decode (target : Target) : (ty : Ty) → Decoder UInt8 Failure (ty.Value target)
  | .u8 => decodePod 1 UInt8.ofNat
  | .u32 => decodePod 4 UInt32.ofNat
  | .i32 => decodeI32
  | .usize => decodePod (target.bits / 8) (BitVec.ofNat target.bits)
  | .bool => decodePod 1 fun value => value != 0
  | .string => decodeString target
  | .vec element => decodeVec target (target.sizeOf element) (decode target element)
  | .struct fields => decodeFields target fields

/-- `gen_decode`: the fields in their order. -/
def decodeFields (target : Target) : (fields : List Ty) →
    Decoder UInt8 Failure (Ty.Values target fields)
  | [] => fun stream => .ok ((), stream)
  | field :: fields => both (decode target field) (decodeFields target fields)

end

mutual

/-- String and vector lengths are below 2³¹, and a vector, as every value that exists
in memory, has at most `isize::MAX` bytes. -/
def Fits (target : Target) : (ty : Ty) → ty.Value target → Prop
  | .u8, _ | .u32, _ | .i32, _ | .usize, _ | .bool, _ => True
  | .string, (value : String) => (utf8 value).length < 2 ^ 31
  | .vec element, (values : List (element.Value target)) =>
    values.length < 2 ^ 31 ∧ values.length * target.sizeOf element ≤ target.isizeMax ∧
      ∀ value ∈ values, Fits target element value
  | .struct fields, values => FieldsFit target fields values

/-- All fields of a struct fit. -/
def FieldsFit (target : Target) : (fields : List Ty) → Ty.Values target fields → Prop
  | [], _ => True
  | field :: fields, (value, values) => Fits target field value ∧ FieldsFit target fields values

end

/-! ## Numbers -/

theorem readPod_append {width : Nat} {code : List UInt8} (length : code.length = width)
    (rest : List UInt8) : readPod width (code ++ rest) = .ok (ofLe code, rest) := by
  subst length
  have enough : ¬ (code ++ rest).length < code.length := by
    rw [length_append]
    omega
  rw [readPod, if_neg enough, take_left' rfl, drop_left' rfl]

theorem reads_decodePod {α : Type} {width : Nat} {ofNat : Nat → α} {number : Nat} {value : α}
    (isValue : ofNat (number % 256 ^ width) = value) :
    Reads (decodePod width ofNat) (leBytes width number) value := by
  intro rest
  rw [decodePod, readPod_append (length_leBytes width number), ofLe_leBytes]
  dsimp only
  rw [isValue]

theorem reads_decodeI32 (value : Int32) : Reads decodeI32 (encodeI32 value) value := by
  apply reads_decodePod
  have bound : value.toUInt32.toNat < 256 ^ 4 := value.toUInt32.toNat_lt
  rw [Nat.mod_eq_of_lt bound, UInt32.ofNat_toNat]
  rfl

theorem reads_decodeU8 (value : UInt8) :
    Reads (decodePod 1 UInt8.ofNat) (leBytes 1 value.toNat) value := by
  have bound : value.toNat < 256 ^ 1 := value.toNat_lt
  apply reads_decodePod
  rw [Nat.mod_eq_of_lt bound, UInt8.ofNat_toNat]

theorem reads_decodeU32 (value : UInt32) :
    Reads (decodePod 4 UInt32.ofNat) (leBytes 4 value.toNat) value := by
  have bound : value.toNat < 256 ^ 4 := value.toNat_lt
  apply reads_decodePod
  rw [Nat.mod_eq_of_lt bound, UInt32.ofNat_toNat]

variable {target : Target}

theorem reads_decodeUsize (value : BitVec target.bits) :
    Reads (decodePod (target.bits / 8) (BitVec.ofNat target.bits))
      (leBytes (target.bits / 8) value.toNat) value := by
  have width : 256 ^ (target.bits / 8) = 2 ^ target.bits := by
    rcases target.known with bits | bits
    · rw [bits]
      rfl
    · rw [bits]
      rfl
  apply reads_decodePod
  rw [width, Nat.mod_eq_of_lt value.isLt, BitVec.ofNat_toNat, BitVec.setWidth_eq]

theorem reads_decodeBool (value : Bool) :
    Reads (decodePod 1 fun value => value != 0) (leBytes 1 (if value then 1 else 0)) value := by
  apply reads_decodePod
  cases value <;> rfl

theorem asUsize_of_nonneg {len : Int32} (nonneg : 0 ≤ len.toInt) :
    target.asUsize len = len.toInt.toNat := by
  have upper := len.toInt_lt
  rw [Target.asUsize]
  rcases target.known with bits | bits <;> rw [bits] <;> omega

theorem asUsize_of_neg {len : Int32} (negative : len.toInt < 0) :
    target.isizeMax < target.asUsize len := by
  have lower := len.le_toInt
  rw [Target.asUsize, Target.isizeMax]
  rcases target.known with bits | bits <;> rw [bits] <;> omega

theorem le_isizeMax (target : Target) : 2 ^ 31 - 1 ≤ target.isizeMax := by
  rw [Target.isizeMax]
  rcases target.known with bits | bits
  · rw [bits]
  · rw [bits]
    decide

/-- A length that fits is read back by all its conversions. -/
theorem asUsize_ofNat {count : Nat} (small : count < 2 ^ 31) :
    target.asUsize (Int32.ofNat count) = count := by
  have number := Int32.toInt_ofNat_of_lt small
  rw [asUsize_of_nonneg (by omega), number, Int.toNat_natCast]

/-! ## Round trip -/

theorem reads_decodeString {value : String} (fits : Fits target .string value) :
    Reads (decodeString target) (encode target .string value) value := by
  rw [Fits] at fits
  have number := Int32.toInt_ofNat_of_lt fits
  have allowed := le_isizeMax target
  have limit : ((Int32.ofNat (utf8 value).length).toInt % 2 ^ 64).toNat = (utf8 value).length := by
    omega
  intro rest
  rw [encode, append_assoc, decodeString, reads_decodeI32]
  dsimp only
  rw [asUsize_ofNat fits, if_neg (by omega), limit, take_left' rfl, fromUtf8_utf8, drop_left' rfl]

theorem reads_decodeVec {element : Ty} {values : List (element.Value target)}
    (fits : Fits target (.vec element) values)
    (reads : ∀ value ∈ values, Reads (decode target element) (encode target element value) value) :
    Reads (decodeVec target (target.sizeOf element) (decode target element))
      (encode target (.vec element) values) values := by
  have number := Int32.toInt_ofNat_of_lt fits.1
  intro rest
  rw [encode, append_assoc, decodeVec, reads_decodeI32]
  dsimp only
  rw [asUsize_ofNat fits.1, if_neg (not_lt_of_ge fits.2.1), number]
  exact Reads.many reads rest

mutual

/-- Every value that fits is read back, and nothing after it is touched. -/
theorem reads_decode (target : Target) : (ty : Ty) → (value : ty.Value target) →
    Fits target ty value → Reads (decode target ty) (encode target ty value) value
  | .u8, value, _ => by
      rw [decode]
      exact reads_decodeU8 value
  | .u32, value, _ => by
      rw [decode]
      exact reads_decodeU32 value
  | .i32, value, _ => by
      rw [decode]
      exact reads_decodeI32 value
  | .usize, value, _ => by
      rw [decode]
      exact reads_decodeUsize value
  | .bool, value, _ => by
      rw [decode]
      exact reads_decodeBool value
  | .string, value, fits => by
      rw [decode]
      exact reads_decodeString fits
  | .vec element, (values : List (element.Value target)), fits => by
      rw [decode]
      have each : ∀ value ∈ values, Fits target element value := by
        exact fits.2.2
      exact reads_decodeVec fits fun value mem => reads_decode target element value (each value mem)
  | .struct fields, values, fits => by
      exact reads_decodeFields target fields values fits

/-- The same for the fields of a struct. -/
theorem reads_decodeFields (target : Target) : (fields : List Ty) →
    (values : Ty.Values target fields) → FieldsFit target fields values →
    Reads (decodeFields target fields) (encodeFields target fields values) values
  | [], _, _ => by
      rw [decodeFields, encodeFields]
      exact fun rest => rfl
  | field :: fields, (value, values), fits => by
      rw [FieldsFit] at fits
      rw [decodeFields, encodeFields]
      exact (reads_decode target field value fits.1).both
        (reads_decodeFields target fields values fits.2)

end

/-! ## Requests -/

/-- The fields of `SuRequest`. -/
def suRequestFields : List Ty :=
  [.i32, .i32, .bool, .bool, .bool, .string, .string, .string, .vec .u32]

/-- The values of the fields of a request. -/
def SuRequest.values (target : Target) (request : SuRequest) :
    Ty.Values target suRequestFields :=
  (request.targetUid, request.targetPid, request.login, request.keepEnv, request.dropCap,
    request.shell, request.command, request.context, request.gids, ())

/-- The request with these fields. -/
def SuRequest.ofValues (target : Target) : Ty.Values target suRequestFields → SuRequest
  | (targetUid, targetPid, login, keepEnv, dropCap, shell, command, context, gids, ()) =>
    ⟨targetUid, targetPid, login, keepEnv, dropCap, shell, command, context, gids⟩

/-- The derived `SuRequest::encode`. -/
def encodeSuRequest (target : Target) (request : SuRequest) : List UInt8 :=
  encode target (.struct suRequestFields) (SuRequest.values target request)

/-- The derived `SuRequest::decode`. -/
def decodeSuRequest (target : Target) : Decoder UInt8 Failure SuRequest := fun stream =>
  match decode target (.struct suRequestFields) stream with
  | .error error => .error error
  | .ok (values, rest) => .ok (SuRequest.ofValues target values, rest)

/-- All lengths of a request fit. -/
structure SuRequestFits (target : Target) (request : SuRequest) : Prop where
  shell : (utf8 request.shell).length < 2 ^ 31
  command : (utf8 request.command).length < 2 ^ 31
  context : (utf8 request.context).length < 2 ^ 31
  gids : request.gids.length < 2 ^ 31
  gidsSize : request.gids.length * 4 ≤ target.isizeMax

theorem reads_decodeSuRequest {request : SuRequest} (fits : SuRequestFits target request) :
    Reads (decodeSuRequest target) (encodeSuRequest target request) request := by
  have fieldsFit : Fits target (.struct suRequestFields) (SuRequest.values target request) := by
    exact ⟨trivial, trivial, trivial, trivial, trivial, fits.shell, fits.command, fits.context,
      ⟨fits.gids, fits.gidsSize, fun _ _ => trivial⟩, trivial⟩
  intro rest
  have reads := reads_decode target _ _ fieldsFit rest
  rw [encodeSuRequest, decodeSuRequest, reads]
  rfl

/-! ## Writers of the native code -/

/-- `write_any` of an object, given its bytes. -/
def writeAny (fd : Int32) (object : List UInt8) : List UInt8 :=
  if fd < 0 then [] else object

/-- `write_int`. -/
def writeInt (fd : Int32) (val : Int32) : List UInt8 :=
  writeAny fd (leBytes 4 val.toUInt32.toNat)

/-- `write_any<bool>`. -/
def writeBool (fd : Int32) (val : Bool) : List UInt8 :=
  writeAny fd [if val then 1 else 0]

/-- `write_string`. -/
def writeString (fd : Int32) (str : List UInt8) : List UInt8 :=
  if fd < 0 then [] else writeInt fd (Int32.ofNat str.length) ++ str

/-- `write_vector`, given the bytes of an object; the objects lie side by side. -/
def writeVector {α : Type} (object : α → List UInt8) (fd : Int32) (vec : List α) : List UInt8 :=
  writeInt fd (Int32.ofNat vec.length) ++ vec.flatMap object

/-- Types that are numbers in both languages. -/
inductive Pod where
  | u8 | u32 | i32 | usize

/-- The type of numbers in Rust. -/
def Pod.ty : Pod → Ty
  | .u8 => .u8
  | .u32 => .u32
  | .i32 => .i32
  | .usize => .usize

/-- The bytes of a number in memory. -/
def Pod.object (target : Target) : (pod : Pod) → pod.ty.Value target → List UInt8
  | .u8, (value : UInt8) => [value]
  | .u32, (value : UInt32) => leBytes 4 value.toNat
  | .i32, (value : Int32) => leBytes 4 value.toUInt32.toNat
  | .usize, (value : BitVec target.bits) => leBytes (target.bits / 8) value.toNat

theorem object_eq (target : Target) (pod : Pod) (value : pod.ty.Value target) :
    pod.object target value = encode target pod.ty value := by
  cases pod with
  | u8 =>
    exact congrArg (· :: []) (UInt8.ofNat_toNat (x := value)).symm
  | u32 => rfl
  | i32 => rfl
  | usize => rfl

section Writers

variable {fd : Int32} (opened : 0 ≤ fd)

include opened

theorem writeAny_eq (object : List UInt8) : writeAny fd object = object :=
  if_neg (Int32.not_lt.mpr opened)

theorem writeInt_eq (val : Int32) : writeInt fd val = encodeI32 val := writeAny_eq opened _

theorem writeBool_eq (target : Target) (val : Bool) :
    writeBool fd val = encode target .bool val := by
  rw [writeBool, writeAny_eq opened]
  cases val <;> rfl

theorem writeString_eq (target : Target) (text : String) :
    writeString fd (utf8 text) = encode target .string text := by
  rw [writeString, if_neg (Int32.not_lt.mpr opened), writeInt_eq opened]
  rfl

theorem writeVector_eq (target : Target) (pod : Pod) (values : List (pod.ty.Value target)) :
    writeVector (pod.object target) fd values = encode target (.vec pod.ty) values := by
  rw [writeVector, writeInt_eq opened, funext (object_eq target pod)]
  rfl

end Writers

/-- Every value that fits, in particular every request, is read back from its encoding
with exactly what follows it left unread, and the writers of the native code emit the
same bytes. -/
theorem decode_encode (target : Target) :
    (∀ (ty : Ty) (value : ty.Value target) (rest : List UInt8), Fits target ty value →
        decode target ty (encode target ty value ++ rest) = .ok (value, rest)) ∧
      (∀ (request : SuRequest) (rest : List UInt8), SuRequestFits target request →
        decodeSuRequest target (encodeSuRequest target request ++ rest) = .ok (request, rest)) ∧
      ∀ fd : Int32, 0 ≤ fd → (∀ val, writeInt fd val = encode target .i32 val) ∧
        (∀ val, writeBool fd val = encode target .bool val) ∧
        (∀ text, writeString fd (utf8 text) = encode target .string text) ∧
        ∀ (pod : Pod) values,
          writeVector (pod.object target) fd values = encode target (.vec pod.ty) values := by
  refine ⟨fun ty value rest fits => reads_decode target ty value fits rest,
    fun request rest fits => reads_decodeSuRequest fits rest, fun fd opened => ?_⟩
  exact ⟨writeInt_eq opened, writeBool_eq opened target, writeString_eq opened target,
    writeVector_eq opened target⟩

/-- A device with 64-bit pointers. -/
def arm64 : Target where
  bits := 64
  known := Or.inr rfl
  structSize _ := 0

/-- The request of `su -c id`. -/
def idRequest : SuRequest :=
  ⟨0, -1, false, false, false, "/system/bin/sh", "id", "", [2000, 3003]⟩

theorem decode_encode_idRequest : SuRequestFits arm64 idRequest ∧
      decodeSuRequest arm64 (encodeSuRequest arm64 idRequest ++ [7]) = .ok (idRequest, [7]) ∧
      writeInt 3 (-1) = [0xFF, 0xFF, 0xFF, 0xFF] := by
  have fits : SuRequestFits arm64 idRequest := by
    constructor <;> decide +kernel
  refine ⟨fits, (decode_encode arm64).2.1 idRequest [7] fits, ?_⟩
  rfl

end Magisk.Core.Socket
