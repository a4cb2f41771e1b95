import Magisk.Core.Socket.Codec

/-!
# Decoding what any peer sent

A client may send anything and close the connection anywhere.  Whether decoding a
string, a vector of numbers or a request then returns an error, or a value of which
exactly the encoding was taken, depends on the lengths in the stream, the ends of the
strings and the bytes of the flags.
-/

namespace Magisk.Core.Socket

open List Bytes Codec

/-- The length at the front of a stream. -/
def lengthWord (stream : List UInt8) : Int32 :=
  (UInt32.ofNat (ofLe (stream.take 4))).toInt32

/-- The value is an error, or exactly its encoding was taken; nothing aborts. -/
def Robust {α : Type} (encode : α → List UInt8) (decode : Decoder UInt8 Failure α)
    (stream : List UInt8) : Prop :=
  Faithful (· ≠ .abort) True encode stream (decode stream)

/-! ## Conditions on the stream -/

/-- The body that belongs to the length at the front of a stream, as far as it is
there. -/
def body (stream : List UInt8) : List UInt8 :=
  (stream.drop 4).take (lengthWord stream).toInt.toNat

/-- The length, if there is one, is not negative, and a body that is cut is not UTF-8. -/
def StringSafe (stream : List UInt8) : Prop :=
  stream.length < 4 ∨
    0 ≤ (lengthWord stream).toInt ∧
      (fromUtf8 (body stream) = none ∨
        4 + (lengthWord stream).toInt.toNat ≤ stream.length)

/-- The length, if there is one, is not negative, and so many numbers of four bytes can
be allocated. -/
def VecSafe (target : Target) (stream : List UInt8) : Prop :=
  stream.length < 4 ∨
    0 ≤ (lengthWord stream).toInt ∧ (lengthWord stream).toInt.toNat * 4 ≤ target.isizeMax

/-- The same for some strings and a vector of numbers after flags, which are `right` or
not: no length that is read is negative, and after wrong flags the vector is cut. -/
def TailSafe (target : Target) (right : Prop) : Nat → List UInt8 → Prop
  | 0, stream =>
    stream.length < 4 ∨
      0 ≤ (lengthWord stream).toInt ∧
        (lengthWord stream).toInt.toNat * 4 ≤ target.isizeMax ∧
          (right ∨ stream.length < 4 + (lengthWord stream).toInt.toNat * 4)
  | strings + 1, stream =>
    stream.length < 4 ∨
      0 ≤ (lengthWord stream).toInt ∧
        (fromUtf8 (body stream) = none ∨
          TailSafe target right strings (stream.drop (4 + (lengthWord stream).toInt.toNat)))

/-- The byte of a flag is zero or one. -/
def IsFlag (byte : UInt8) : Prop :=
  byte = 0 ∨ byte = 1

/-- The condition for a request: two numbers, three flags, three strings, a vector. -/
def RequestSafe (target : Target) (stream : List UInt8) : Prop :=
  match stream.drop 8 with
  | login :: keepEnv :: dropCap :: rest =>
    TailSafe target (IsFlag login ∧ IsFlag keepEnv ∧ IsFlag dropCap) 3 rest
  | _ => True

/-! ## Numbers -/

theorem fixed_decodePod {α : Type} {width : Nat} {ofNat : Nat → α} {toNat : α → Nat}
    (inverse : ∀ number < 256 ^ width, toNat (ofNat number) = number) :
    Fixed (decodePod width ofNat) (fun value => leBytes width (toNat value)) width
      .unexpectedEof := by
  intro stream
  rw [decodePod, readPod]
  by_cases short : stream.length < width
  · rw [if_pos short]
    exact Or.inl ⟨short, rfl⟩
  · have length : (stream.take width).length = width := by
      rw [length_take]
      omega
    have bound := ofLe_lt (stream.take width)
    have code := leBytes_ofLe (stream.take width)
    rw [length] at bound code
    rw [if_neg short]
    refine Or.inr ⟨ofNat (ofLe (stream.take width)), stream.drop width, ?_, length_leBytes _ _, rfl⟩
    dsimp only
    rw [inverse _ bound, code, take_append_drop]

theorem fixed_decodeI32 : Fixed decodeI32 encodeI32 4 .unexpectedEof := by
  apply @fixed_decodePod _ 4 _ fun value : Int32 => value.toUInt32.toNat
  intro number bound
  exact UInt32.toNat_ofNat_of_lt bound

theorem fixed_decodeU32 :
    Fixed (decodePod 4 UInt32.ofNat) (fun value : UInt32 => leBytes 4 value.toNat) 4
      .unexpectedEof :=
  fixed_decodePod fun _ bound => UInt32.toNat_ofNat_of_lt bound

variable {stream : List UInt8}

theorem decodeI32_of_short (short : stream.length < 4) :
    decodeI32 stream = .error .unexpectedEof := by
  rcases fixed_decodeI32 stream with ⟨_, failed⟩ | ⟨value, rest, rfl, length, _⟩
  · exact failed
  · rw [length_append] at short
    omega

/-- The length at the front of a stream is taken. -/
theorem decodeI32_of_le (enough : 4 ≤ stream.length) :
    stream = encodeI32 (lengthWord stream) ++ stream.drop 4 ∧
      decodeI32 stream = .ok (lengthWord stream, stream.drop 4) := by
  have decoded : decodeI32 stream = .ok (lengthWord stream, stream.drop 4) := by
    rw [decodeI32, decodePod, readPod, if_neg (not_lt_of_ge enough)]
    rfl
  rcases fixed_decodeI32 stream with ⟨short, _⟩ | ⟨value, rest, split, _, taken⟩
  · omega
  · rw [decoded] at taken
    cases taken
    exact ⟨split, decoded⟩

theorem ofNat_lengthWord (nonneg : 0 ≤ (lengthWord stream).toInt) :
    Int32.ofNat (lengthWord stream).toInt.toNat = lengthWord stream := by
  have upper := (lengthWord stream).toInt_lt
  apply Int32.toInt_inj.mp
  rw [Int32.toInt_ofNat_of_lt (by omega)]
  omega

theorem lengthWord_append (value : Int32) (rest : List UInt8) :
    lengthWord (encodeI32 value ++ rest) = value := by
  have enough : 4 ≤ (encodeI32 value ++ rest).length := by
    rw [length_append, encodeI32, length_leBytes]
    omega
  have decoded := (decodeI32_of_le enough).2
  rw [reads_decodeI32, Except.ok.injEq, Prod.mk.injEq] at decoded
  exact decoded.1.symm

/-! ## Strings -/

section Strings

variable {target : Target} {stream : List UInt8} {text : String}

theorem decodeString_of_short (short : stream.length < 4) :
    decodeString target stream = .error .unexpectedEof := by
  rw [decodeString, decodeI32_of_short short]

theorem decodeString_of_neg (enough : 4 ≤ stream.length)
    (negative : (lengthWord stream).toInt < 0) : decodeString target stream = .error .abort := by
  rw [decodeString, (decodeI32_of_le enough).2]
  exact if_pos (asUsize_of_neg negative)

theorem decodeString_of_nonneg (enough : 4 ≤ stream.length)
    (nonneg : 0 ≤ (lengthWord stream).toInt) :
    decodeString target stream =
      match fromUtf8 (body stream) with
      | none => .error .invalidData
      | some text => .ok (text, stream.drop (4 + (lengthWord stream).toInt.toNat)) := by
  have upper := (lengthWord stream).toInt_lt
  have allowed := le_isizeMax target
  have limit : ((lengthWord stream).toInt % 2 ^ 64).toNat = (lengthWord stream).toInt.toNat := by
    omega
  have fits : ¬ target.isizeMax < target.asUsize (lengthWord stream) := by
    rw [asUsize_of_nonneg nonneg]
    omega
  rw [decodeString, (decodeI32_of_le enough).2]
  dsimp only
  rw [if_neg fits, limit, drop_drop]
  rfl

theorem length_body : (body stream).length =
    min (lengthWord stream).toInt.toNat (stream.length - 4) := by
  rw [body, length_take, length_drop]

/-- A string whose body is complete was encoded as it stands in the stream. -/
theorem eq_encodeString (enough : 4 ≤ stream.length) (nonneg : 0 ≤ (lengthWord stream).toInt)
    (decoded : fromUtf8 (body stream) = some text)
    (complete : 4 + (lengthWord stream).toInt.toNat ≤ stream.length) :
    stream = encode target .string text ++ stream.drop (4 + (lengthWord stream).toInt.toNat) := by
  have isBody := utf8_of_fromUtf8_eq_some decoded
  have length : (body stream).length = (lengthWord stream).toInt.toNat := by
    rw [length_body]
    omega
  change stream = (encodeI32 (Int32.ofNat (utf8 text).length) ++ utf8 text) ++ _
  rw [isBody, length, ofNat_lengthWord nonneg, body, append_assoc, ← drop_drop, take_append_drop]
  exact (decodeI32_of_le enough).1

/-- A string whose body is cut is not encoded as it stands in the stream. -/
theorem ne_encodeString (nonneg : 0 ≤ (lengthWord stream).toInt)
    (decoded : fromUtf8 (body stream) = some text)
    (cut : ¬ 4 + (lengthWord stream).toInt.toNat ≤ stream.length) (enough : 4 ≤ stream.length)
    (rest : List UInt8) : stream ≠ encode target .string text ++ rest := by
  have isBody := utf8_of_fromUtf8_eq_some decoded
  have upper := (lengthWord stream).toInt_lt
  have length : (body stream).length = stream.length - 4 := by
    rw [length_body]
    omega
  intro equal
  change stream = (encodeI32 (Int32.ofNat (utf8 text).length) ++ utf8 text) ++ _ at equal
  rw [append_assoc, isBody] at equal
  have word := lengthWord_append (Int32.ofNat (body stream).length) (body stream ++ rest)
  rw [← equal] at word
  have number := congrArg Int32.toInt word
  rw [Int32.toInt_ofNat_of_lt (by omega)] at number
  omega

/-- Decoding a string is robust exactly on streams without a negative length and
without a body that is cut in a place where it is UTF-8. -/
theorem robust_string_iff :
    Robust (encode target .string) (decode target .string) stream ↔ StringSafe stream := by
  rw [Robust, decode, StringSafe]
  by_cases short : stream.length < 4
  · rw [decodeString_of_short short]
    exact iff_of_true nofun (Or.inl short)
  · have enough := not_lt.mp short
    by_cases nonneg : 0 ≤ (lengthWord stream).toInt
    · rw [decodeString_of_nonneg enough nonneg]
      cases decoded : fromUtf8 (body stream) with
      | none => exact iff_of_true nofun (Or.inr ⟨nonneg, Or.inl rfl⟩)
      | some text =>
        by_cases complete : 4 + (lengthWord stream).toInt.toNat ≤ stream.length
        · exact iff_of_true ⟨trivial, eq_encodeString enough nonneg decoded complete⟩
            (Or.inr ⟨nonneg, Or.inr complete⟩)
        · refine iff_of_false ?_ ?_
          · rintro ⟨_, equal⟩
            exact ne_encodeString nonneg decoded complete enough _ equal
          · rintro (isShort | ⟨_, isNone | isComplete⟩)
            · exact short isShort
            · cases isNone
            · exact complete isComplete
    · rw [decodeString_of_neg enough (not_le.mp nonneg)]
      refine iff_of_false (fun allowed => allowed rfl) ?_
      rintro (isShort | ⟨isNonneg, _⟩)
      · exact short isShort
      · exact nonneg isNonneg

end Strings

/-! ## Vectors of numbers -/

variable {target : Target}

/-- A vector of numbers of four bytes: either it is cut, or exactly its encoding was
taken. -/
theorem faithful_vec_iff {element : Ty} (size : target.sizeOf element = 4)
    (fixed : Fixed (decode target element) (encode target element) 4 .unexpectedEof)
    {returns : Prop} :
    Faithful (· ≠ .abort) returns (encode target (.vec element)) stream
        (decode target (.vec element) stream) ↔
      TailSafe target returns 0 stream := by
  rw [decode, decodeVec, size]
  by_cases short : stream.length < 4
  · rw [decodeI32_of_short short]
    exact iff_of_true (by simp [Faithful]) (Or.inl short)
  · have front := decodeI32_of_le (not_lt.mp short)
    rw [front.2]
    dsimp only
    by_cases nonneg : 0 ≤ (lengthWord stream).toInt
    · rw [asUsize_of_nonneg nonneg]
      by_cases allowed : (lengthWord stream).toInt.toNat * 4 ≤ target.isizeMax
      · rw [if_neg (not_lt_of_ge allowed)]
        rcases fixed.many (lengthWord stream).toInt.toNat (stream.drop 4) with
          ⟨cut, failed⟩ | ⟨values, rest, split, length, decoded⟩
        · rw [failed]
          rw [length_drop] at cut
          exact iff_of_true (by simp [Faithful]) (Or.inr ⟨nonneg, allowed, Or.inr (by omega)⟩)
        · have count := length_of_many decoded
          have isEncoding : stream = encode target (.vec element) values ++ rest := by
            change stream = (encodeI32 (Int32.ofNat values.length) ++ _) ++ rest
            rw [count, ofNat_lengthWord nonneg]
            exact front.1.trans (congrArg _ split)
          have complete : ¬ stream.length < 4 + (lengthWord stream).toInt.toNat * 4 := by
            have lengths := congrArg List.length split
            rw [length_append, length_drop] at lengths
            omega
          rw [decoded]
          constructor
          · exact fun faithful => Or.inr ⟨nonneg, allowed, Or.inl faithful.1⟩
          · rintro (isShort | ⟨_, _, returned | cut⟩)
            · exact absurd isShort short
            · exact ⟨returned, isEncoding⟩
            · exact absurd cut complete
      · rw [if_pos (not_le.mp allowed)]
        refine iff_of_false (fun isAllowed => isAllowed rfl) ?_
        rintro (isShort | ⟨_, isAllowed, _⟩)
        · exact short isShort
        · exact allowed isAllowed
    · have overflow : target.isizeMax < target.asUsize (lengthWord stream) * 4 := by
        have large := @asUsize_of_neg target _ (not_le.mp nonneg)
        omega
      rw [if_pos overflow]
      refine iff_of_false (fun isAllowed => isAllowed rfl) ?_
      rintro (isShort | ⟨isNonneg, _⟩)
      · exact short isShort
      · exact nonneg isNonneg

theorem robust_vec_iff : Robust (encode target (.vec .i32)) (decode target (.vec .i32)) stream ↔
      VecSafe target stream := by
  have fixed : Fixed (decode target .i32) (encode target .i32) 4 .unexpectedEof := by
    exact fixed_decodeI32
  rw [Robust, faithful_vec_iff rfl fixed, TailSafe, VecSafe]
  simp only [true_or, and_true]

/-! ## Fields of a request -/

/-- What `Robust` says about the fields of a struct; `returns` says whether the fields
before were right. -/
def FieldsRobust (target : Target) (returns : Prop) (fields : List Ty) (stream : List UInt8) :
    Prop :=
  Faithful (· ≠ .abort) returns (encodeFields target fields) stream
    (decodeFields target fields stream)

section Fields

variable {target : Target} {returns : Prop} {fields : List Ty} {field : Ty} {rest : List UInt8}
  {byte : UInt8}

variable {stream : List UInt8}

theorem fieldsRobust_cons_of_error {error : Failure}
    (failed : decode target field stream = .error error) :
    FieldsRobust target returns (field :: fields) stream ↔ error ≠ .abort :=
  faithful_both_of_error failed

variable {value : field.Value target}

theorem fieldsRobust_cons_of_ok {code : List UInt8}
    (taken : decode target field (code ++ rest) = .ok (value, rest))
    (length : code.length = (encode target field value).length) :
    FieldsRobust target returns (field :: fields) (code ++ rest) ↔
      FieldsRobust target (returns ∧ code = encode target field value) fields rest :=
  faithful_both_of_ok taken length

/-- A field of which exactly the encoding was taken leaves everything to the rest. -/
theorem fieldsRobust_cons_of_right (taken : decode target field stream = .ok (value, rest))
    (right : stream = encode target field value ++ rest) :
    FieldsRobust target returns (field :: fields) stream ↔
      FieldsRobust target returns fields rest := by
  subst right
  have step := @fieldsRobust_cons_of_ok target returns fields _ _ _ _ taken rfl
  rwa [and_iff_left rfl] at step

theorem fieldsRobust_i32_cons : FieldsRobust target returns (.i32 :: fields) stream ↔
      stream.length < 4 ∨ FieldsRobust target returns fields (stream.drop 4) := by
  by_cases short : stream.length < 4
  · have failed : decode target .i32 stream = .error .unexpectedEof := decodeI32_of_short short
    rw [fieldsRobust_cons_of_error failed]
    exact iff_of_true nofun (Or.inl short)
  · have front := decodeI32_of_le (not_lt.mp short)
    have taken : decode target .i32 stream = .ok (lengthWord stream, stream.drop 4) := front.2
    rw [fieldsRobust_cons_of_right taken front.1, or_iff_right short]

theorem fieldsRobust_bool_nil : FieldsRobust target returns (.bool :: fields) [] := by
  have failed : decode target .bool [] = .error .unexpectedEof := rfl
  exact nofun

theorem encodeBool_iff : [byte] = leBytes 1 (if byte.toNat != 0 then 1 else 0) ↔ IsFlag byte := by
  by_cases zero : byte = 0
  · subst zero
    exact iff_of_true rfl (Or.inl rfl)
  · have nonzero : (byte.toNat != 0) = true := by
      rw [bne_iff_ne]
      exact fun isZero => zero (UInt8.toNat_inj.mp isZero)
    rw [nonzero, IsFlag, or_iff_right zero]
    exact singleton_inj

theorem fieldsRobust_bool_cons : FieldsRobust target returns (.bool :: fields) (byte :: stream) ↔
      FieldsRobust target (returns ∧ IsFlag byte) fields stream := by
  have taken : decode target .bool ([byte] ++ stream) = .ok (byte.toNat != 0, stream) := by
    have front : readPod 1 ([byte] ++ stream) = .ok (byte.toNat, stream) := readPod_append rfl _
    change decodePod 1 (fun value => value != 0) ([byte] ++ stream) = _
    rfl
  have step := @fieldsRobust_cons_of_ok target returns fields _ _ _ _ taken
    (length_leBytes _ _).symm
  change _ ↔ FieldsRobust target (returns ∧
    [byte] = leBytes 1 (if byte.toNat != 0 then 1 else 0)) fields stream at step
  rwa [encodeBool_iff] at step

/-- Where a string is cut, nothing is left for the fields after it. -/
theorem fieldsRobust_string_cons (stops : decodeFields target fields [] = .error .unexpectedEof) :
    FieldsRobust target returns (.string :: fields) stream ↔ stream.length < 4 ∨
        0 ≤ (lengthWord stream).toInt ∧ (fromUtf8 (body stream) = none ∨
            FieldsRobust target returns fields
              (stream.drop (4 + (lengthWord stream).toInt.toNat))) := by
  by_cases short : stream.length < 4
  · have failed : decode target .string stream = .error .unexpectedEof :=
      decodeString_of_short short
    rw [fieldsRobust_cons_of_error failed]
    exact iff_of_true nofun (Or.inl short)
  · have enough := not_lt.mp short
    rw [or_iff_right short]
    by_cases nonneg : 0 ≤ (lengthWord stream).toInt
    · have outcome := @decodeString_of_nonneg target _ enough nonneg
      rw [and_iff_right nonneg]
      cases decoded : fromUtf8 (body stream) with
      | none =>
        rw [decoded] at outcome
        have failed : decode target .string stream = .error .invalidData := outcome
        rw [fieldsRobust_cons_of_error failed]
        exact iff_of_true nofun (Or.inl rfl)
      | some text =>
        rw [decoded] at outcome
        have taken : decode target .string stream =
            .ok (text, stream.drop (4 + (lengthWord stream).toInt.toNat)) := outcome
        rw [or_iff_right nofun]
        by_cases complete : 4 + (lengthWord stream).toInt.toNat ≤ stream.length
        · exact fieldsRobust_cons_of_right taken (eq_encodeString enough nonneg decoded complete)
        · rw [drop_of_length_le (by omega)] at taken ⊢
          have failed : decodeFields target (.string :: fields) stream = .error .unexpectedEof := by
            rw [decodeFields, both, taken]
            dsimp only
            rw [stops]
            rfl
          rw [FieldsRobust, failed, FieldsRobust, stops]
          exact Iff.rfl
    · have failed : decode target .string stream = .error .abort :=
        decodeString_of_neg enough (not_le.mp nonneg)
      rw [fieldsRobust_cons_of_error failed]
      exact iff_of_false (fun isAllowed => isAllowed rfl) fun holds => nonneg holds.1

theorem fieldsRobust_singleton : FieldsRobust target returns [field] stream ↔
      Faithful (· ≠ .abort) returns (encode target field) stream (decode target field stream) := by
  rw [FieldsRobust, decodeFields, both]
  cases decode target field stream with
  | error error => exact Iff.rfl
  | ok result =>
    rcases result with ⟨value, rest⟩
    change returns ∧ stream = (encode target field value ++ []) ++ rest ↔ _
    rw [append_nil]
    exact Iff.rfl

theorem fieldsRobust_vec :
    FieldsRobust target returns [.vec .u32] stream ↔ TailSafe target returns 0 stream := by
  have fixed : Fixed (decode target .u32) (encode target .u32) 4 .unexpectedEof := by
    exact fixed_decodeU32
  rw [fieldsRobust_singleton, faithful_vec_iff rfl fixed]

/-- Strings and a vector at the end of a struct. -/
theorem fieldsRobust_tail {strings : Nat} :
    FieldsRobust target returns (replicate strings .string ++ [.vec .u32]) stream ↔
      TailSafe target returns strings stream := by
  induction strings generalizing stream with
  | zero => exact fieldsRobust_vec
  | succ strings ih =>
    have stops : decodeFields target (replicate strings .string ++ [.vec .u32]) [] =
        .error .unexpectedEof := by
      cases strings <;> rfl
    rw [replicate_succ, cons_append, fieldsRobust_string_cons stops, ih, TailSafe]

end Fields

/-! ## Requests -/

theorem robust_fields_iff : Robust (encodeSuRequest target) (decodeSuRequest target) stream ↔
      FieldsRobust target True suRequestFields stream := by
  rw [Robust, decodeSuRequest, decode, FieldsRobust]
  cases decodeFields target suRequestFields stream with
  | error error => exact Iff.rfl
  | ok result => exact Iff.rfl

/-- Three flags, three strings and a vector. -/
theorem fieldsRobust_flags_iff {flags : List UInt8} : FieldsRobust target True
        [.bool, .bool, .bool, .string, .string, .string, .vec .u32] flags ↔
      match flags with
      | login :: keepEnv :: dropCap :: rest =>
        TailSafe target (IsFlag login ∧ IsFlag keepEnv ∧ IsFlag dropCap) 3 rest
      | _ => True := by
  match flags with
  | [] => exact iff_of_true fieldsRobust_bool_nil trivial
  | [login] =>
    rw [fieldsRobust_bool_cons]
    exact iff_of_true fieldsRobust_bool_nil trivial
  | [login, keepEnv] =>
    rw [fieldsRobust_bool_cons, fieldsRobust_bool_cons]
    exact iff_of_true fieldsRobust_bool_nil trivial
  | login :: keepEnv :: dropCap :: rest =>
    rw [fieldsRobust_bool_cons, fieldsRobust_bool_cons, fieldsRobust_bool_cons, true_and, and_assoc]
    exact @fieldsRobust_tail target _ rest 3

/-- Decoding a request is robust exactly on streams in which no length that is read is
negative or too large, and the flags are zero or one unless an error follows. -/
theorem robust_request_iff : Robust (encodeSuRequest target) (decodeSuRequest target) stream ↔
      RequestSafe target stream := by
  rw [robust_fields_iff, suRequestFields, fieldsRobust_i32_cons, fieldsRobust_i32_cons,
    drop_drop, length_drop, RequestSafe, fieldsRobust_flags_iff]
  by_cases short : stream.length < 8
  · rw [drop_of_length_le (by omega)]
    exact iff_of_true (by omega) trivial
  · rw [or_iff_right (by omega), or_iff_right (by omega)]

/-- When decoding what a client sent returns an error or exactly what was encoded. -/
theorem robust_iff (target : Target) (stream : List UInt8) :
    (Robust (encode target .string) (decode target .string) stream ↔ StringSafe stream) ∧
      (Robust (encode target (.vec .i32)) (decode target (.vec .i32)) stream ↔
        VecSafe target stream) ∧
      (Robust (encodeSuRequest target) (decodeSuRequest target) stream ↔
        RequestSafe target stream) :=
  ⟨robust_string_iff, robust_vec_iff, robust_request_iff⟩

/-- A length of minus one. -/
def negativeLength : List UInt8 :=
  [0xFF, 0xFF, 0xFF, 0xFF]

/-- The string "id" with the length of a longer string. -/
def cutString : List UInt8 :=
  [9, 0, 0, 0, 105, 100]

/-- A request with a flag of two and empty strings. -/
def strangeFlag : List UInt8 :=
  zeros 8 ++ [2, 0, 0] ++ zeros 16

/-- The request it is decoded to. -/
def strangeRequest : SuRequest :=
  ⟨0, 0, true, false, false, "", "", "", []⟩

theorem decode_strangeFlag : decodeSuRequest arm64 strangeFlag = .ok (strangeRequest, []) := by
  rfl

/-- A negative length aborts the daemon, a string that is cut is accepted, and so is a
flag that is neither zero nor one. -/
theorem not_robust_strangeStreams : decode arm64 .string negativeLength = .error .abort ∧
      decode arm64 (.vec .i32) negativeLength = .error .abort ∧
      decodeSuRequest arm64 (zeros 11 ++ negativeLength) = .error .abort ∧
      decode arm64 .string cutString = .ok ("id", []) ∧
      ¬ Robust (encode arm64 .string) (decode arm64 .string) cutString ∧
      decodeSuRequest arm64 strangeFlag = .ok (strangeRequest, []) ∧
      ¬ Robust (encodeSuRequest arm64) (decodeSuRequest arm64) strangeFlag := by
  refine ⟨rfl, rfl, rfl, rfl, ?_, decode_strangeFlag, ?_⟩
  · rw [robust_string_iff, StringSafe]
    decide +kernel
  · rintro ⟨_, equal⟩
    exact absurd equal (by decide +kernel)

end Magisk.Core.Socket
