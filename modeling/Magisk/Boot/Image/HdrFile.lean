import Magisk.Boot.Image.Header

/-!
# Editing a header from the `header` file

`load_hdr_file` replaces the name, the command lines and the operating system
version of a header by what the properties of a text file say.  Property lines
are given as the key and value pairs `parse_prop_file` calls back with.

`sscanf` leaves the variables behind the first failed conversion as they are.
They are not initialised there, so that their values are a parameter.
-/

namespace Magisk.Boot.Image

open Bytes

/-! ## Scanning numbers -/

/-- `isspace`. -/
def isSpace (byte : UInt8) : Bool :=
  byte == 32 || (decide (9 ≤ byte.toNat) && decide (byte.toNat ≤ 13))

/-- `isdigit`. -/
def isDigit (byte : UInt8) : Bool :=
  decide (48 ≤ byte.toNat) && decide (byte.toNat ≤ 57)

/-- The value of a run of decimal digits. -/
def digitsValue (digits : List UInt8) : Int :=
  digits.foldl (fun value digit => value * 10 + (digit.toNat - 48 : Int)) 0

/-- One `%d` conversion: the number and the rest of the text. -/
def scanInt (text : List UInt8) : Option (Int × List UInt8) :=
  let start := text.dropWhile isSpace
  let (negative, unsigned) :=
    match start with
    | 45 :: rest => (true, rest)
    | 43 :: rest => (false, rest)
    | _ => (false, start)
  let digits := unsigned.takeWhile isDigit
  if digits = [] then none
  else
    let value := digitsValue digits
    some (if negative then -value else value, unsigned.dropWhile isDigit)

/-- `sscanf` of `count` numbers with `separator` between them: the numbers up
to the first failed conversion. -/
def scanInts (separator : UInt8) : Nat → List UInt8 → List Int
  | 0, _ => []
  | count + 1, text =>
    match scanInt text with
    | none => []
    | some (value, rest) =>
      match rest with
      | byte :: rest =>
        if byte = separator then value :: scanInts separator count rest else [value]
      | [] => [value]

/-! ## Properties -/

/-- A local `int` after `sscanf`: the converted number, or what was on the
stack. -/
def scanned (stale : Nat → BitVec 32) (values : List Int) (index : Nat) : BitVec 32 :=
  match values[index]? with
  | some value => BitVec.ofInt 32 value
  | none => stale index

/-- The version word for `A.B.C` with the patch level of the old one. -/
def versionWord (old a b c : BitVec 32) : BitVec 32 :=
  ((a <<< 14 ||| b <<< 7 ||| c) <<< 11) ||| (old &&& 0x7ff#32)

/-- The version word for the patch level `Y-M` with the version of the old one. -/
def patchLevelWord (old y m : BitVec 32) : BitVec 32 :=
  (old >>> 11) <<< 11 ||| (y - 2000#32) <<< 4 ||| m

section LoadHdrFile

variable (stale : Nat → BitVec 32)

/-- The callback of `load_hdr_file` for one property. -/
def ImgHdr.loadProp (hdr : ImgHdr) (key value : List UInt8) : ImgHdr :=
  if key = utf8 "name" ∧ (hdr.cls.span .name).isSome then
    (hdr.put .name (zeros 16)).put .name (value.take 15)
  else if key = utf8 "cmdline" then
    let cleared := (hdr.put .cmdline (zeros 512)).put .extraCmdline (zeros 1024)
    if 512 < value.length then
      (cleared.put .cmdline (value.take 512)).put .extraCmdline ((value.drop 512).take 1024)
    else cleared.put .cmdline value
  else if key = utf8 "os_version" then
    let values := scanInts 46 3 value
    let old := BitVec.ofNat 32 (hdr.get .osVersion)
    hdr.set .osVersion (versionWord old (scanned stale values 0) (scanned stale values 1)
      (scanned stale values 2)).toNat
  else if key = utf8 "os_patch_level" then
    let values := scanInts 45 2 value
    let old := BitVec.ofNat 32 (hdr.get .osVersion)
    hdr.set .osVersion (patchLevelWord old (scanned stale values 0)
      (scanned stale values 1)).toNat
  else hdr

/-- `load_hdr_file`. -/
def ImgHdr.loadHdrFile (hdr : ImgHdr) (props : List (List UInt8 × List UInt8)) : ImgHdr :=
  props.foldl (fun hdr prop => hdr.loadProp stale prop.1 prop.2) hdr

/-- The fields a header file can change. -/
def editable : List Field :=
  [.name, .cmdline, .extraCmdline, .osVersion]

@[simp]
theorem ImgHdr.cls_loadProp (hdr : ImgHdr) (key value : List UInt8) :
    (hdr.loadProp stale key value).cls = hdr.cls := by
  unfold ImgHdr.loadProp
  split_ifs <;> simp only [cls_put, cls_set]

/-- One property leaves the other fields alone. -/
theorem ImgHdr.field_loadProp (hdr : ImgHdr) (key value : List UInt8) {field : Field}
    (fixed : field ∉ editable) :
    (hdr.loadProp stale key value).field field = hdr.field field := by
  simp only [editable, List.mem_cons, List.not_mem_nil, or_false, not_or] at fixed
  obtain ⟨notName, notCmdline, notExtraCmdline, notOsVersion⟩ := fixed
  unfold ImgHdr.loadProp
  split_ifs
  · rw [field_put_of_ne _ (Ne.symm notName), field_put_of_ne _ (Ne.symm notName)]
  · rw [field_put_of_ne _ (Ne.symm notExtraCmdline), field_put_of_ne _ (Ne.symm notCmdline),
      field_put_of_ne _ (Ne.symm notExtraCmdline), field_put_of_ne _ (Ne.symm notCmdline)]
  · rw [field_put_of_ne _ (Ne.symm notCmdline), field_put_of_ne _ (Ne.symm notExtraCmdline),
      field_put_of_ne _ (Ne.symm notCmdline)]
  · exact field_set_of_ne _ (Ne.symm notOsVersion) _
  · exact field_set_of_ne _ (Ne.symm notOsVersion) _
  · rfl

section

variable (hdr : ImgHdr) (props : List (List UInt8 × List UInt8))

@[simp]
theorem ImgHdr.cls_loadHdrFile :
    (hdr.loadHdrFile stale props).cls = hdr.cls := by
  induction props generalizing hdr with
  | nil => rfl
  | cons prop props ih => exact (ih _).trans (cls_loadProp stale hdr _ _)

/-- A header file changes the name, the command lines and the version only. -/
theorem ImgHdr.field_loadHdrFile {field : Field} (fixed : field ∉ editable) :
    (hdr.loadHdrFile stale props).field field = hdr.field field := by
  induction props generalizing hdr with
  | nil => rfl
  | cons prop props ih => exact (ih _).trans (field_loadProp stale hdr _ _ fixed)

theorem ImgHdr.edits_loadHdrFile :
    Edits hdr (hdr.loadHdrFile stale props) :=
  ⟨cls_loadHdrFile stale hdr props, fun field mem =>
    field_loadHdrFile stale hdr props ((by decide : ∀ field ∈ readOnly, field ∉ editable) field mem)⟩

end

end LoadHdrFile

end Magisk.Boot.Image
