import Magisk.Boot.Cpio.Commands

/-!
# Listing and removing a subtree

`ls -r` and `rm -r` both select the entry a path names and everything below it,
but by different tests: `ls` strips the path from the name, both with a slash in
front, and `rm` looks for the path with a slash behind it.  The tests agree on
every path but the root, which has no name of its own.
-/

namespace Magisk.Boot.Cpio

open Std (ExtTreeMap)
open Text

variable {text affix : String}

/-- `str::strip_prefix`. -/
def stripPrefix (text affix : String) : Option String :=
  if startsWith text affix then some (dropFirst text affix.toList.length) else none

/-- Whether `Cpio::ls` prints a name; `path` is empty or starts with a slash. -/
def lists (path : String) (recursive : Bool) (name : String) : Bool :=
  match stripPrefix ("/" ++ name) path with
  | none => false
  | some p =>
    if p ≠ "" ∧ startsWith p "/" = false then false
    else recursive || p = "" || p.toList.count '/' ≤ 1

/-- `Cpio::ls`: the entries that are printed. -/
def ls (cpio : Cpio) (path : String) (recursive : Bool) : List (String × CpioEntry) :=
  let path := normPath path
  let path := if path = "" then path else "/" ++ path
  cpio.entries.toList.filter fun named => lists path recursive named.1

/-- Removing a path recursively removes exactly what listing it recursively
prints, and keeps the rest as it is. -/
def RemovesListed (cpio : Cpio) (path : String) : Prop :=
  ∀ name, (cpio.rm path true).entries[name]? =
    if name ∈ (cpio.ls path true).map Prod.fst then none else cpio.entries[name]?

theorem stripPrefix_eq_some_iff {rest : String} :
    stripPrefix text affix = some rest ↔ text = affix ++ rest := by
  unfold stripPrefix
  constructor
  · intro stripped
    split at stripped
    · rename_i starts
      obtain ⟨tail, rfl⟩ := startsWith_iff.mp starts
      rw [dropFirst_append rfl, Option.some.injEq] at stripped
      rw [stripped]
    · cases stripped
  · rintro rfl
    rw [if_pos (startsWith_append affix rest), dropFirst_append rfl]

variable {path name : String}

/-- A recursive listing prints what the path names and what is below it. -/
theorem lists_recursive_iff : lists path true name = true ↔
      "/" ++ name = path ∨ ∃ rest, "/" ++ name = path ++ "/" ++ rest := by
  unfold lists
  constructor
  · intro listed
    split at listed
    · cases listed
    · rename_i p stripped
      rw [stripPrefix_eq_some_iff.mp stripped]
      by_cases empty : p = ""
      · exact .inl (by rw [empty, String.append_empty])
      · have slash : startsWith p "/" = true := by simpa [empty] using listed
        obtain ⟨rest, rfl⟩ := startsWith_iff.mp slash
        exact .inr ⟨rest, String.append_assoc.symm⟩
  · rintro (equal | ⟨rest, equal⟩)
    · rw [stripPrefix_eq_some_iff.mpr (equal.trans String.append_empty.symm)]
      rfl
    · rw [stripPrefix_eq_some_iff.mpr (equal.trans String.append_assoc)]
      simp

/-- The path `Cpio::ls` compares names with. -/
def listedPath (path : String) : String :=
  if normPath path = "" then normPath path else "/" ++ normPath path

theorem mem_ls_iff {cpio : Cpio} {recursive : Bool} : name ∈ (cpio.ls path recursive).map Prod.fst ↔
      name ∈ cpio.entries ∧ lists (listedPath path) recursive name = true := by
  simp only [ls, List.mem_map, List.mem_filter, Prod.exists,
    ExtTreeMap.mem_toList_iff_getElem?_eq_some, ExtTreeMap.mem_iff_isSome_getElem?,
    Option.isSome_iff_exists]
  constructor
  · rintro ⟨_, entry, ⟨found, listed⟩, rfl⟩
    exact ⟨⟨entry, found⟩, listed⟩
  · rintro ⟨⟨entry, found⟩, listed⟩
    exact ⟨name, entry, ⟨found, listed⟩, rfl⟩

/-- It is a question of the names that the archive has. -/
theorem removesListed_iff_forall {cpio : Cpio} : RemovesListed cpio path ↔ ∀ name ∈ cpio.entries,
      ((normPath path = name ∨ startsWith name (normPath path ++ "/") = true) ↔
        lists (listedPath path) true name = true) := by
  refine forall_congr' fun name => ?_
  simp only [getElem?_rm_recursive, mem_ls_iff, ExtTreeMap.mem_iff_isSome_getElem?]
  cases cpio.entries[name]? with
  | none => simp
  | some entry =>
    by_cases removed : normPath path = name ∨ startsWith name (normPath path ++ "/") = true <;>
      by_cases listed : lists (listedPath path) true name = true <;> simp [removed]

/-- Below a named path the two commands select the same entries; the root is
listed with all entries and removes at most one without a name. -/
theorem removesListed_iff {cpio : Cpio} (normal : ∀ name ∈ cpio.entries, normPath name = name)
    (path : String) :
    RemovesListed cpio path ↔ normPath path ≠ "" ∨ ∀ name ∈ cpio.entries, name = "" := by
  rw [removesListed_iff_forall]
  by_cases root : normPath path = ""
  · simp only [root, ne_eq, not_true_eq_false, false_or]
    refine forall₂_congr fun name mem => ?_
    have listed : lists (listedPath path) true name = true := by
      rw [listedPath, root, lists_recursive_iff]
      exact .inr ⟨name, rfl⟩
    have noSlash : startsWith name ("" ++ "/") = false := by
      rw [← Bool.not_eq_true, startsWith_iff, ← normal name mem]
      rintro ⟨rest, slash⟩
      exact normPath_ne_slash name rest slash
    simp only [listed, noSlash, Bool.false_eq_true, or_false, iff_true]
    exact eq_comm
  · refine iff_of_true (fun name mem => ?_) (.inl root)
    rw [listedPath, if_neg root, lists_recursive_iff, startsWith_iff]
    refine or_congr ?_ (exists_congr fun rest => ?_)
    · rw [String.append_right_inj, eq_comm]
    · rw [String.append_assoc, String.append_assoc, String.append_assoc, String.append_right_inj]

/-- An archive of one file. -/
def oneFile : Cpio :=
  ⟨(∅ : Entries).insert "init" ⟨0o100644, 0, 0, 0, 0, []⟩⟩

theorem normal_oneFile : ∀ name ∈ oneFile.entries, normPath name = name := by
  intro name mem
  have isInit : compare "init" name = .eq := by simpa [oneFile] using mem
  rw [← compare_eq_iff_eq.mp isInit]
  decide

/-- Any spelling of the file's name selects it. -/
theorem removesListed_iff_oneFile : RemovesListed oneFile "//init/" ↔
    normPath "//init/" ≠ "" ∨ ∀ name ∈ oneFile.entries, name = "" :=
  removesListed_iff normal_oneFile "//init/"

/-- The root is listed with the file, but removing it keeps the file. -/
theorem not_removesListed_root : ¬ RemovesListed oneFile "/" := by
  intro removes
  have listed := removesListed_iff_forall.mp removes "init" (by decide)
  revert listed
  decide

end Magisk.Boot.Cpio
