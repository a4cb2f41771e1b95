import Magisk.Boot.Cpio.Core
import Magisk.Text.Core

/-!
# Archive commands

Commands address entries by path.  A path is first normalised to the form the
names of an archive have: components joined by single slashes, with no slash
at either end.
-/

namespace Magisk.Boot.Cpio

open Std (ExtTreeMap)
open List Text

/-- `norm_path`: the non-empty components of a path, joined by `/`. -/
def normPath (path : String) : String :=
  "/".intercalate ((split '/' path).filter (· ≠ ""))

theorem of_mem_components {path part : String} (mem : part ∈ (split '/' path).filter (· ≠ "")) :
    '/' ∉ part.toList ∧ part ≠ "" := by
  obtain ⟨inPath, nonempty⟩ := mem_filter.mp mem
  exact ⟨notMem_of_mem_split inPath, by simpa using nonempty⟩

/-- A normal form is its own. -/
theorem normPath_normPath (path : String) : normPath (normPath path) = normPath path := by
  have keep : ∀ part ∈ (split '/' path).filter (· ≠ ""), _ := fun _ => of_mem_components
  unfold normPath
  generalize (split '/' path).filter (· ≠ "") = parts at keep
  by_cases none : parts = []
  · subst none
    decide
  · have again : split '/' ("/".intercalate parts) = parts :=
      split_eq_of_intercalate String.toList_intercalate none fun part mem => (keep part mem).1
    rw [again, filter_eq_self.mpr fun part mem => by simpa using (keep part mem).2]

/-- A normal form does not start with a slash. -/
theorem normPath_ne_slash (path rest : String) : normPath path ≠ "/" ++ rest := by
  have keep : ∀ part ∈ (split '/' path).filter (· ≠ ""), _ := fun _ => of_mem_components
  unfold normPath
  generalize (split '/' path).filter (· ≠ "") = parts at keep
  intro slash
  have chars := congrArg String.toList slash
  rw [String.toList_intercalate, String.toList_append] at chars
  cases parts with
  | nil => cases chars
  | cons part parts =>
    obtain ⟨noSlash, nonempty⟩ := keep part mem_cons_self
    cases letters : part.toList with
    | nil => exact nonempty (String.toList_eq_nil_iff.mp letters)
    | cons letter letters' =>
      cases parts <;> simp_all [intercalate]

/-- `Cpio::rm`: remove one entry, and everything below it when asked to. -/
def rm (cpio : Cpio) (path : String) (recursive : Bool) : Cpio :=
  let path := normPath path
  let entries := cpio.entries.erase path
  if recursive then
    ⟨entries.filter fun name _ => !startsWith name (path ++ "/")⟩
  else
    ⟨entries⟩

theorem getElem?_rm (cpio : Cpio) (path name : String) :
    (cpio.rm path false).entries[name]? =
      if normPath path = name then none else cpio.entries[name]? := by
  simp [rm, ExtTreeMap.getElem?_erase]

theorem getElem?_rm_recursive (cpio : Cpio) (path name : String) :
    (cpio.rm path true).entries[name]? =
      if normPath path = name ∨ startsWith name (normPath path ++ "/") = true then none
      else cpio.entries[name]? := by
  simp only [rm, if_true, ExtTreeMap.getElem?_filter', ExtTreeMap.getElem?_erase, compare_eq_iff_eq]
  by_cases equal : normPath path = name
  · simp [equal]
  · by_cases below : startsWith name (normPath path ++ "/") = true
    · simp [below]
    · cases cpio.entries[name]? <;> simp [below, equal]

/-- Removing a list of names removes exactly those their normal forms name. -/
theorem getElem?_foldl_rm (cpio : Cpio) (names : List String) (name : String) :
    (names.foldl (fun cpio name => cpio.rm name false) cpio).entries[name]? =
      if name ∈ names.map normPath then none else cpio.entries[name]? := by
  induction names generalizing cpio with
  | nil => simp
  | cons first rest ih =>
    rw [foldl_cons, ih, getElem?_rm]
    by_cases equal : normPath first = name
    · simp [equal]
    · simp [equal, Ne.symm equal]

end Magisk.Boot.Cpio
