import Mathlib

/-!
# Text predicates and separators

The string operations that path-handling code is made of, read on the list of
characters: affix tests, removal of an affix of known length, and splitting at
a separator.  A list of names written with a terminator after each name is
recovered by splitting, up to the empty piece after the last terminator.
-/

namespace Magisk.Text

open List

variable {text affix : String} {count : Nat} {α : Type} {terminator separator : Char}
  {names : List String}

/-- `text.starts_with(affix)`. -/
def startsWith (text affix : String) : Bool :=
  affix.toList.isPrefixOf text.toList

/-- `text.ends_with(affix)`. -/
def endsWith (text affix : String) : Bool :=
  affix.toList.isSuffixOf text.toList

/-- Remove the first `count` characters. -/
def dropFirst (text : String) (count : Nat) : String :=
  String.ofList (text.toList.drop count)

/-- Remove the last `count` characters. -/
def dropLast (text : String) (count : Nat) : String :=
  String.ofList (text.toList.take (text.toList.length - count))

/-- The pieces of `text` between occurrences of `separator`. -/
def split (separator : Char) (text : String) : List String :=
  (text.toList.splitOn separator).map String.ofList

/-- Every name followed by the terminator. -/
def terminated (terminator : Char) (names : List String) : String :=
  String.ofList (names.flatMap fun name => name.toList ++ [terminator])

/-! ## Affixes -/

theorem startsWith_iff : startsWith text affix = true ↔ ∃ rest, text = affix ++ rest := by
  rw [startsWith, isPrefixOf_iff_prefix]
  constructor
  · rintro ⟨rest, equal⟩
    refine ⟨String.ofList rest, String.toList_injective ?_⟩
    rw [String.toList_append, String.toList_ofList, equal]
  · rintro ⟨rest, rfl⟩
    rw [String.toList_append]
    exact prefix_append _ _

theorem endsWith_iff : endsWith text affix = true ↔ ∃ rest, text = rest ++ affix := by
  rw [endsWith, isSuffixOf_iff_suffix]
  constructor
  · rintro ⟨rest, equal⟩
    refine ⟨String.ofList rest, String.toList_injective ?_⟩
    rw [String.toList_append, String.toList_ofList, equal]
  · rintro ⟨rest, rfl⟩
    rw [String.toList_append]
    exact suffix_append _ _

@[simp]
theorem startsWith_append (affix rest : String) : startsWith (affix ++ rest) affix = true :=
  startsWith_iff.mpr ⟨rest, rfl⟩

@[simp]
theorem endsWith_append (rest affix : String) : endsWith (rest ++ affix) affix = true :=
  endsWith_iff.mpr ⟨rest, rfl⟩

theorem dropFirst_append (countEq : count = affix.toList.length) (rest : String) :
    dropFirst (affix ++ rest) count = rest := by
  subst countEq
  rw [dropFirst, String.toList_append, drop_left, String.ofList_toList]

theorem dropLast_append (countEq : count = affix.toList.length) (rest : String) :
    dropLast (rest ++ affix) count = rest := by
  subst countEq
  rw [dropLast, String.toList_append, length_append, Nat.add_sub_cancel, take_left,
    String.ofList_toList]

/-! ## Separators -/

theorem splitOn_terminated [DecidableEq α] (terminator : α) (words : List (List α))
    (free : ∀ word ∈ words, terminator ∉ word) :
    (words.flatMap fun word => word ++ [terminator]).splitOn terminator = words ++ [[]] := by
  induction words with
  | nil => rfl
  | cons word words ih =>
    have wordFree : ∀ x ∈ word, (x == terminator) = false := by
      intro x mem
      rw [beq_eq_false_iff_ne]
      rintro rfl
      exact free word mem_cons_self mem
    have tailFree := ih fun other mem => free other (mem_cons_of_mem word mem)
    rw [splitOn] at tailFree ⊢
    have separated : (terminator == terminator) = true := beq_self_eq_true terminator
    rw [flatMap_cons, append_assoc, singleton_append,
      @splitOnP_append_cons _ (· == terminator) word _ terminator separated,
      splitOnP_eq_singleton wordFree, tailFree]
    rfl

/-- Terminated names are read back by splitting at the terminator. -/
theorem split_terminated (free : ∀ name ∈ names, terminator ∉ name.toList) :
    split terminator (terminated terminator names) = names ++ [""] := by
  have wordsFree : ∀ word ∈ names.map String.toList, terminator ∉ word := by
    intro word mem
    obtain ⟨name, nameMem, rfl⟩ := mem_map.mp mem
    exact free name nameMem
  have pieces := splitOn_terminated terminator (names.map String.toList) wordsFree
  rw [flatMap_map] at pieces
  rw [split, terminated, String.toList_ofList, pieces]
  simp [Function.comp_def]

theorem notMem_of_mem_splitOn [DecidableEq α] {separator : α} {text piece : List α}
    (mem : piece ∈ text.splitOn separator) : separator ∉ piece := by
  induction text generalizing piece with
  | nil =>
    rw [splitOn, splitOnP_nil, mem_singleton] at mem
    rw [mem]
    exact not_mem_nil
  | cons first rest ih =>
    rw [splitOn, splitOnP_cons_eq_if_modifyHead] at mem
    split at mem
    · rcases mem_cons.mp mem with rfl | tailMem
      · exact not_mem_nil
      · exact ih tailMem
    · rename_i other
      cases pieces : rest.splitOnP (· == separator) with
      | nil => exact absurd pieces (splitOnP_ne_nil _ _)
      | cons head tail =>
        rw [pieces] at mem
        rcases mem_cons.mp mem with rfl | tailMem
        · intro inside
          rcases mem_cons.mp inside with rfl | inHead
          · exact other (beq_self_eq_true separator)
          · exact ih (show head ∈ rest.splitOnP _ by rw [pieces]; exact mem_cons_self) inHead
        · exact ih (show piece ∈ rest.splitOnP _ by
            rw [pieces]; exact mem_cons_of_mem head tailMem)

theorem notMem_of_mem_split {piece : String} (mem : piece ∈ split separator text) :
    separator ∉ piece.toList := by
  obtain ⟨chars, charsMem, rfl⟩ := mem_map.mp mem
  rw [String.toList_ofList]
  exact notMem_of_mem_splitOn charsMem

/-- Pieces without the separator are found again. -/
theorem split_eq_of_intercalate {pieces : List String}
    (joined : text.toList = [separator].intercalate (pieces.map String.toList))
    (nonempty : pieces ≠ []) (free : ∀ piece ∈ pieces, separator ∉ piece.toList) :
    split separator text = pieces := by
  rw [split, joined, splitOn_intercalate]
  · rw [map_map]
    conv_rhs => rw [← map_id pieces]
    exact map_congr_left fun piece _ => String.ofList_toList
  · intro piece mem
    rcases mem_map.mp mem with ⟨source, sourceMem, rfl⟩
    exact free source sourceMem
  · simpa using nonempty

theorem terminated_append (terminator : Char) (first second : List String) :
    terminated terminator (first ++ second) =
      terminated terminator first ++ terminated terminator second := by
  rw [terminated, flatMap_append, String.ofList_append]
  rfl

theorem terminated_singleton (terminator : Char) (name : String) :
    terminated terminator [name] = name ++ String.singleton terminator := by
  apply String.toList_injective
  simp [terminated]

theorem terminated_eq_empty_iff : terminated terminator names = "" ↔ names = [] := by
  rw [terminated]
  cases names with
  | nil => simp
  | cons name names => simp

end Magisk.Text
