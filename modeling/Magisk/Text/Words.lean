import Mathlib

/-!
# Words and lines

A text is cut into words at white space and into lines behind each line end.
Words that are joined by single spaces are found again.
-/

namespace Magisk.Text

open List

universe u v

variable {α : Type u}

/-! ## Words -/

/-- The maximal parts without white space. -/
def words (isSpace : α → Bool) (text : List α) : List (List α) :=
  (text.splitOnP isSpace).filter fun word => !word.isEmpty

/-- Remove white space at both ends. -/
def trim (isSpace : α → Bool) (text : List α) : List α :=
  ((text.dropWhile isSpace).reverse.dropWhile isSpace).reverse

/-- Join words by single spaces. -/
def unwords (space : α) : List (List α) → List α
  | [] => []
  | [word] => word
  | word :: next :: rest => word ++ space :: unwords space (next :: rest)

/-- Something without white space. -/
structure IsWord (isSpace : α → Bool) (word : List α) : Prop where
  nonempty : word ≠ []
  solid : ∀ a ∈ word, isSpace a = false

variable {newline : α}

section Words

variable {isSpace : α → Bool} {space : α} {word : List α}

theorem isWord_of_all (nonempty : word ≠ []) (solid : (word.all fun a => !isSpace a) = true) :
    IsWord isSpace word := by
  refine ⟨nonempty, fun a mem => ?_⟩
  rw [all_eq_true] at solid
  exact (Bool.not_eq_true' _).mp (solid a mem)

theorem IsWord.words_eq (isWord : IsWord isSpace word) : words isSpace word = [word] := by
  rw [words, splitOnP_eq_singleton isWord.solid]
  cases word with
  | nil => exact absurd rfl isWord.nonempty
  | cons a rest => rfl

theorem IsWord.words_append (isWord : IsWord isSpace word) (separates : isSpace space = true)
    (rest : List α) : words isSpace (word ++ space :: rest) = word :: words isSpace rest := by
  rw [words, @splitOnP_append_cons _ isSpace word rest space separates,
    splitOnP_eq_singleton isWord.solid]
  cases word with
  | nil => exact absurd rfl isWord.nonempty
  | cons a tail => rfl

variable {list : List (List α)}

/-- Joined words are found again. -/
theorem words_unwords (separates : isSpace space = true)
    (areWords : ∀ word ∈ list, IsWord isSpace word) :
    words isSpace (unwords space list) = list := by
  induction list with
  | nil => rfl
  | cons word rest ih =>
    have isWord := areWords word mem_cons_self
    have others := ih fun other mem => areWords other (mem_cons_of_mem word mem)
    cases rest with
    | nil => exact isWord.words_eq
    | cons next rest => rw [unwords, isWord.words_append separates, others]

/-- Joined words start with the first of them. -/
theorem unwords_cons_eq_append (space : α) (word : List α) (rest : List (List α)) :
    ∃ tail, unwords space (word :: rest) = word ++ tail := by
  cases rest with
  | nil => exact ⟨[], (append_nil word).symm⟩
  | cons next rest => exact ⟨space :: unwords space (next :: rest), rfl⟩

/-- Joined words end with the last of them. -/
theorem unwords_concat_eq_append (space : α) (list : List (List α)) (word : List α) :
    ∃ front, unwords space (list ++ [word]) = front ++ word := by
  induction list with
  | nil => exact ⟨[], rfl⟩
  | cons first rest ih =>
    rcases ih with ⟨front, eq⟩
    refine ⟨first ++ space :: front, ?_⟩
    cases rest with
    | nil =>
      change first ++ space :: unwords space ([] ++ [word]) = first ++ space :: front ++ word
      rw [eq, append_assoc]
      rfl
    | cons next rest =>
      change first ++ space :: unwords space (next :: rest ++ [word]) =
        first ++ space :: front ++ word
      rw [eq, append_assoc]
      rfl

theorem mem_unwords {a space : α} (mem : a ∈ unwords space list) :
    a = space ∨ ∃ word ∈ list, a ∈ word := by
  induction list with
  | nil => cases mem
  | cons word rest ih =>
    cases rest with
    | nil => exact Or.inr ⟨word, mem_cons_self, mem⟩
    | cons next rest =>
      rw [unwords, mem_append, mem_cons] at mem
      rcases mem with mem | mem | mem
      · exact Or.inr ⟨word, mem_cons_self, mem⟩
      · exact Or.inl mem
      · rcases ih mem with isSpace | ⟨other, otherMem, mem⟩
        · exact Or.inl isSpace
        · exact Or.inr ⟨other, mem_cons_of_mem word otherMem, mem⟩

/-- A translation that keeps parts and spaces translates words one by one. -/
theorem translate_unwords {β : Type v} (translate : List α → List β) (space : α) (space' : β)
    (nil : translate [] = [])
    (append : ∀ left right, translate (left ++ right) = translate left ++ translate right)
    (single : translate [space] = [space']) (list : List (List α)) :
    translate (unwords space list) = unwords space' (list.map translate) := by
  induction list with
  | nil => exact nil
  | cons word rest ih =>
    cases rest with
    | nil => rfl
    | cons next rest =>
      change translate (word ++ ([space] ++ unwords space (next :: rest))) =
        translate word ++ ([space'] ++ unwords space' ((next :: rest).map translate))
      rw [append, append, single, ih]

theorem IsWord.head?_append (isWord : IsWord isSpace word) (rest : List α) :
    ∃ a tail, word ++ rest = a :: tail ∧ isSpace a = false ∧ word.head? = some a := by
  cases word with
  | nil => exact absurd rfl isWord.nonempty
  | cons a tail => exact ⟨a, tail ++ rest, rfl, isWord.solid a mem_cons_self, rfl⟩

/-- A line of words has nothing to trim but its line end. -/
theorem trim_unwords_append (ends : isSpace newline = true) (nonempty : list ≠ [])
    (areWords : ∀ word ∈ list, IsWord isSpace word) :
    trim isSpace (unwords space list ++ [newline]) = unwords space list := by
  have front : (unwords space list ++ [newline]).dropWhile isSpace =
      unwords space list ++ [newline] := by
    rcases exists_cons_of_ne_nil nonempty with ⟨word, rest, rfl⟩
    rcases unwords_cons_eq_append space word rest with ⟨tail, eq⟩
    rcases (areWords word mem_cons_self).head?_append (tail ++ [newline]) with
      ⟨a, after, starts, solid, _⟩
    rw [eq, append_assoc, starts, dropWhile_cons_of_neg (by rw [solid]; decide)]
  have back : (unwords space list).reverse.dropWhile isSpace = (unwords space list).reverse := by
    rcases eq_nil_or_concat list with rfl | ⟨before, word, rfl⟩
    · exact absurd rfl nonempty
    · rcases unwords_concat_eq_append space before word with ⟨front, eq⟩
      have isWord := areWords word (by simp)
      have reversed : IsWord isSpace word.reverse :=
        ⟨by simpa using isWord.nonempty, fun a mem => isWord.solid a (mem_reverse.mp mem)⟩
      rcases reversed.head?_append front.reverse with ⟨a, after, starts, solid, _⟩
      rw [concat_eq_append, eq, reverse_append, starts,
        dropWhile_cons_of_neg (by rw [solid]; decide)]
  rw [trim, front, reverse_append, reverse_singleton, singleton_append,
    dropWhile_cons_of_pos ends, back, reverse_reverse]

end Words

/-! ## Lines -/

variable [DecidableEq α]

/-- Cut a text behind each line end. -/
def splitLines (newline : α) : List α → List (List α)
  | [] => []
  | a :: rest =>
    if a = newline then
      [a] :: splitLines newline rest
    else
      match splitLines newline rest with
      | [] => [[a]]
      | line :: lines => (a :: line) :: lines

/-- A line in front of a text is cut off. -/
theorem splitLines_append {line : List α} (inside : newline ∉ line) (rest : List α) :
    splitLines newline (line ++ newline :: rest) =
      (line ++ [newline]) :: splitLines newline rest := by
  induction line with
  | nil =>
    rw [nil_append, splitLines, if_pos rfl]
    rfl
  | cons a line ih =>
    rw [mem_cons, not_or] at inside
    rw [cons_append, splitLines, if_neg (Ne.symm inside.1), ih inside.2]
    rfl

end Magisk.Text
