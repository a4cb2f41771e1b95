import Magisk.Bytes.Core

/-!
# The order of strings and of their bytes

UTF-8 keeps the order of code points: the bytes of the smaller one of two strings come
first in the order of bytes.
-/

namespace Magisk.Bytes

open List

/-- Numbers below 256 are compared as bytes, the first of two lists deciding. -/
theorem ofNat_cons_lt {a b : Nat} (aFits : a < 256) (bFits : b < 256) {left right : List UInt8}
    (less : a < b ∨ a = b ∧ left < right) :
    UInt8.ofNat a :: left < UInt8.ofNat b :: right := by
  rw [cons_lt_cons_iff]
  rcases less with less | ⟨rfl, less⟩
  · left
    rw [UInt8.lt_iff_toNat_lt, UInt8.toNat_ofNat_of_lt' aFits, UInt8.toNat_ofNat_of_lt' bFits]
    exact less
  · exact Or.inr ⟨rfl, less⟩

theorem toNat_val_lt (c : Char) : c.val.toNat < 0x110000 := by
  have valid := c.valid
  omega

/-- The bytes of a smaller character come first, whatever follows. -/
theorem utf8EncodeChar_append_lt {c d : Char} (less : c < d) (left right : List UInt8) :
    String.utf8EncodeChar c ++ left < String.utf8EncodeChar d ++ right := by
  have order : c.val.toNat < d.val.toNat := less
  have fits := toNat_val_lt d
  unfold String.utf8EncodeChar
  generalize c.val.toNat = v at order
  generalize d.val.toNat = w at order fits
  dsimp only
  split
  · split
    · exact ofNat_cons_lt (by omega) (by omega) (.inl order)
    · split
      · exact ofNat_cons_lt (by omega) (by omega) (.inl (by omega))
      · split <;> exact ofNat_cons_lt (by omega) (by omega) (.inl (by omega))
  · rw [if_neg (show ¬ w ≤ 127 by omega)]
    split
    · split
      · refine ofNat_cons_lt (by omega) (by omega) ?_
        by_cases high : v / 64 = w / 64
        · exact .inr ⟨by rw [high], ofNat_cons_lt (by omega) (by omega) (.inl (by omega))⟩
        · exact .inl (by omega)
      · split <;> exact ofNat_cons_lt (by omega) (by omega) (.inl (by omega))
    · rw [if_neg (show ¬ w ≤ 2047 by omega)]
      split
      · split
        · refine ofNat_cons_lt (by omega) (by omega) ?_
          by_cases high : v / 4096 = w / 4096
          · refine .inr ⟨by rw [high], ofNat_cons_lt (by omega) (by omega) ?_⟩
            by_cases middle : v / 64 = w / 64
            · exact .inr ⟨by rw [middle], ofNat_cons_lt (by omega) (by omega) (.inl (by omega))⟩
            · exact .inl (by omega)
          · exact .inl (by omega)
        · exact ofNat_cons_lt (by omega) (by omega) (.inl (by omega))
      · rw [if_neg (show ¬ w ≤ 65535 by omega)]
        refine ofNat_cons_lt (by omega) (by omega) ?_
        by_cases top : v / 262144 = w / 262144
        · refine .inr ⟨by rw [top], ofNat_cons_lt (by omega) (by omega) ?_⟩
          by_cases high : v / 4096 = w / 4096
          · refine .inr ⟨by rw [high], ofNat_cons_lt (by omega) (by omega) ?_⟩
            by_cases middle : v / 64 = w / 64
            · exact .inr ⟨by rw [middle], ofNat_cons_lt (by omega) (by omega) (.inl (by omega))⟩
            · exact .inl (by omega)
          · exact .inl (by omega)
        · exact .inl (by omega)

theorem utf8_ofList_lt {left right : List Char} (less : left < right) :
    utf8 (String.ofList left) < utf8 (String.ofList right) := by
  rw [utf8_ofList, utf8_ofList]
  induction right generalizing left with
  | nil => exact absurd less (not_lt_nil left)
  | cons d right ih =>
    cases left with
    | nil =>
      rw [flatMap_cons]
      obtain ⟨byte, rest, bytes⟩ := exists_cons_of_ne_nil (@String.utf8EncodeChar_ne_nil d)
      rw [bytes]
      exact nil_lt_cons byte _
    | cons c left =>
      rcases cons_lt_cons_iff.mp less with first | ⟨rfl, later⟩
      · exact utf8EncodeChar_append_lt first _ _
      · exact append_left_lt (ih later)

/-- The order of strings is the order of their bytes. -/
theorem utf8_lt {left right : String} (less : compare left right = .lt) :
    utf8 left < utf8 right := by
  have chars : left.toList < right.toList := String.lt_iff_toList_lt.mp (compare_lt_iff_lt.mp less)
  have bytes := utf8_ofList_lt chars
  rwa [String.ofList_toList, String.ofList_toList] at bytes

end Magisk.Bytes
