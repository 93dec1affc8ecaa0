import Tabula.Proofs.Number.Texts

/-!
# Characters of numbers

The text of a number is made of digits, signs, a point and the letter of an exponent, and of
nothing else (`Number.isNumeral_text`).
-/

set_option autoImplicit false

namespace Tabula

/-- Whether a character can stand in the text of a number. -/
def IsNumeral (c : Char) : Prop := c.isDigit = true ∨ c ∈ ['-', '+', '.', 'e']

instance (c : Char) : Decidable (IsNumeral c) := inferInstanceAs (Decidable (_ ∨ _))

variable {cs ds : List Char}

theorem IsNumeral.append (hcs : ∀ c ∈ cs, IsNumeral c) (hds : ∀ c ∈ ds, IsNumeral c) :
    ∀ c ∈ cs ++ ds, IsNumeral c :=
  fun c hc => (List.mem_append.mp hc).elim (hcs c) (hds c)

theorem isNumeral_of_all (h : cs.all (fun c => decide (IsNumeral c)) = true) :
    ∀ c ∈ cs, IsNumeral c :=
  fun c hc => of_decide_eq_true (List.all_eq_true.mp h c hc)

theorem isNumeral_toDigits (n : ℕ) : ∀ c ∈ Nat.toDigits 10 n, IsNumeral c :=
  fun c hc => Or.inl (Double.isDigit_toDigits n c hc)

namespace Layout

theorem isNumeral_zeros (n : ℕ) : ∀ c ∈ (zeros n).toList, IsNumeral c := by
  intro c hc
  rw [zeros, String.toList_ofList] at hc
  exact Or.inl (Double.isDigit_zeros n c hc)

/-- Digits, with or without a point. -/
theorem isNumeral_positionalText (d : Decimal) :
    ∀ c ∈ (json.positionalText d).toList, IsNumeral c := by
  have hdigits := isNumeral_toDigits d.digits
  rw [positionalText]
  split
  next =>
      simp only [String.toList_append, String.toList_ofList]
      exact .append (.append hdigits (isNumeral_zeros _)) (isNumeral_of_all (by decide))
  next =>
      dsimp only
      split
      next =>
          simp only [String.toList_append, String.toList_ofList]
          refine .append (.append ?_ (isNumeral_of_all (by decide))) ?_
          · exact fun c hc => hdigits c (List.mem_of_mem_take hc)
          · exact fun c hc => hdigits c (List.mem_of_mem_drop hc)
      next =>
          simp only [String.toList_append, String.toList_ofList]
          exact .append (.append (isNumeral_of_all (by decide)) (isNumeral_zeros _)) hdigits

/-- Digits with an exponent. -/
theorem isNumeral_scientificText (d : Decimal) :
    ∀ c ∈ (json.scientificText d).toList, IsNumeral c := by
  have hdigits := isNumeral_toDigits d.digits
  have hexponent : ∀ c ∈ (toString d.leading.natAbs).toList, IsNumeral c := by
    rw [Nat.toString_eq_repr, Nat.toList_repr]
    exact isNumeral_toDigits _
  have hsign : ∀ c ∈ (if d.leading < 0 then "-" else json.exponentSign).toList, IsNumeral c := by
    split
    next => exact isNumeral_of_all (by decide)
    next => exact isNumeral_of_all (by decide)
  rw [scientificText]
  simp only [String.toList_append]
  refine .append (.append (.append ?_ (isNumeral_of_all (by decide))) hsign) hexponent
  split
  next c hone =>
      rw [String.toList_singleton]
      intro c' hc'
      exact hdigits c' (by rwa [hone])
  next c rest hmore =>
      rw [hmore, List.forall_mem_cons] at hdigits
      simp only [String.toList_append, String.toList_singleton, String.toList_ofList]
      exact .append (.append (by simpa using hdigits.1) (isNumeral_of_all (by decide))) hdigits.2
  next => exact isNumeral_of_all (by decide)

theorem isNumeral_write (x : Float) : ∀ c ∈ (json.write x).toList, IsNumeral c := by
  rw [write, String.toList_append]
  refine .append ?_ ?_
  · split
    next => exact isNumeral_of_all (by decide)
    next => exact isNumeral_of_all (by decide)
  · split
    next => exact isNumeral_positionalText _
    next => exact isNumeral_scientificText _

end Layout

/-- **The text of a number is made of numerals.** -/
theorem Number.isNumeral_text (n : Number) : ∀ c ∈ n.text.toList, IsNumeral c := by
  cases n with
  | int i =>
      rw [Number.text, Int.toString_eq_repr, Int.repr_eq_if]
      split
      next =>
          rw [Nat.toList_repr]
          exact isNumeral_toDigits _
      next =>
          rw [String.toList_append, Nat.toList_repr]
          exact .append (isNumeral_of_all (by decide)) (isNumeral_toDigits _)
  | float x => exact Layout.isNumeral_write x

end Tabula
