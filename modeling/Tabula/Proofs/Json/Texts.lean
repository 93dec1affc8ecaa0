import Mathlib.Data.List.Basic
import Tabula.Json.Parser
import Tabula.Json.Printer

/-!
# Texts of JSON strings

A string that is written between quotes is read back (`string_escaped`), one character after
another: each of them is written as itself, or behind a backslash by a letter or by its code. So
different strings are written differently (`quote_injective`).
-/

set_option autoImplicit false

namespace Tabula.Json

theorem hexValue?_hexDigit : ∀ n < 16, Parser.hexValue? (hexDigit n) = some n := by
  decide

theorem hex4?_hexDigit {n : ℕ} (h : n < 256) :
    Parser.hex4? '0' '0' (hexDigit (n / 16)) (hexDigit (n % 16)) = some n := by
  have hzero : Parser.hexValue? '0' = some 0 := rfl
  have hhigh := hexValue?_hexDigit (n / 16) (by omega)
  have hlow := hexValue?_hexDigit (n % 16) (by omega)
  simp only [Parser.hex4?, hzero, hhigh, hlow, Option.bind_eq_bind, Option.bind_some]
  congr 1
  omega

/-- **A character is read back**, however it is written. -/
theorem string_escapeChar (c : Char) (rest : List Char) :
    Parser.string (escapeChar c ++ rest)
      = (Parser.string rest).map fun (s, rest) => (c :: s, rest) := by
  unfold escapeChar
  split
  all_goals try rfl
  next hquote hslash _ _ _ _ _ =>
      split
      next hcontrol =>
          -- a control character, by its code
          show Parser.string ('\\' :: 'u' :: '0' :: '0' :: _ :: _ :: rest) = _
          rw [Parser.string, hex4?_hexDigit (by omega)]
          dsimp only
          rw [if_pos (Or.inl (by omega)), Char.ofNat_toNat]
      next hplain =>
          rw [List.singleton_append, Parser.string]
          · exact if_neg (not_or.mpr ⟨hplain, hslash⟩)
          · exact hquote
          · exact fun _ _ _ _ _ heq _ => hslash heq
          · exact fun _ _ heq _ => hslash heq

/-- **A string is read back** up to its closing quote. -/
theorem string_escaped (cs rest : List Char) :
    Parser.string (cs.flatMap escapeChar ++ '"' :: rest) = some (cs, rest) := by
  induction cs with
  | nil => rw [List.flatMap_nil, List.nil_append, Parser.string]
  | cons c cs ih =>
      rw [List.flatMap_cons, List.append_assoc, string_escapeChar, ih]
      rfl

theorem toList_quote (s : String) :
    (quote s).toList = '"' :: (s.toList.flatMap escapeChar ++ ['"']) := by
  simp only [quote, String.toList_append, String.toList_ofList, List.append_assoc]
  rfl

/-- **Different strings are written differently.** -/
theorem quote_injective : Function.Injective quote := by
  intro s t h
  have hlists := congrArg String.toList h
  rw [toList_quote, toList_quote] at hlists
  have hread := congrArg Parser.string (List.cons.inj hlists).2
  rw [string_escaped, string_escaped] at hread
  exact String.toList_inj.mp (Prod.mk.inj (Option.some.inj hread)).1

end Tabula.Json
