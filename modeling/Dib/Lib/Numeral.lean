import Mathlib.Data.Nat.Digits.Defs
import Mathlib.Data.Int.Cast.Basic
import Mathlib.Data.List.Induction

/-!
# Decimal numerals

* `digitsValue`, `Numeral`: the number that digits stand for, and the texts of integers;
* `digitsValue_concat`, `foldl_digits`: it is what a loop over the digits computes;
* `digitsValue_lt`: its size.
-/

set_option autoImplicit false

namespace Numerals

def digitsValue (ds : List Char) : ℕ :=
  Nat.ofDigits 10 (ds.reverse.map fun c => c.toNat - '0'.toNat)

/-- **The decimal numerals**, perhaps with a sign. -/
inductive Numeral : List Char → ℤ → Prop
  | digits {ds} : ds ≠ [] → (∀ c ∈ ds, c.isDigit = true) → Numeral ds (digitsValue ds)
  | plus {ds} : ds ≠ [] → (∀ c ∈ ds, c.isDigit = true) → Numeral ('+' :: ds) (digitsValue ds)
  | minus {ds} : ds ≠ [] → (∀ c ∈ ds, c.isDigit = true) → Numeral ('-' :: ds) (-digitsValue ds)

theorem digitsValue_concat (ds : List Char) (c : Char) :
    digitsValue (ds ++ [c]) = 10 * digitsValue ds + (c.toNat - '0'.toNat) := by
  rw [digitsValue, List.reverse_append, List.reverse_singleton, List.singleton_append,
    List.map_cons, Nat.ofDigits_cons, digitsValue, add_comm]

/-- A number has no more digits than its numeral. -/
theorem digitsValue_lt {ds : List Char} (h : ∀ c ∈ ds, c.isDigit = true) :
    digitsValue ds < 10 ^ ds.length := by
  have hdigit : ∀ n ∈ ds.reverse.map fun c => c.toNat - '0'.toNat, n < 10 := by
    intro n hn
    obtain ⟨c, hc, rfl⟩ := List.mem_map.mp hn
    have hc' : c.isDigit = true := h c (List.mem_reverse.mp hc)
    simp only [Char.isDigit, ge_iff_le, Bool.and_eq_true, decide_eq_true_eq] at hc'
    have hle : c.toNat ≤ '9'.toNat := hc'.2
    have h9 : '9'.toNat = 57 := rfl
    have h0 : '0'.toNat = 48 := rfl
    omega
  have hlt := Nat.ofDigits_lt_base_pow_length (by decide) hdigit
  rwa [List.length_map, List.length_reverse] at hlt

theorem foldl_digits (ds : List Char) :
    ds.foldl (fun (n : ℤ) c => 10 * n + (c.toNat - '0'.toNat : ℕ)) 0 = digitsValue ds := by
  induction ds using List.reverseRecOn with
  | nil => rfl
  | append_singleton ds c ih =>
    rw [List.foldl_append, ih, digitsValue_concat, List.foldl_cons, List.foldl_nil]
    push_cast
    rfl

end Numerals
