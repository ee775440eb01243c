import Mathlib.Data.List.Basic
import Mathlib.Tactic.Ring

/-!
# Populations of processes

Processes are kept in a list, one phase each; a step moves one process to another phase or adds a
new one. `countP_set_of_get` and `countP_append_singleton` say what such a step does to the number
of processes in a phase, over the integers so that no subtraction is truncated;
`sum_map_set_of_get` and `sum_map_append_singleton` what it does to a sum of weights.
-/

set_option autoImplicit false

namespace Population

variable {P : Type*} {l : List P} {i : ℕ} {a : P}

/-- Moving process `i` from phase `a` to phase `b`. -/
theorem countP_set_of_get (p : P → Bool) (h : l[i]? = some a) (b : P) :
    ((l.set i b).countP p : ℤ) =
      l.countP p - (if p a then 1 else 0) + if p b then 1 else 0 := by
  obtain ⟨hi, rfl⟩ := List.getElem?_eq_some_iff.mp h
  have hpos : p l[i] = true → 0 < l.countP p := fun hp =>
    List.countP_pos_iff.mpr ⟨l[i], List.getElem_mem hi, hp⟩
  rw [List.countP_set hi]
  split_ifs with h1 h2 <;> [have := hpos h1; have := hpos h1; skip; skip] <;> push_cast <;> omega

/-- A new process in phase `b`. -/
theorem countP_append_singleton (p : P → Bool) (l : List P) (b : P) :
    ((l ++ [b]).countP p : ℤ) = l.countP p + if p b then 1 else 0 := by
  rw [List.countP_append, List.countP_singleton]
  split_ifs <;> simp

/-- Moving process `i` from phase `a` to phase `b`, where phases have weights. -/
theorem sum_map_set_of_get (w : P → ℕ) (h : l[i]? = some a) (b : P) :
    ((l.set i b).map w).sum + w a = (l.map w).sum + w b := by
  induction l generalizing i with
  | nil => cases h
  | cons x l ih =>
    cases i with
    | zero =>
      obtain rfl : x = a := Option.some.inj h
      simp only [List.set_cons_zero, List.map_cons, List.sum_cons]
      omega
    | succ i =>
      have h1 := ih h
      simp only [List.set_cons_succ, List.map_cons, List.sum_cons]
      omega

theorem sum_map_append_singleton (w : P → ℕ) (l : List P) (b : P) :
    ((l ++ [b]).map w).sum = (l.map w).sum + w b := by
  simp

end Population
