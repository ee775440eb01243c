import Mathlib.Data.List.Basic
import Mathlib.Data.List.Nodup
import Mathlib.Data.List.Perm.Subperm

/-!
# Singly linked lists in a heap

* `Cell`, `Heap`: cells with a value and a link, found by their address; a freed cell is gone;
* `Heap.cell`, `Heap.setNext`, `Heap.free`, `Heap.walk`: reading, linking, freeing, and following
  the links;
* `Chain`: from a pointer the links run through these addresses and values, and end;
* **`Chain.unique`**, **`Chain.nodup`**, `Chain.walk_eq`: a chain is determined and has no cycle;
* `Chain.frame`, **`Chain.unlink`**, `Chain.free_of_append`, `Chain.of_append`: what changes of the
  heap do to a chain.
-/

set_option autoImplicit false

namespace Linked

universe u

/-- A value and a link. -/
structure Cell (α : Type u) where
  val : α
  next : Option ℕ
  deriving DecidableEq, Repr

/-- The cells that were ever allocated, by their addresses; `none` for a freed one. -/
abbrev Heap (α : Type u) := List (Option (Cell α))

variable {α : Type u}

namespace Heap

/-- The cell at an address, unless nothing was allocated there or it was freed. -/
def cell (h : Heap α) (a : ℕ) : Option (Cell α) := h[a]?.join

def setNext (h : Heap α) (a : ℕ) (p : Option ℕ) : Heap α :=
  h.modify a (Option.map fun c => { c with next := p })

def free (h : Heap α) (a : ℕ) : Heap α := h.set a none

/-- The addresses and values met along the links from a pointer, at most `n` of them. -/
def walk (h : Heap α) : ℕ → Option ℕ → List (ℕ × α)
  | 0, _ => []
  | _, none => []
  | n + 1, some a =>
    match h.cell a with
    | none => []
    | some c => (a, c.val) :: walk h n c.next

variable {h : Heap α} {a b : ℕ} {p : Option ℕ}

theorem lt_length_of_cell {c : Cell α} (hc : h.cell a = some c) : a < h.length := by
  by_contra hlt
  rw [cell, List.getElem?_eq_none (Nat.le_of_not_lt hlt)] at hc
  cases hc

@[simp] theorem cell_append_self (h : Heap α) (o : Option (Cell α)) :
    cell (h ++ [o]) h.length = o := by
  simp [cell]

@[simp] theorem cell_setNext_self :
    (h.setNext a p).cell a = (h.cell a).map fun c => { c with next := p } := by
  rw [cell, setNext, List.getElem?_modify_eq, cell]
  cases h[a]? <;> rfl

theorem cell_setNext_of_ne (hab : a ≠ b) : (h.setNext a p).cell b = h.cell b := by
  rw [cell, setNext, List.getElem?_modify_ne _ _ hab, cell]

theorem val_setNext : ((h.setNext a p).cell b).map (·.val) = (h.cell b).map (·.val) := by
  by_cases hab : a = b
  · subst hab
    simp [Function.comp_def]
  · rw [cell_setNext_of_ne hab]

@[simp] theorem cell_free_self : (h.free a).cell a = none := by
  rw [cell, free, List.getElem?_set_self']
  cases h[a]? <;> rfl

theorem cell_free_of_ne (hab : a ≠ b) : (h.free a).cell b = h.cell b := by
  rw [cell, free, List.getElem?_set_ne hab, cell]

@[simp] theorem length_setNext : (h.setNext a p).length = h.length := by simp [setNext]

@[simp] theorem length_free : (h.free a).length = h.length := by simp [free]

end Heap

/-- The links from a pointer run through the addresses and values of a list and end with it. -/
inductive Chain (h : Heap α) : Option ℕ → List (ℕ × α) → Prop
  | nil : Chain h none []
  | cons {a : ℕ} {v : α} {p : Option ℕ} {l : List (ℕ × α)} :
      h.cell a = some ⟨v, p⟩ → Chain h p l → Chain h (some a) ((a, v) :: l)

namespace Chain

variable {h h' : Heap α} {p q : Option ℕ} {l l' : List (ℕ × α)} {a b : ℕ} {v w : α}

theorem eq_nil (hc : Chain h none l) : l = [] := by
  cases hc
  rfl

theorem eq_none (hc : Chain h p []) : p = none := by
  cases hc
  rfl

theorem eq_cons (hc : Chain h (some a) l) :
    ∃ c l', h.cell a = some c ∧ l = (a, c.val) :: l' ∧ Chain h c.next l' := by
  cases hc with
  | cons h1 h2 => exact ⟨_, _, h1, rfl, h2⟩

theorem unique (hc : Chain h p l) (hc' : Chain h p l') : l = l' := by
  induction hc generalizing l' with
  | nil => exact hc'.eq_nil.symm
  | cons h1 _ ih =>
    obtain ⟨c, l₁, h2, rfl, h3⟩ := hc'.eq_cons
    obtain rfl := Option.some.inj (h1.symm.trans h2)
    rw [ih h3]

theorem of_append {l₁ l₂ : List (ℕ × α)} (hc : Chain h p (l₁ ++ (a, v) :: l₂)) :
    ∃ q, h.cell a = some ⟨v, q⟩ ∧ Chain h q l₂ := by
  induction l₁ generalizing p with
  | nil =>
    cases hc with
    | cons h1 h2 => exact ⟨_, h1, h2⟩
  | cons x l₁ ih =>
    cases hc with
    | cons _ h2 => exact ih h2

theorem cell_of_mem (hc : Chain h p l) (ha : (a, v) ∈ l) : ∃ q, h.cell a = some ⟨v, q⟩ := by
  obtain ⟨l₁, l₂, rfl⟩ := List.append_of_mem ha
  obtain ⟨q, hq, -⟩ := hc.of_append
  exact ⟨q, hq⟩

/-- **A chain visits no address twice**: it would never end. -/
theorem nodup (hc : Chain h p l) : (l.map Prod.fst).Nodup := by
  induction hc with
  | nil => simp
  | @cons a v p l h1 h2 ih =>
    refine List.nodup_cons.mpr ⟨fun ha => ?_, ih⟩
    obtain ⟨⟨a', w⟩, hm, rfl⟩ := List.mem_map.mp ha
    obtain ⟨l₁, l₂, rfl⟩ := List.append_of_mem hm
    obtain ⟨q, h3, h4⟩ := h2.of_append
    obtain ⟨rfl, rfl⟩ : v = w ∧ p = q := by simpa [h1] using h3
    have := congrArg List.length (h2.unique h4)
    simp at this
    omega

theorem lt_length (hc : Chain h p l) (ha : a ∈ l.map Prod.fst) : a < h.length := by
  obtain ⟨⟨a, v⟩, hm, rfl⟩ := List.mem_map.mp ha
  obtain ⟨q, hq⟩ := hc.cell_of_mem hm
  exact Heap.lt_length_of_cell hq

theorem length_le (hc : Chain h p l) : l.length ≤ h.length := by
  have h1 : (l.map Prod.fst) ⊆ List.range h.length := fun a ha =>
    List.mem_range.mpr (hc.lt_length ha)
  simpa using (List.subperm_of_subset hc.nodup h1).length_le

theorem walk_eq_of_le (hc : Chain h p l) {n : ℕ} (hn : l.length ≤ n) : h.walk n p = l := by
  induction hc generalizing n with
  | nil => cases n <;> rfl
  | cons h1 _ ih =>
    cases n with
    | zero => simp at hn
    | succ n => simp [Heap.walk, h1, ih (Nat.le_of_succ_le_succ hn)]

theorem walk_eq (hc : Chain h p l) : h.walk h.length p = l := hc.walk_eq_of_le hc.length_le

theorem frame (hc : Chain h p l) (hh : ∀ a ∈ l.map Prod.fst, h'.cell a = h.cell a) :
    Chain h' p l := by
  induction hc with
  | nil => exact .nil
  | @cons a v p l h1 _ ih =>
    exact .cons ((hh a (by simp)).trans h1) (ih fun b hb => hh b (by simp [hb]))

theorem push (hc : Chain h p l) {c : Cell α} (ha : h.cell a = some c) (hl : a ∉ l.map Prod.fst) :
    Chain (h.setNext a p) (some a) ((a, c.val) :: l) := by
  refine .cons (by simp [ha]) (hc.frame fun b hb => Heap.cell_setNext_of_ne ?_)
  rintro rfl
  exact hl hb

theorem append (hc : Chain h p l) (o : Option (Cell α)) : Chain (h ++ [o]) p l :=
  hc.frame fun a ha => by
    rw [Heap.cell, List.getElem?_append_left (hc.lt_length ha), Heap.cell]

theorem unlink {l₁ l₂ : List (ℕ × α)} (hc : Chain h p (l₁ ++ (a, v) :: (b, w) :: l₂))
    (hb : h.cell b = some ⟨w, q⟩) : Chain (h.setNext a q) p (l₁ ++ (a, v) :: l₂) := by
  induction l₁ generalizing p with
  | nil =>
    have hnd := hc.nodup
    cases hc with
    | cons h1 h2 =>
      cases h2 with
      | cons h3 h4 =>
        obtain rfl : _ = q := by simpa [h3] using hb
        refine .cons (by simp [h1]) (h4.frame fun c hm => Heap.cell_setNext_of_ne ?_)
        rintro rfl
        simp_all
  | cons x l₁ ih =>
    have hnd := hc.nodup
    cases hc with
    | @cons d u r _ h1 h2 =>
      refine .cons ?_ (ih h2)
      rw [Heap.cell_setNext_of_ne, h1]
      rintro rfl
      simp at hnd

theorem free_of_append {l₁ l₂ : List (ℕ × α)} (hc : Chain h p (l₁ ++ (a, v) :: l₂))
    (hc' : Chain h' q (l₁ ++ l₂)) : Chain (h'.free a) q (l₁ ++ l₂) := by
  refine hc'.frame fun b hb => Heap.cell_free_of_ne ?_
  rintro rfl
  have hnd := hc.nodup
  rw [List.map_append, List.map_cons, List.nodup_middle, List.nodup_cons] at hnd
  exact hnd.1 (by simpa using hb)

end Chain

end Linked
