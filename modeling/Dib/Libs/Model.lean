import Dib.Lib.Chain
import Mathlib.Logic.Function.Basic
import Mathlib.Tactic.Ring

/-!
# The list of loaded libraries

`libs` points to the nodes of the loaded test libraries, the last loaded first.

* `addLib`, `dropLib`, `findPrev`, `removeLib`: the three sections under the lock, partial where a
  null pointer or a freed node is read;
* `loadLib`, `unloadLib`: what `load_testcase_from_lib` and `unload_lib` do to the list and to the
  dynamic loader, called one after the other;
* `findPrev_spec`, **`removeLib_spec`**: the search of `unload_lib` finds the first node with its
  handle.
-/

set_option autoImplicit false

namespace Dib

open Linked

/-- `tb_test_lib_t`, whose `next_lib` is the link of its cell. -/
structure TestLib where
  lib_name : List Char
  lib_handle : ℕ
  deriving DecidableEq, Repr

/-! ## The sections on `libs` -/

/-- `load_testcase_from_lib` adds its node. -/
def addLib (heap : Heap TestLib) (libs : Option ℕ) (curr_lib : ℕ) : Heap TestLib × Option ℕ :=
  (heap.setNext curr_lib libs, some curr_lib)

/-- Its failure path: the new `libs` is `curr_lib->next_lib`. -/
def dropLib (heap : Heap TestLib) (curr_lib : ℕ) : Option (Option ℕ) :=
  (heap.cell curr_lib).map (·.next)

/-- The `while` loop of `unload_lib`, from `tempnode`; it visits each cell at most once. -/
def findPrev (heap : Heap TestLib) (handle : ℕ) : ℕ → ℕ → Option ℕ
  | 0, _ => none
  | n + 1, tempnode =>
    match heap.cell tempnode with
    | none => none
    | some c =>
      match c.next with
      | none => some tempnode
      | some next =>
        match heap.cell next with
        | none => none
        | some d => if d.val.lib_handle = handle then some tempnode else findPrev heap handle n next

/-- `unload_lib` removes the node of its handle: the list, and the node if there was one. -/
def removeLib (heap : Heap TestLib) (libs : Option ℕ) (handle : ℕ) :
    Option (Heap TestLib × Option ℕ × Option ℕ) :=
  match libs with
  | none => none
  | some head =>
    match heap.cell head with
    | none => none
    | some c =>
      if c.val.lib_handle = handle then
        if c.next = none then some (heap, none, some head) else some (heap, c.next, some head)
      else
        match findPrev heap handle heap.length head with
        | none => none
        | some tempnode =>
          match (heap.cell tempnode).bind (·.next) with
          | none => some (heap, libs, none)
          | some tempnode2 =>
            match heap.cell tempnode2 with
            | none => none
            | some d => some (heap.setNext tempnode d.next, libs, some tempnode2)

/-! ## One call after the other -/

/-- The list and, for each handle, the successful `dlopen`s and the `dlclose`s so far. -/
structure LibState where
  heap : Heap TestLib
  libs : Option ℕ
  opened : ℕ → ℕ
  closed : ℕ → ℕ

def LibState.start : LibState := ⟨[], none, fun _ => 0, fun _ => 0⟩

def LibState.nodes (s : LibState) : List TestLib :=
  (s.heap.walk s.heap.length s.libs).map Prod.snd

/-- The references to a library that the two functions hold. -/
def LibState.refs (s : LibState) (h : ℕ) : ℤ := s.opened h - s.closed h

/-- The dynamic loader: the handle for a file name, the direct dependencies of a library, and the
size of `lib_name`. -/
structure Loader where
  handle : List Char → ℕ
  needs : ℕ → ℕ → Prop
  TB_MAX_PATH_LEN : ℕ

/-- The node of a load: the handle, and the name copied by
`strncpy(curr_lib->lib_name, lib, TB_MAX_PATH_LEN - 1)`. -/
def Loader.node (L : Loader) (lib : List Char) : TestLib :=
  ⟨lib.take (L.TB_MAX_PATH_LEN - 1), L.handle lib⟩

/-- One more call on a handle. -/
def bump (f : ℕ → ℕ) (h : ℕ) : ℕ → ℕ := Function.update f h (f h + 1)

theorem bump_apply (f : ℕ → ℕ) (handle h : ℕ) :
    bump f handle h = f h + if h = handle then 1 else 0 := by
  by_cases hh : h = handle
  · subst hh
    simp [bump]
  · simp [bump, hh]

/-- Which of the calls that `load_testcase_from_lib` makes succeed. -/
structure LoadAnswers where
  calloc : Bool
  dlopen : Bool
  dlsym : Bool
  deriving DecidableEq, Repr

/-- `load_testcase_from_lib` up to the registration; tells whether that follows. -/
def loadLib (L : Loader) (lib : List Char) (o : LoadAnswers) (s : LibState) :
    Option (LibState × Bool) :=
  if ¬ o.calloc then some (s, false)
  else if ¬ o.dlopen then some ({ s with heap := s.heap ++ [none] }, false)
  else
    let handle := L.handle lib
    let curr_lib := s.heap.length
    let (heap, libs) := addLib (s.heap ++ [some ⟨L.node lib, none⟩]) s.libs curr_lib
    if o.dlsym then some (⟨heap, libs, bump s.opened handle, s.closed⟩, true)
    else
      match dropLib heap curr_lib with
      | none => none
      | some libs =>
        some (⟨heap.free curr_lib, libs, bump s.opened handle, bump s.closed handle⟩, false)

/-- Which of the calls that `unload_lib` makes succeed; `dlopen` is the one with `RTLD_NOLOAD`. -/
structure UnloadAnswers where
  calloc : Bool
  dlopen : Bool
  dlsym : Bool
  deriving DecidableEq, Repr

inductive UnloadEnd where
  /-- Before anything was deleted, with `TB_ERROR`. -/
  | refused
  /-- The cases and groups are deleted, but the library has no node: `TB_ERROR`. -/
  | absent
  | removed
  deriving DecidableEq, Repr

/-- `unload_lib`, without the registries. -/
def unloadLib (L : Loader) (lib : List Char) (o : UnloadAnswers) (s : LibState) :
    Option (LibState × UnloadEnd) :=
  let handle := L.handle lib
  if ¬ o.calloc ∨ ¬ o.dlopen then some (s, .refused)
  else if ¬ o.dlsym then
    some ({ s with opened := bump s.opened handle, closed := bump s.closed handle }, .refused)
  else
    match removeLib s.heap s.libs handle with
    | none => none
    | some (heap, libs, removed) =>
      let s : LibState :=
        ⟨heap, libs, bump s.opened handle, bump (bump s.closed handle) handle⟩
      match removed with
      | none => some (s, .absent)
      | some node => some ({ s with heap := heap.free node }, .removed)

/-! ## What they do to a chain -/

variable {heap : Heap TestLib} {libs : Option ℕ} {handle a n : ℕ} {v : TestLib}
  {l l₁ : List (ℕ × TestLib)}

/-- The loop stops at the last node, or before the first one with the handle. -/
theorem findPrev_spec {r : List (ℕ × TestLib)} (hc : Chain heap (some a) ((a, v) :: (l₁ ++ r)))
    (h₁ : ∀ x ∈ l₁, x.2.lib_handle ≠ handle) (hr : ∀ x ∈ r.head?, x.2.lib_handle = handle)
    (hn : l₁.length < n) :
    ∃ l₀ t u, (a, v) :: l₁ = l₀ ++ [(t, u)] ∧ findPrev heap handle n a = some t := by
  induction l₁ generalizing a v n with
  | nil =>
    obtain ⟨n, rfl⟩ : ∃ m, n = m + 1 := ⟨n - 1, by simp at hn; omega⟩
    refine ⟨[], a, v, rfl, ?_⟩
    cases hc with
    | cons h2 h3 =>
      cases r with
      | nil =>
        cases h3
        simp [findPrev, h2]
      | cons x r =>
        cases h3 with
        | @cons b w q _ h4 h5 =>
          have : w.lib_handle = handle := hr (b, w) rfl
          simp [findPrev, h2, h4, this]
  | cons x l₁ ih =>
    obtain ⟨n, rfl⟩ : ∃ m, n = m + 1 := ⟨n - 1, by simp at hn; omega⟩
    cases hc with
    | cons h2 h3 =>
      cases h3 with
      | @cons b w q _ h4 h5 =>
        obtain ⟨l₀, t, u, h6, h7⟩ := ih (.cons h4 h5) (fun x hx => h₁ x (by simp [hx]))
          (by simpa using hn)
        have hne : w.lib_handle ≠ handle := h₁ (b, w) (by simp)
        exact ⟨(a, v) :: l₀, t, u, by rw [h6]; rfl, by simp [findPrev, h2, h4, hne, h7]⟩

/-- **`unload_lib` removes the first node with its handle**, or finds that there is none. -/
theorem removeLib_spec (hc : Chain heap libs l) (hl : l ≠ []) (handle : ℕ) :
    ((∀ x ∈ l, x.2.lib_handle ≠ handle) ∧ removeLib heap libs handle = some (heap, libs, none)) ∨
      ∃ l₁ b w l₂ heap' libs', l = l₁ ++ (b, w) :: l₂ ∧ (∀ x ∈ l₁, x.2.lib_handle ≠ handle) ∧
        w.lib_handle = handle ∧ removeLib heap libs handle = some (heap', libs', some b) ∧
        Chain heap' libs' (l₁ ++ l₂) ∧ heap'.length = heap.length ∧
        ∀ c, (heap'.cell c).map (·.val) = (heap.cell c).map (·.val) := by
  by_cases hex : ∃ x ∈ l, x.2.lib_handle = handle
  · obtain ⟨x, hx, hxh⟩ := hex
    obtain ⟨⟨b, w⟩, l₁, l₂, h1, h2, rfl, -⟩ :=
      List.exists_of_eraseP (p := fun x => decide (x.2.lib_handle = handle)) hx (by simpa using hxh)
    have h1' : ∀ x ∈ l₁, x.2.lib_handle ≠ handle := fun x hx => by simpa using h1 x hx
    have h2' : w.lib_handle = handle := by simpa using h2
    refine .inr ⟨l₁, b, w, l₂, ?_⟩
    cases l₁ with
    | nil =>
      -- the head node
      cases hc with
      | @cons _ _ q _ h3 h4 =>
        refine ⟨heap, q, rfl, h1', h2', ?_, h4, rfl, fun _ => rfl⟩
        cases q <;> simp [removeLib, h3, h2']
    | cons x l₁ =>
      cases hc with
      | @cons a v q _ h3 h4 =>
        have hv : v.lib_handle ≠ handle := h1' (a, v) (by simp)
        have hc' : Chain heap (some a) ((a, v) :: (l₁ ++ (b, w) :: l₂)) := .cons h3 h4
        obtain ⟨l₀, t, u, h5, h6⟩ := findPrev_spec (n := heap.length) hc'
          (fun x hx => h1' x (by simp [hx])) (by simpa using h2')
          (by have := hc'.length_le; simp at this; omega)
        have hc'' : Chain heap (some a) (l₀ ++ (t, u) :: (b, w) :: l₂) := by
          rw [← List.cons_append, h5] at hc'
          simpa using hc'
        obtain ⟨q', h7, h8⟩ := hc''.of_append
        cases h8 with
        | @cons _ _ q'' _ h9 h10 =>
          refine ⟨heap.setNext t q'', some a, rfl, h1', h2', ?_, ?_, Heap.length_setNext,
            fun _ => Heap.val_setNext⟩
          · simp [removeLib, h3, hv, h6, h7, h9]
          · rw [h5, List.append_assoc]
            exact hc''.unlink h9
  · have hne : ∀ x ∈ l, x.2.lib_handle ≠ handle := fun x hx h => hex ⟨x, hx, h⟩
    refine .inl ⟨hne, ?_⟩
    cases hc with
    | nil => exact absurd rfl hl
    | @cons a v q l h3 h4 =>
      have hv : v.lib_handle ≠ handle := hne (a, v) (by simp)
      have hc' : Chain heap (some a) ((a, v) :: (l ++ [])) := by
        rw [List.append_nil]
        exact .cons h3 h4
      obtain ⟨l₀, t, u, h5, h6⟩ := findPrev_spec (n := heap.length) hc'
        (fun x hx => hne x (by simp [hx])) (by simp)
        (by have := hc'.length_le; simp at this; omega)
      have hc'' : Chain heap (some a) (l₀ ++ (t, u) :: []) := by
        rw [List.append_nil, h5] at hc'
        exact hc'
      obtain ⟨q', h7, h8⟩ := hc''.of_append
      cases h8
      simp [removeLib, h3, hv, h6, h7]

/-! ## Calls -/

/-- `libs` is a list that ends. -/
def LibState.WF (s : LibState) : Prop := ∃ l, Chain s.heap s.libs l

theorem wf_start : LibState.start.WF := ⟨[], .nil⟩

theorem nodes_eq {s : LibState} (hc : Chain s.heap s.libs l) : s.nodes = l.map Prod.snd := by
  rw [LibState.nodes, hc.walk_eq]

theorem chain_addLib (hc : Chain heap libs l) (v : TestLib) :
    Chain (addLib (heap ++ [some ⟨v, none⟩]) libs heap.length).1 (some heap.length)
      ((heap.length, v) :: l) :=
  (hc.append (some ⟨v, none⟩)).push (c := ⟨v, none⟩) (by simp) fun h =>
    Nat.lt_irrefl _ (hc.lt_length h)

theorem dropLib_addLib (hc : Chain heap libs l) (v : TestLib) :
    dropLib (addLib (heap ++ [some ⟨v, none⟩]) libs heap.length).1 heap.length = some libs ∧
      Chain ((addLib (heap ++ [some ⟨v, none⟩]) libs heap.length).1.free heap.length) libs l := by
  refine ⟨by simp [dropLib, addLib], (hc.append (some ⟨v, none⟩)).frame fun a ha => ?_⟩
  have hne : heap.length ≠ a := Nat.ne_of_gt (hc.lt_length ha)
  rw [addLib, Heap.cell_free_of_ne hne, Heap.cell_setNext_of_ne hne]

variable {L : Loader} {lib : List Char} {s s' : LibState}

/-- **A load** never faults; it adds its node and a reference if it finds the symbol, and otherwise
leaves the nodes and the references as they were. -/
theorem loadLib_spec (hs : s.WF) (lib : List Char) (o : LoadAnswers) :
    ∃ s', loadLib L lib o s = some (s', o.calloc && o.dlopen && o.dlsym) ∧ s'.WF ∧
      (s'.nodes = if o.calloc && o.dlopen && o.dlsym then L.node lib :: s.nodes else s.nodes) ∧
      ∀ h, s'.refs h = s.refs h +
        if (o.calloc && o.dlopen && o.dlsym) ∧ h = L.handle lib then 1 else 0 := by
  obtain ⟨l, hc⟩ := hs
  obtain ⟨c, d, y⟩ := o
  cases c with
  | false => exact ⟨s, by simp [loadLib], ⟨l, hc⟩, by simp, by simp⟩
  | true =>
    cases d with
    | false =>
      refine ⟨{ s with heap := s.heap ++ [none] }, by simp [loadLib], ⟨l, hc.append none⟩, ?_,
        by simp [LibState.refs]⟩
      rw [nodes_eq hc, nodes_eq (s := { s with heap := s.heap ++ [none] }) (hc.append none)]
      rfl
    | true =>
      have hc' := chain_addLib hc (L.node lib)
      cases y with
      | true =>
        refine ⟨_, rfl, ⟨_, hc'⟩, ?_, fun h => ?_⟩
        · rw [nodes_eq hc, nodes_eq hc']
          rfl
        · simp only [LibState.refs, bump_apply, Bool.and_self, true_and]
          push_cast
          ring
      | false =>
        obtain ⟨h1, h2⟩ := dropLib_addLib hc (L.node lib)
        refine ⟨⟨_, s.libs, bump s.opened (L.handle lib), bump s.closed (L.handle lib)⟩, ?_,
          ⟨l, h2⟩, ?_, fun h => ?_⟩
        · simp only [loadLib, h1]
          rfl
        · rw [nodes_eq hc, nodes_eq h2]
          rfl
        · simp [LibState.refs, bump_apply]

/-- What an unload does to the nodes and references; `ok` says that it gets the handle and the
symbol. -/
inductive UnloadEffect (handle : ℕ) (s s' : LibState) : (ok : Bool) → UnloadEnd → Prop
  | refused : s'.nodes = s.nodes → (∀ h, s'.refs h = s.refs h) →
      UnloadEffect handle s s' false .refused
  | absent : s'.nodes = s.nodes → (∀ v ∈ s.nodes, v.lib_handle ≠ handle) →
      (∀ h, s'.refs h = s.refs h - if h = handle then 1 else 0) →
      UnloadEffect handle s s' true .absent
  | removed (l₁ : List TestLib) (v : TestLib) (l₂ : List TestLib) : s.nodes = l₁ ++ v :: l₂ →
      s'.nodes = l₁ ++ l₂ → v.lib_handle = handle → (∀ x ∈ l₁, x.lib_handle ≠ handle) →
      (∀ h, s'.refs h = s.refs h - if h = handle then 1 else 0) →
      UnloadEffect handle s s' true .removed

/-- **An unload** that does not fault removes the first node with the handle, or finds that there is
none; either way, it gives back one reference more than it took. -/
theorem unloadLib_spec (hs : s.WF) {o : UnloadAnswers} {e : UnloadEnd}
    (h : unloadLib L lib o s = some (s', e)) :
    s'.WF ∧ UnloadEffect (L.handle lib) s s' (o.calloc && o.dlopen && o.dlsym) e := by
  obtain ⟨l, hc⟩ := hs
  rw [unloadLib] at h
  split at h
  · next h1 =>
    obtain ⟨rfl, rfl⟩ := Prod.mk.inj (Option.some.inj h)
    have hok : (o.calloc && o.dlopen && o.dlsym) = false := by
      rcases h1 with h1 | h1 <;> simp [h1]
    exact ⟨⟨l, hc⟩, hok ▸ .refused rfl fun _ => rfl⟩
  split at h
  · next h1 =>
    obtain ⟨rfl, rfl⟩ := Prod.mk.inj (Option.some.inj h)
    have hok : (o.calloc && o.dlopen && o.dlsym) = false := by simp [h1]
    refine ⟨⟨l, hc⟩, hok ▸ .refused rfl fun h => ?_⟩
    simp [LibState.refs, bump_apply]
  next h1 h2 =>
  have hok : (o.calloc && o.dlopen && o.dlsym) = true := by simp_all
  rw [hok]
  have hrefs : ∀ (heap : Heap TestLib) (libs : Option ℕ) (h : ℕ),
      LibState.refs ⟨heap, libs, bump s.opened (L.handle lib),
        bump (bump s.closed (L.handle lib)) (L.handle lib)⟩ h =
      s.refs h - if h = L.handle lib then 1 else 0 := fun heap libs h => by
    simp only [LibState.refs, bump_apply]
    push_cast
    ring
  rcases eq_or_ne l [] with rfl | hl
  · rw [show s.libs = none from hc.eq_none] at h
    cases h
  rcases removeLib_spec hc hl (L.handle lib) with
    ⟨h3, h4⟩ | ⟨l₁, b, w, l₂, heap', libs', rfl, h3, h4, h5, h6, -⟩
  · rw [h4] at h
    obtain ⟨rfl, rfl⟩ := Prod.mk.inj (Option.some.inj h)
    refine ⟨⟨l, hc⟩, .absent rfl ?_ (hrefs _ _)⟩
    rw [nodes_eq hc]
    exact List.forall_mem_map.mpr h3
  · rw [h5] at h
    obtain ⟨rfl, rfl⟩ := Prod.mk.inj (Option.some.inj h)
    have h7 : Chain (heap'.free b) libs' (l₁ ++ l₂) := hc.free_of_append h6
    refine ⟨⟨_, h7⟩, .removed (l₁.map Prod.snd) w (l₂.map Prod.snd) ?_ ?_ h4
      (List.forall_mem_map.mpr h3) (hrefs _ _)⟩
    · rw [nodes_eq hc]
      simp
    · rw [nodes_eq h7]
      simp

end Dib
