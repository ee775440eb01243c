import Mathlib.Data.List.Nodup
import Mathlib.Data.List.Perm.Basic
import Mathlib.Logic.Function.Basic

/-!
# Blocks of memory

A block is known by the number of the call of `malloc` that has returned it, so what has been freed
is not handed out again.

* `Memory`, `Pointer`: the blocks that are allocated, and a place in one of them;
* `Uses`: a program that uses the memory; it is partial where it does what is not defined;
* `malloc`, `free`, `load`, `store`: `free` takes a pointer to the beginning of an allocated block;
* `Since`: the blocks that have been allocated since then, with the others as they were;
* `since_add`, **`Since.free`**, `Since.load`, **`Since.store`**: what the operations do to them;
* `Since.free_eq_none`: a block that has been freed cannot be freed again;
* **`Since.trans`**: the blocks of two programs, one after the other;
* `Grows`, `Allocates`: a program leaves so many blocks behind, or returns one;
* **`Grows.bind`**, `Allocates.keep`, `Allocates.release`, **`grows_foldlM`**: what is left behind
  by programs that are put together.
-/

set_option autoImplicit false

namespace Blocks

/-- The calls of `malloc` so far, and the contents of the blocks that are allocated. -/
structure Memory (α : Type) where
  mallocs : ℕ
  block : ℕ → Option α
  fresh : ∀ b, mallocs ≤ b → block b = none

/-- A block, and how far into it. -/
structure Pointer where
  block : ℕ
  offset : ℕ
  deriving DecidableEq, Repr

abbrev Uses (α β : Type) := StateT (Memory α) Option β

variable {α : Type}

namespace Memory

/-- A call that returns `NULL`. -/
def refuse (m : Memory α) : Memory α where
  mallocs := m.mallocs + 1
  block := m.block
  fresh b hb := m.fresh b (Nat.le_of_succ_le hb)

/-- A call that returns a block with these contents. -/
def add (m : Memory α) (a : α) : Memory α where
  mallocs := m.mallocs + 1
  block := Function.update m.block m.mallocs (some a)
  fresh b hb := by
    rw [Function.update_of_ne (Nat.ne_of_gt hb)]
    exact m.fresh b (Nat.le_of_succ_le hb)

/-- An allocated block with other contents, or freed. -/
def set (m : Memory α) (b : ℕ) (contents : Option α) : Memory α where
  mallocs := m.mallocs
  block k := if k = b then (m.block k).bind fun _ => contents else m.block k
  fresh k hk := by simp [m.fresh k hk]

variable {m : Memory α} {a : α} {b k : ℕ} {contents : Option α}

@[simp] theorem mallocs_add : (m.add a).mallocs = m.mallocs + 1 := rfl

@[simp] theorem mallocs_refuse : m.refuse.mallocs = m.mallocs + 1 := rfl

theorem add_self : (m.add a).block m.mallocs = some a := Function.update_self ..

theorem add_of_ne (h : k ≠ m.mallocs) : (m.add a).block k = m.block k :=
  Function.update_of_ne h ..

theorem set_self (h : m.block b = some a) : (m.set b contents).block b = contents := by
  simp [set, h]

theorem set_of_ne (h : k ≠ b) : (m.set b contents).block k = m.block k := if_neg h

end Memory

/-! ## The operations -/

/-- `malloc`, where `answer` is what a call with this number finds in the block it returns. -/
def malloc (answer : ℕ → Option α) : Uses α (Option ℕ) := fun m =>
  match answer m.mallocs with
  | none => some (none, m.refuse)
  | some a => some (some m.mallocs, m.add a)

def free (p : Pointer) : Uses α Unit := fun m =>
  if p.offset = 0 ∧ (m.block p.block).isSome then some ((), m.set p.block none) else none

/-- `if (p) free(p)`. -/
def freeIf : Option ℕ → Uses α Unit
  | none => pure ()
  | some b => free ⟨b, 0⟩

def load (b : ℕ) : Uses α α := fun m => (m.block b).map fun a => (a, m)

def store (b : ℕ) (a : α) : Uses α Unit := fun m =>
  if (m.block b).isSome then some ((), m.set b (some a)) else none

/-- What is at a pointer, which may be `NULL`. -/
def read : Option ℕ → Uses α (Option α)
  | none => pure none
  | some b => some <$> load b

/-! ## Blocks of a program -/

/-- Since `m₀`, these blocks have been allocated and not freed, and have these contents; all others
are as they were. -/
structure Since (m₀ m : Memory α) (own : List (ℕ × α)) : Prop where
  nodup : (own.map Prod.fst).Nodup
  new : ∀ b ∈ own.map Prod.fst, m₀.mallocs ≤ b
  held : ∀ p ∈ own, m.block p.1 = some p.2
  others : ∀ b, b ∉ own.map Prod.fst → m.block b = m₀.block b
  mallocs_le : m₀.mallocs ≤ m.mallocs

variable {m₀ m₁ m : Memory α} {own own' : List (ℕ × α)} {a a' : α} {b n : ℕ}

theorem since_refl (m : Memory α) : Since m m [] :=
  ⟨List.nodup_nil, by simp, by simp, fun _ _ => rfl, Nat.le_refl _⟩

theorem Since.perm (h : Since m₀ m own) (hperm : own.Perm own') : Since m₀ m own' := by
  have hkeys := hperm.map Prod.fst
  exact ⟨hkeys.nodup_iff.mp h.nodup, fun b hb => h.new b (hkeys.mem_iff.mpr hb),
    fun p hp => h.held p (hperm.mem_iff.mpr hp),
    fun b hb => h.others b fun hmem => hb (hkeys.mem_iff.mp hmem), h.mallocs_le⟩

theorem Since.block_eq (h : Since m₀ m []) : m.block = m₀.block := by
  funext b
  exact h.others b List.not_mem_nil

theorem Since.lt (h : Since m₀ m own) (hb : b ∈ own.map Prod.fst) : b < m.mallocs := by
  obtain ⟨p, hp, rfl⟩ := List.mem_map.mp hb
  by_contra hlt
  have hnone := m.fresh p.1 (Nat.le_of_not_lt hlt)
  rw [h.held p hp] at hnone
  cases hnone

theorem Since.refuse (h : Since m₀ m own) : Since m₀ m.refuse own :=
  ⟨h.nodup, h.new, h.held, h.others, Nat.le_succ_of_le h.mallocs_le⟩

theorem Since.add (h : Since m₀ m own) (a : α) : Since m₀ (m.add a) ((m.mallocs, a) :: own) := by
  have hnew : m.mallocs ∉ own.map Prod.fst := fun hmem => Nat.lt_irrefl _ (h.lt hmem)
  refine ⟨List.nodup_cons.mpr ⟨hnew, h.nodup⟩, ?_, ?_, ?_, Nat.le_succ_of_le h.mallocs_le⟩
  · intro b hb
    rcases List.mem_cons.mp hb with rfl | hb
    · exact h.mallocs_le
    · exact h.new b hb
  · intro p hp
    rcases List.mem_cons.mp hp with rfl | hp
    · exact Memory.add_self
    · rw [Memory.add_of_ne (Nat.ne_of_lt (h.lt (List.mem_map_of_mem hp)))]
      exact h.held p hp
  · intro b hb
    obtain ⟨hne, hb⟩ := not_or.mp (mt List.mem_cons.mpr hb)
    rw [Memory.add_of_ne hne]
    exact h.others b hb

theorem run_bind {β γ : Type} {x : Uses α β} {f : β → Uses α γ} {y : β}
    (h : x.run m = some (y, m₁)) : (x >>= f).run m = (f y).run m₁ := by
  rw [StateT.run_bind, h]
  rfl

theorem run_defined {β : Type} {x : Option β} {y : β} (h : x = some y) :
    (liftM x : Uses α β).run m = some (y, m) := by
  subst h
  rfl

theorem malloc_none {answer : ℕ → Option α} (h : answer m.mallocs = none) :
    (malloc answer).run m = some (none, m.refuse) := by
  simp [malloc, StateT.run, h]

theorem malloc_some {answer : ℕ → Option α} (h : answer m.mallocs = some a) :
    (malloc answer).run m = some (some m.mallocs, m.add a) := by
  simp [malloc, StateT.run, h]

theorem Since.block_head (h : Since m₀ m ((b, a) :: own)) : m.block b = some a :=
  h.held (b, a) List.mem_cons_self

theorem Since.set_tail (h : Since m₀ m ((b, a) :: own)) (contents : Option α) :
    ∀ p ∈ own, (m.set b contents).block p.1 = some p.2 := by
  intro p hp
  have hne : p.1 ≠ b := by
    rintro rfl
    exact (List.nodup_cons.mp h.nodup).1 (List.mem_map.mpr ⟨p, hp, rfl⟩)
  rw [Memory.set_of_ne hne]
  exact h.held p (List.mem_cons_of_mem _ hp)

/-- **A block is freed.** -/
theorem Since.free (h : Since m₀ m ((b, a) :: own)) :
    ∃ m', (free ⟨b, 0⟩).run m = some ((), m') ∧ Since m₀ m' own ∧ m'.mallocs = m.mallocs := by
  have hb := h.block_head
  refine ⟨m.set b none, if_pos ⟨rfl, by simp [hb]⟩, ⟨(List.nodup_cons.mp h.nodup).2,
    fun k hk => h.new k (List.mem_cons_of_mem _ hk), h.set_tail none, fun k hk => ?_,
    h.mallocs_le⟩, rfl⟩
  by_cases hkb : k = b
  · subst hkb
    rw [Memory.set_self hb, m₀.fresh k (h.new k List.mem_cons_self)]
  · rw [Memory.set_of_ne hkb]
    exact h.others k (by simp [hkb, hk])

theorem Since.load (h : Since m₀ m own) (hb : (b, a) ∈ own) : (load b).run m = some (a, m) := by
  show (m.block b).map _ = _
  rw [h.held _ hb, Option.map_some]

theorem Since.read (h : Since m₀ m own) (hb : (b, a) ∈ own) :
    (read (some b)).run m = some (some a, m) := by
  rw [Blocks.read, StateT.run_map, h.load hb]
  rfl

/-- **A block gets other contents.** -/
theorem Since.store (h : Since m₀ m ((b, a) :: own)) (a' : α) :
    ∃ m', (store b a').run m = some ((), m') ∧ Since m₀ m' ((b, a') :: own) ∧
      m'.mallocs = m.mallocs := by
  have hb := h.block_head
  refine ⟨m.set b (some a'), if_pos (by simp [hb]), ⟨h.nodup, h.new, ?_, fun k hk => ?_,
    h.mallocs_le⟩, rfl⟩
  · intro p hp
    rcases List.mem_cons.mp hp with rfl | hp
    · exact Memory.set_self hb
    · exact h.set_tail _ p hp
  · have hkb : k ≠ b := fun heq => hk (heq ▸ List.mem_cons_self)
    rw [Memory.set_of_ne hkb]
    exact h.others k hk

/-- **A dangling pointer**, or one into a block, cannot be freed. -/
theorem Since.free_eq_none (h : Since m₀ m own) (hnew : m₀.mallocs ≤ b)
    (hb : b ∉ own.map Prod.fst) : (Blocks.free ⟨b, n⟩).run m = none := by
  refine if_neg fun hfree => ?_
  rw [h.others b hb, m₀.fresh b hnew] at hfree
  exact Bool.false_ne_true hfree.2

/-- **Two programs**, one after the other. -/
theorem Since.trans (h : Since m₀ m₁ own) (h' : Since m₁ m own') : Since m₀ m (own' ++ own) := by
  have hdisj : ∀ b ∈ own'.map Prod.fst, b ∉ own.map Prod.fst := fun b hb hmem =>
    Nat.lt_irrefl _ (Nat.lt_of_lt_of_le (h.lt hmem) (h'.new b hb))
  refine ⟨?_, ?_, ?_, ?_, Nat.le_trans h.mallocs_le h'.mallocs_le⟩
  · rw [List.map_append]
    exact h'.nodup.append h.nodup hdisj
  · intro b hb
    rw [List.map_append, List.mem_append] at hb
    rcases hb with hb | hb
    · exact Nat.le_trans h.mallocs_le (h'.new b hb)
    · exact h.new b hb
  · intro p hp
    rcases List.mem_append.mp hp with hp | hp
    · exact h'.held p hp
    · rw [h'.others p.1 fun hmem => hdisj _ hmem (List.mem_map_of_mem hp)]
      exact h.held p hp
  · intro b hb
    rw [List.map_append, List.mem_append, not_or] at hb
    rw [h'.others b hb.1, h.others b hb.2]

/-! ## What a program leaves behind -/

variable {β γ σ ι : Type} {k : ℕ} {y : β} {z : γ}

/-- Whatever there is in memory, the program returns `y` and leaves `n` more blocks. -/
def Grows (x : Uses α β) (y : β) (n : ℕ) : Prop :=
  ∀ m, ∃ m' own, x.run m = some (y, m') ∧ Since m m' own ∧ own.length = n

/-- Whatever there is in memory, the program returns a new block, whose contents are such. -/
def Allocates (x : Uses α (Option ℕ)) (P : α → Prop) : Prop :=
  ∀ m, ∃ b a m', x.run m = some (some b, m') ∧ Since m m' [(b, a)] ∧ P a

theorem grows_pure (y : β) : Grows (pure y : Uses α β) y 0 :=
  fun m => ⟨m, [], rfl, since_refl m, rfl⟩

theorem grows_defined {x : Option β} (h : x = some y) : Grows (liftM x : Uses α β) y 0 :=
  fun m => ⟨m, [], run_defined h, since_refl m, rfl⟩

/-- **One after the other.** -/
theorem Grows.bind {x : Uses α β} {f : β → Uses α γ} (hx : Grows x y n) (hf : Grows (f y) z k) :
    Grows (x >>= f) z (n + k) := by
  intro m
  obtain ⟨m₁, own, hrun, hm₁, rfl⟩ := hx m
  obtain ⟨m₂, own', hrun', hm₂, rfl⟩ := hf m₁
  refine ⟨m₂, own' ++ own, (run_bind hrun).trans hrun', hm₁.trans hm₂, ?_⟩
  rw [List.length_append, Nat.add_comm]

theorem Grows.bind_zero {x : Uses α β} {f : β → Uses α γ} (hx : Grows x y 0)
    (hf : Grows (f y) z n) : Grows (x >>= f) z n := by
  have h := hx.bind hf
  rwa [Nat.zero_add] at h

theorem Grows.map {x : Uses α β} (hx : Grows x y n) (f : β → γ) : Grows (f <$> x) (f y) n := by
  intro m
  obtain ⟨m₁, own, hrun, hm₁, hlen⟩ := hx m
  exact ⟨m₁, own, by rw [StateT.run_map, hrun]; rfl, hm₁, hlen⟩

/-- **A block that is read** and stays. -/
theorem Allocates.keep {x : Uses α (Option ℕ)} {P : α → Prop} {f : Option α → Uses α γ}
    (hx : Allocates x P) (hf : ∀ a, P a → Grows (f (some a)) z n) :
    Grows (x >>= fun p => read p >>= f) z (n + 1) := by
  intro m
  obtain ⟨b, a, m₁, hrun, hm₁, ha⟩ := hx m
  obtain ⟨m₂, own, hrun', hm₂, rfl⟩ := hf a ha m₁
  refine ⟨m₂, own ++ [(b, a)], ?_, hm₁.trans hm₂, by simp⟩
  rw [run_bind hrun, run_bind (hm₁.read List.mem_cons_self)]
  exact hrun'

/-- **A block that is read** and freed in the end. -/
theorem Allocates.release {x : Uses α (Option ℕ)} {P : α → Prop} {f : Option α → Uses α γ}
    (hx : Allocates x P) (hf : ∀ a, P a → Grows (f (some a)) z n) :
    Grows (x >>= fun p => read p >>= fun a => f a >>= fun y => freeIf p >>= fun _ => pure y)
      z n := by
  intro m
  obtain ⟨b, a, m₁, hrun, hm₁, ha⟩ := hx m
  obtain ⟨m₂, own, hrun', hm₂, rfl⟩ := hf a ha m₁
  obtain ⟨m₃, hfree, hm₃, -⟩ :=
    ((hm₁.trans hm₂).perm (List.perm_append_singleton _ _)).free
  refine ⟨m₃, own, ?_, hm₃, rfl⟩
  rw [run_bind hrun, run_bind (hm₁.read List.mem_cons_self), run_bind hrun']
  exact run_bind hfree

/-- The costs of the steps, as far as they are made. -/
def costs (step : σ → ι → Option σ) (cost : σ → ι → ℕ) : σ → List ι → ℕ
  | _, [] => 0
  | s, i :: l => cost s i + (step s i).elim 0 fun s' => costs step cost s' l

theorem costs_eq_zero (step : σ → ι → Option σ) {cost : σ → ι → ℕ} (h : ∀ s i, cost s i = 0)
    (s : σ) (l : List ι) : costs step cost s l = 0 := by
  induction l generalizing s with
  | nil => rfl
  | cons i l ih =>
    rw [costs, h, Nat.zero_add]
    cases step s i with
    | none => rfl
    | some s' => exact ih s'

/-- **A loop** leaves what its steps leave. -/
theorem grows_foldlM {step : σ → ι → Option σ} {stepIn : σ → ι → Uses α σ} {cost : σ → ι → ℕ}
    {l : List ι} {s s' : σ}
    (hstep : ∀ s, ∀ i ∈ l, ∀ s', step s i = some s' → Grows (stepIn s i) s' (cost s i))
    (h : l.foldlM step s = some s') : Grows (l.foldlM stepIn s) s' (costs step cost s l) := by
  induction l generalizing s with
  | nil =>
    obtain rfl := Option.some.inj h
    exact grows_pure s
  | cons i l ih =>
    rw [List.foldlM_cons] at h
    obtain ⟨s₁, h1, h2⟩ := Option.bind_eq_some_iff.mp h
    rw [List.foldlM_cons, costs, h1, Option.elim_some]
    exact (hstep s i List.mem_cons_self s₁ h1).bind
      (ih (fun s j hj => hstep s j (List.mem_cons_of_mem _ hj)) h2)

end Blocks
