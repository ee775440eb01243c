import Mathlib.Data.List.Basic

/-!
# Threads with cancellation points

A piece of a thread runs over a state. Its `Course` records, besides the value and the final state,
the state at every cancellation point it passes: a cancellation request that acts at the `c`-th
point leaves the thread in the `c`-th recorded state.

* `Thread`, `point`, `get`, `modify`: the pieces and their composition, a monad;
* `wp`, **`wp_bind`**, `wp_mono`: the rules for what holds at every point and at the end;
* `Keeps`, `keeps_bind`: pieces that leave a part of the state alone;
* `wpAt`, **`wpAt_bind`**: the same rules where a point is known by its number;
* `numPoints`, `numPoints_bind`: how many points a piece passes;
* `Thread.run`, `run_of_uncut`, **`run_cases`**: a thread with or without a cancellation request;
  `run_cases_at` for `wpAt`.
-/

set_option autoImplicit false

/-- The states at the cancellation points, the value, and the state at the end. -/
structure Course (σ α : Type) where
  points : List σ
  value : α
  final : σ

/-- A piece of a thread. -/
def Thread (σ α : Type) : Type := σ → Course σ α

namespace Thread

variable {σ α β : Type}

instance : Monad (Thread σ) where
  pure a := fun s => ⟨[], a, s⟩
  bind t f := fun s =>
    ⟨(t s).points ++ (f (t s).value (t s).final).points, (f (t s).value (t s).final).value,
      (f (t s).value (t s).final).final⟩

/-- A cancellation point. -/
def point : Thread σ Unit := fun s => ⟨[s], (), s⟩

def get : Thread σ σ := fun s => ⟨[], s, s⟩

def modify (f : σ → σ) : Thread σ Unit := fun s => ⟨[], (), f s⟩

@[simp] theorem pure_apply (a : α) (s : σ) : (pure a : Thread σ α) s = ⟨[], a, s⟩ := rfl

@[simp] theorem bind_apply (t : Thread σ α) (f : α → Thread σ β) (s : σ) :
    (t >>= f) s = ⟨(t s).points ++ (f (t s).value (t s).final).points,
      (f (t s).value (t s).final).value, (f (t s).value (t s).final).final⟩ := rfl

@[simp] theorem point_apply (s : σ) : (point : Thread σ Unit) s = ⟨[s], (), s⟩ := rfl

@[simp] theorem get_apply (s : σ) : (get : Thread σ σ) s = ⟨[], s, s⟩ := rfl

@[simp] theorem modify_apply (f : σ → σ) (s : σ) : modify f s = ⟨[], (), f s⟩ := rfl

/-! ## Weakest preconditions -/

/-- From `s`, `C` holds at every cancellation point that `t` passes and `Q` holds at its end. -/
def wp (t : Thread σ α) (C : σ → Prop) (Q : α → σ → Prop) (s : σ) : Prop :=
  (∀ p ∈ (t s).points, C p) ∧ Q (t s).value (t s).final

variable {C C' : σ → Prop} {s : σ}

@[simp] theorem wp_pure (a : α) (Q : α → σ → Prop) : wp (pure a) C Q s ↔ Q a s := by
  simp [wp]

/-- **The rule of composition.** -/
@[simp] theorem wp_bind (t : Thread σ α) (f : α → Thread σ β) (Q : β → σ → Prop) :
    wp (t >>= f) C Q s ↔ wp t C (fun a s => wp (f a) C Q s) s := by
  simp only [wp, bind_apply, List.mem_append, or_imp, forall_and, and_assoc]

@[simp] theorem wp_point (Q : Unit → σ → Prop) : wp point C Q s ↔ C s ∧ Q () s := by
  simp [wp]

@[simp] theorem wp_get (Q : σ → σ → Prop) : wp get C Q s ↔ Q s s := by simp [wp]

@[simp] theorem wp_modify (f : σ → σ) (Q : Unit → σ → Prop) :
    wp (modify f) C Q s ↔ Q () (f s) := by
  simp [wp]

theorem wp_ite (p : Prop) [Decidable p] (t t' : Thread σ α) (Q : α → σ → Prop) :
    wp (if p then t else t') C Q s ↔ if p then wp t C Q s else wp t' C Q s := by
  split_ifs <;> rfl

theorem wp_mono {t : Thread σ α} {Q Q' : α → σ → Prop} (h : wp t C Q s) (hC : ∀ p, C p → C' p)
    (hQ : ∀ a s, Q a s → Q' a s) : wp t C' Q' s :=
  ⟨fun p hp => hC p (h.1 p hp), hQ _ _ h.2⟩

/-! ## Frames -/

variable {γ : Type}

/-- `f` has the same value at every cancellation point that `t` passes and at its end. -/
def Keeps (f : σ → γ) (t : Thread σ α) : Prop :=
  ∀ s, wp t (fun p => f p = f s) (fun _ s' => f s' = f s) s

variable {f : σ → γ}

theorem keeps_pure (a : α) : Keeps f (pure a : Thread σ α) := fun s => by simp

theorem keeps_point : Keeps f (point : Thread σ Unit) := fun s => by simp

theorem keeps_get : Keeps f (get : Thread σ σ) := fun s => by simp

theorem keeps_modify {g : σ → σ} (h : ∀ s, f (g s) = f s) : Keeps f (modify g) := fun s => by
  simpa using h s

theorem keeps_bind {t : Thread σ α} {u : α → Thread σ β} (ht : Keeps f t)
    (hu : ∀ a, Keeps f (u a)) : Keeps f (t >>= u) := by
  intro s
  rw [wp_bind]
  obtain ⟨h1, h2⟩ := ht s
  refine ⟨fun p hp => ?_, fun p hp => ?_, ?_⟩
  · exact h1 p hp
  · exact ((hu _ _).1 p hp).trans h2
  · exact (hu _ _).2.trans h2

theorem keeps_ite (p : Prop) [Decidable p] {t u : Thread σ α} (ht : Keeps f t)
    (hu : Keeps f u) : Keeps f (if p then t else u) := by
  split_ifs
  · exact ht
  · exact hu

/-! ## Runs -/

/-- The number of cancellation points passed from `s`. -/
def numPoints (t : Thread σ α) (s : σ) : ℕ := (t s).points.length

@[simp] theorem numPoints_pure (a : α) : numPoints (pure a : Thread σ α) s = 0 := rfl

@[simp] theorem numPoints_bind (t : Thread σ α) (f : α → Thread σ β) :
    numPoints (t >>= f) s = numPoints t s + numPoints (f (t s).value) (t s).final := by
  simp [numPoints]

@[simp] theorem numPoints_point : numPoints (point : Thread σ Unit) s = 1 := rfl

@[simp] theorem numPoints_get : numPoints (get : Thread σ σ) s = 0 := rfl

@[simp] theorem numPoints_modify (f : σ → σ) : numPoints (modify f) s = 0 := rfl

/-- How a thread ends. -/
inductive Ended (σ α : Type) where
  | returned (value : α) (final : σ)
  | cancelled (s : σ)

/-- The whole thread `t` from `s`. A request, if there is one, acts at the `c`-th point, unless the
thread ends before. -/
def run (t : Thread σ α) (cancelAt : Option ℕ) (s : σ) : Ended σ α :=
  match cancelAt.bind fun c => (t s).points[c]? with
  | some p => .cancelled p
  | none => .returned (t s).value (t s).final

/-- No request acts on `t` from `s`. -/
def Uncut (t : Thread σ α) (cancelAt : Option ℕ) (s : σ) : Prop :=
  ∀ c, cancelAt = some c → numPoints t s ≤ c

theorem run_of_uncut {t : Thread σ α} {cancelAt : Option ℕ} (h : Uncut t cancelAt s) :
    run t cancelAt s = .returned (t s).value (t s).final := by
  cases cancelAt with
  | none => rfl
  | some c =>
    have hc : (t s).points[c]? = none := List.getElem?_eq_none (h c rfl)
    simp [run, hc]

/-- **How a thread can end.** -/
theorem run_cases (t : Thread σ α) (cancelAt : Option ℕ) (s : σ) :
    (Uncut t cancelAt s ∧ run t cancelAt s = .returned (t s).value (t s).final) ∨
      ∃ p ∈ (t s).points, run t cancelAt s = .cancelled p := by
  cases hc : cancelAt.bind fun c => (t s).points[c]? with
  | none =>
    refine .inl ⟨?_, by simp [run, hc]⟩
    rintro c rfl
    exact List.getElem?_eq_none_iff.mp hc
  | some p =>
    obtain ⟨c, -, hp⟩ := Option.bind_eq_some_iff.mp hc
    exact .inr ⟨p, List.mem_of_getElem? hp, by simp [run, hc]⟩

/-! ## Numbered points -/

/-- From `s`, after `k` points have been passed: `C` holds of each point that `t` passes and its
number, and `Q` holds at the end, of the number of all points passed by then. -/
def wpAt (t : Thread σ α) (C : ℕ → σ → Prop) (Q : ℕ → α → σ → Prop) (k : ℕ) (s : σ) : Prop :=
  (∀ c p, (t s).points[c]? = some p → C (k + c) p) ∧
    Q (k + numPoints t s) (t s).value (t s).final

section Numbered

variable {C C' : ℕ → σ → Prop} {k : ℕ}

theorem forall_getElem?_append (l l' : List σ) :
    (∀ c p, (l ++ l')[c]? = some p → C (k + c) p) ↔
      (∀ c p, l[c]? = some p → C (k + c) p) ∧
        ∀ c p, l'[c]? = some p → C (k + l.length + c) p := by
  constructor
  · refine fun h => ⟨fun c p hc => ?_, fun c p hc => ?_⟩
    · apply h
      rwa [List.getElem?_append_left (List.getElem?_eq_some_iff.mp hc).1]
    · rw [Nat.add_assoc]
      apply h
      rwa [List.getElem?_append_right (Nat.le_add_right _ _), Nat.add_sub_cancel_left]
  · rintro ⟨h1, h2⟩ c p hc
    by_cases hlt : c < l.length
    · rw [List.getElem?_append_left hlt] at hc
      exact h1 c p hc
    · rw [List.getElem?_append_right (Nat.le_of_not_lt hlt)] at hc
      have h3 := h2 _ p hc
      rwa [Nat.add_assoc, Nat.add_sub_cancel' (Nat.le_of_not_lt hlt)] at h3

@[simp] theorem wpAt_pure (a : α) (Q : ℕ → α → σ → Prop) : wpAt (pure a) C Q k s ↔ Q k a s := by
  simp [wpAt]

/-- **The rule of composition.** -/
@[simp] theorem wpAt_bind (t : Thread σ α) (u : α → Thread σ β) (Q : ℕ → β → σ → Prop) :
    wpAt (t >>= u) C Q k s ↔ wpAt t C (fun k a s => wpAt (u a) C Q k s) k s := by
  simp only [wpAt, bind_apply, numPoints, forall_getElem?_append, List.length_append, and_assoc,
    Nat.add_assoc]

@[simp] theorem wpAt_point (Q : ℕ → Unit → σ → Prop) :
    wpAt point C Q k s ↔ C k s ∧ Q (k + 1) () s := by
  simp [wpAt, List.getElem?_singleton]

@[simp] theorem wpAt_get (Q : ℕ → σ → σ → Prop) : wpAt get C Q k s ↔ Q k s s := by simp [wpAt]

@[simp] theorem wpAt_modify (g : σ → σ) (Q : ℕ → Unit → σ → Prop) :
    wpAt (modify g) C Q k s ↔ Q k () (g s) := by
  simp [wpAt]

theorem wpAt_ite (p : Prop) [Decidable p] (t u : Thread σ α) (Q : ℕ → α → σ → Prop) :
    wpAt (if p then t else u) C Q k s ↔ if p then wpAt t C Q k s else wpAt u C Q k s := by
  split_ifs <;> rfl

theorem Keeps.wpAt {γ : Type} {f : σ → γ} {v : γ} {t : Thread σ α} (h : Keeps f t) (hs : f s = v) :
    wpAt t (fun _ p => f p = v) (fun _ _ s' => f s' = v) k s := by
  obtain ⟨h1, h2⟩ := h s
  exact ⟨fun c p hc => (h1 p (List.mem_of_getElem? hc)).trans hs, h2.trans hs⟩

theorem wpAt_mono {t : Thread σ α} {Q Q' : ℕ → α → σ → Prop} (h : wpAt t C Q k s)
    (hC : ∀ c p, C c p → C' c p) (hQ : ∀ n a s, Q n a s → Q' n a s) : wpAt t C' Q' k s :=
  ⟨fun c p hc => hC _ p (h.1 c p hc), hQ _ _ _ h.2⟩

theorem wpAt_and {t : Thread σ α} {Q Q' : ℕ → α → σ → Prop} (h : wpAt t C Q k s)
    (h' : wpAt t C' Q' k s) :
    wpAt t (fun c p => C c p ∧ C' c p) (fun n a s => Q n a s ∧ Q' n a s) k s :=
  ⟨fun c p hc => ⟨h.1 c p hc, h'.1 c p hc⟩, h.2, h'.2⟩

theorem wpAt_true_iff {t : Thread σ α} {Q : α → σ → Prop} :
    wpAt t (fun _ _ => True) (fun _ => Q) k s ↔ wp t (fun _ => True) Q s := by
  simp [wpAt, wp]

/-- How a thread ends, by the number of the point at which the request acts. -/
theorem run_cases_at {t : Thread σ α} {Q : ℕ → α → σ → Prop} (h : wpAt t C Q 0 s)
    (cancelAt : Option ℕ) :
    (∃ n a s', (∀ c, cancelAt = some c → n ≤ c) ∧ run t cancelAt s = .returned a s' ∧ Q n a s') ∨
      ∃ c p, cancelAt = some c ∧ c < numPoints t s ∧ run t cancelAt s = .cancelled p ∧ C c p := by
  cases hc : cancelAt.bind fun c => (t s).points[c]? with
  | none =>
    refine .inl ⟨numPoints t s, (t s).value, (t s).final, ?_, by simp [run, hc], ?_⟩
    · rintro c rfl
      exact List.getElem?_eq_none_iff.mp hc
    · simpa using h.2
  | some p =>
    obtain ⟨c, hcancel, hp⟩ := Option.bind_eq_some_iff.mp hc
    refine .inr ⟨c, p, hcancel, (List.getElem?_eq_some_iff.mp hp).1, by simp [run, hc], ?_⟩
    simpa using h.1 c p hp

end Numbered

end Thread
