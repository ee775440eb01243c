import Dib.Lib.Run

/-!
# Progress of labelled transition systems

* **`Run.project`**: a part of the state, moved by some of the steps, runs in a system of its own;
* `Path`, `Run.append`: steps from any state; `Path.invariant_of_meets`: what they keep;
* **`Run.countP_le_of_potential`**: work that is paid for by a potential is bounded by what the
  other steps pay in;
* `Quiet`, **`Run.exists_quiet`**: where a measure goes down with each step that meets `C`, such
  steps lead to a state without any.
-/

set_option autoImplicit false

universe u v u' v'

namespace Lts

variable {S : Type u} {L : Type v} {T : Lts S L} {tr tr' : List (S × L)} {s s' s'' : S} {l : L}

/-! ## Projections -/

/-- The steps of a part `π` of the state: those that have a label in its system. -/
def projected {S' : Type u'} {L' : Type v'} (π : S → S') (ρ : L → Option L')
    (tr : List (S × L)) : List (S' × L') :=
  tr.filterMap fun p => (ρ p.2).map (π p.1, ·)

/-- **A part of the state runs in its own system** when each step is one of its steps or leaves it
alone. -/
theorem Run.project {S' : Type u'} {L' : Type v'} {T' : Lts S' L'} (π : S → S')
    (ρ : L → Option L') (hinit : ∀ s, T.init s → T'.init (π s))
    (hstep : ∀ s l s' l', T.step s l s' → ρ l = some l' → T'.step (π s) l' (π s'))
    (hskip : ∀ s l s', T.step s l s' → ρ l = none → π s' = π s) (h : T.Run tr s) :
    T'.Run (projected π ρ tr) (π s) := by
  induction h with
  | start h0 => exact .start (hinit _ h0)
  | @snoc tr s s' l _ hst ih =>
    rw [projected, List.filterMap_append]
    cases hl : ρ l with
    | none =>
      rw [hskip s l s' hst hl]
      simpa [projected, hl] using ih
    | some l' =>
      have h1 := ih.snoc (hstep s l s' l' hst hl)
      simpa [projected, hl] using h1

theorem countP_projected {S' : Type u'} {L' : Type v'} (π : S → S') (ρ : L → Option L')
    (p : S' × L' → Bool) (q : S × L → Bool)
    (hpq : ∀ x, q x = ((ρ x.2).map (π x.1, ·)).any p) (tr : List (S × L)) :
    (projected π ρ tr).countP p = tr.countP q := by
  induction tr with
  | nil => rfl
  | cons x tr ih =>
    rw [projected] at ih ⊢
    rw [List.filterMap_cons, List.countP_cons, hpq]
    cases hx : ρ x.2 with
    | none => simpa using ih
    | some l' => simpa [List.countP_cons] using ih

/-! ## Paths -/

variable (T) in
/-- The steps `tr`, each paired with the state it leaves, lead from a state to another. -/
inductive Path : S → List (S × L) → S → Prop
  | nil {s : S} : Path s [] s
  | cons {s s' s'' : S} {l : L} {tr : List (S × L)} :
      T.step s l s' → Path s' tr s'' → Path s ((s, l) :: tr) s''

theorem Run.append (h : T.Run tr s) (hp : T.Path s tr' s') : T.Run (tr ++ tr') s' := by
  induction hp generalizing tr with
  | nil => simpa using h
  | @cons s s' s'' l tr' hst _ ih =>
    have h1 := ih (h.snoc hst)
    rwa [List.append_assoc, List.singleton_append] at h1

theorem Path.append (h : T.Path s tr s') (h' : T.Path s' tr' s'') : T.Path s (tr ++ tr') s'' := by
  induction h with
  | nil => exact h'
  | cons hst _ ih => exact .cons hst (ih h')

/-- **What the steps of a path keep**, where they meet `C` in what has been reached. -/
theorem Path.invariant_of_meets {C : S → L → Prop} {I : S → Prop} (hp : T.Path s tr s')
    (hs : I s) (hstep : ∀ s l s', I s → C s l → T.step s l s' → I s')
    (hC : ∀ p ∈ tr, C p.1 p.2) : I s' := by
  induction hp with
  | nil => exact hs
  | @cons s s₁ s' l tr hst _ ih =>
    refine ih (hstep s l s₁ hs (hC (s, l) List.mem_cons_self) hst) fun p hp => ?_
    exact hC p (List.mem_cons_of_mem _ hp)

/-! ## Work -/

/-- **Work paid for by a potential.** A step of `work` lowers `f` by one; a step raises it by its
`cost` at most. -/
theorem Run.countP_le_of_potential {f : S → ℕ} (work : S × L → Bool) (cost : S × L → ℕ)
    (hinit : ∀ s, T.init s → f s = 0)
    (hstep : ∀ tr s l s', T.Run tr s → T.step s l s' →
      f s' + (if work (s, l) then 1 else 0) ≤ f s + cost (s, l)) (h : T.Run tr s) :
    f s + tr.countP work ≤ (tr.map cost).sum := by
  induction h with
  | start h0 => simp [hinit _ h0]
  | @snoc tr s s' l hr hst ih =>
    have h1 := hstep tr s l s' hr hst
    rw [List.countP_append, List.countP_singleton, List.map_append, List.sum_append]
    simp only [List.map_cons, List.map_nil, List.sum_cons, List.sum_nil]
    omega

variable (T) in
/-- No step from here meets `C`. -/
def Quiet (C : S → L → Prop) (s : S) : Prop := ∀ l s', T.step s l s' → ¬ C s l

/-- **Steps that meet `C` lead to a quiet state**, where a measure goes down with each of them. -/
theorem Run.exists_quiet {C : S → L → Prop} {f : S → ℕ}
    (hf : ∀ tr s l s', T.Run tr s → C s l → T.step s l s' → f s' < f s) (h : T.Run tr s) :
    ∃ tr' s', T.Path s tr' s' ∧ (∀ p ∈ tr', C p.1 p.2) ∧ T.Quiet C s' := by
  induction hn : f s using Nat.strong_induction_on generalizing tr s with
  | _ n ih =>
    subst hn
    by_cases hq : T.Quiet C s
    · exact ⟨[], s, .nil, by simp, hq⟩
    · simp only [Quiet, not_forall, not_not] at hq
      obtain ⟨l, s₁, hst, hC⟩ := hq
      obtain ⟨tr', s', hp, hC', hq'⟩ := ih _ (hf tr s l s₁ h hC hst) (h.snoc hst) rfl
      refine ⟨(s, l) :: tr', s', .cons hst hp, fun p hp => ?_, hq'⟩
      rcases List.mem_cons.mp hp with rfl | hp
      · exact hC
      · exact hC' p hp

end Lts
