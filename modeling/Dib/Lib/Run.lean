import Mathlib.Data.List.Basic
import Mathlib.Data.List.Induction
import Mathlib.Tactic.Ring

/-!
# Runs of labelled transition systems

* `Lts`, `Lts.Run`: a run is recorded as the list of its steps, each with the state it started from,
  so that a condition on steps may look at that state;
* `Run.invariant`, `Run.invariant_of_meets`: the induction rules for invariants, over all runs and
  over the runs whose steps all meet a condition; `Lts.only`, `run_only_iff`: the system that has
  just these runs;
* **`Run.exact`**: a property that each step keeps exactly when the step meets `C` holds along a
  run exactly when all steps meet `C`; `Run.exact_of_reachable`;
* **`Run.meets_of_unmarked`**: steps that leave a lasting mark have not been taken where it is not
  found;
* **`Run.defect_eq_count`**, `Run.defect_eq_zero_iff`: an integer that grows by one at the bad
  steps and is kept by the others counts the bad steps of the run;
* `Lts.watch`, `Run.watch`: a system with a record of its steps.
-/

set_option autoImplicit false

universe u v

/-- A labelled transition system: its initial states and its steps. -/
structure Lts (S : Type u) (L : Type v) where
  init : S → Prop
  step : S → L → S → Prop

namespace Lts

variable {S : Type u} {L : Type v} (T : Lts S L)

/-- `T.Run tr s`: the steps `tr`, each paired with the state it leaves, lead from an initial state
to `s`. -/
inductive Run : List (S × L) → S → Prop
  | start {s : S} : T.init s → Run [] s
  | snoc {tr : List (S × L)} {s s' : S} {l : L} :
      Run tr s → T.step s l s' → Run (tr ++ [(s, l)]) s'

variable {T} {tr : List (S × L)} {s : S}

/-- **Invariants of the runs whose steps all meet `C`.** -/
theorem Run.invariant_of_meets {C : S → L → Prop} {I : S → Prop} (hinit : ∀ s, T.init s → I s)
    (hstep : ∀ s l s', I s → C s l → T.step s l s' → I s') (h : T.Run tr s)
    (hC : ∀ p ∈ tr, C p.1 p.2) : I s := by
  induction h with
  | start h0 => exact hinit _ h0
  | @snoc tr s s' l _ hst ih =>
    have hs := ih fun p hp => hC p (List.mem_append_left _ hp)
    exact hstep s l s' hs (hC (s, l) (by simp)) hst

/-- **Invariants of all runs.** -/
theorem Run.invariant {I : S → Prop} (hinit : ∀ s, T.init s → I s)
    (hstep : ∀ s l s', I s → T.step s l s' → I s') (h : T.Run tr s) : I s :=
  h.invariant_of_meets (C := fun _ _ => True) hinit (fun s l s' hI _ => hstep s l s' hI)
    fun _ _ => trivial

theorem Run.prefix_of_mem (h : T.Run tr s) {p : S × L} (hp : p ∈ tr) :
    ∃ tr₁ tr₂ s', tr = tr₁ ++ p :: tr₂ ∧ T.Run tr₁ p.1 ∧ T.step p.1 p.2 s' := by
  induction h with
  | start _ => simp at hp
  | @snoc tr s s' l hr hst ih =>
    rcases List.mem_append.mp hp with hp | hp
    · obtain ⟨tr₁, tr₂, s₁, rfl, h1, h2⟩ := ih hp
      exact ⟨tr₁, tr₂ ++ [(s, l)], s₁, by simp, h1, h2⟩
    · obtain rfl := List.mem_singleton.mp hp
      exact ⟨tr, [], s', rfl, hr, hst⟩

variable (T) in
/-- The steps of `T` that meet `C`. -/
def only (C : S → L → Prop) : Lts S L := ⟨T.init, fun s l s' => C s l ∧ T.step s l s'⟩

/-- The runs whose steps all meet `C`. -/
theorem run_only_iff {C : S → L → Prop} :
    (T.only C).Run tr s ↔ T.Run tr s ∧ ∀ p ∈ tr, C p.1 p.2 := by
  constructor
  · intro h
    induction h with
    | start h0 => exact ⟨.start h0, by simp⟩
    | @snoc tr s s' l _ hst ih =>
      refine ⟨.snoc ih.1 hst.2, fun p hp => ?_⟩
      rcases List.mem_append.mp hp with hp | hp
      · exact ih.2 p hp
      · obtain rfl := List.mem_singleton.mp hp
        exact hst.1
  · rintro ⟨h, hC⟩
    induction h with
    | start h0 => exact .start h0
    | @snoc tr s s' l _ hst ih =>
      exact .snoc (ih fun p hp => hC p (List.mem_append_left _ hp)) ⟨hC (s, l) (by simp), hst⟩

/-- **Exactness along a run.** `J` implies `P` and is kept by the steps that meet `C`, and a step
from `J` that does not meet `C` loses `P`. Then `P` holds in every state of a run exactly when all
its steps meet `C`. -/
theorem Run.exact {J P : S → Prop} {C : S → L → Prop} (hJ : ∀ s, T.init s → J s)
    (hJP : ∀ s, J s → P s) (hkeep : ∀ s l s', J s → C s l → T.step s l s' → J s')
    (hbreak : ∀ s l s', J s → T.step s l s' → P s' → C s l) (h : T.Run tr s) :
    ((∀ p ∈ tr, P p.1) ∧ P s) ↔ ∀ p ∈ tr, C p.1 p.2 := by
  induction h with
  | start h0 => simpa using hJP _ (hJ _ h0)
  | @snoc tr s s' l hr hst ih =>
    simp only [List.mem_append, List.mem_singleton, or_imp, forall_and, forall_eq]
    constructor
    · rintro ⟨⟨h1, h2⟩, h3⟩
      have hC := ih.mp ⟨h1, h2⟩
      exact ⟨hC, hbreak s l s' (hr.invariant_of_meets hJ hkeep hC) hst h3⟩
    · rintro ⟨hC, h2⟩
      have hs' := hkeep s l s' (hr.invariant_of_meets hJ hkeep hC) h2 hst
      exact ⟨ih.mpr hC, hJP s' hs'⟩

/-- **Exactness between reachable states.** What is known of the reachable states may be used. -/
theorem Run.exact_of_reachable {P : S → Prop} {C : S → L → Prop} (hinit : ∀ s, T.init s → P s)
    (hkeep : ∀ tr s l s', T.Run tr s → P s → C s l → T.step s l s' → P s')
    (hbreak : ∀ tr s l s', T.Run tr s → T.step s l s' → P s' → C s l) (h : T.Run tr s) :
    ((∀ p ∈ tr, P p.1) ∧ P s) ↔ ∀ p ∈ tr, C p.1 p.2 := by
  refine h.exact (J := fun s => (∃ tr, T.Run tr s) ∧ P s)
    (fun s h0 => ⟨⟨[], .start h0⟩, hinit s h0⟩) (fun s hJ => hJ.2) ?_ ?_
  · rintro s l s' ⟨⟨tr, hr⟩, hP⟩ hC hst
    exact ⟨⟨_, hr.snoc hst⟩, hkeep tr s l s' hr hP hC hst⟩
  · rintro s l s' ⟨⟨tr, hr⟩, -⟩ hst hP
    exact hbreak tr s l s' hr hst hP

/-- **Lasting marks.** A step that does not meet `C` leaves the mark `D`, and no step removes it:
a run without the mark has met `C` all along. -/
theorem Run.meets_of_unmarked {C : S → L → Prop} {J D : S → Prop} (hinit : ∀ s, T.init s → J s)
    (hJ : ∀ s l s', J s → T.step s l s' → J s')
    (hset : ∀ s l s', J s → ¬ C s l → T.step s l s' → D s')
    (hkeep : ∀ s l s', J s → D s → T.step s l s' → D s') (h : T.Run tr s) (hs : ¬ D s) :
    ∀ p ∈ tr, C p.1 p.2 := by
  induction h with
  | start _ => simp
  | @snoc tr s s' l hr hst ih =>
    have hI := hr.invariant hinit hJ
    have htr := ih fun hd => hs (hkeep s l s' hI hd hst)
    have hl : C s l := by
      by_contra hn
      exact hs (hset s l s' hI hn hst)
    simpa [or_imp, forall_and] using ⟨fun p q hp => htr (p, q) hp, hl⟩

/-- **Counting rule.** `f` starts at `0`, grows by one at a bad step and is kept by the others: it
is the number of bad steps taken. -/
theorem Run.defect_eq_count (bad : S × L → Bool) {I : S → Prop} {f : S → ℤ}
    (hI : ∀ s, T.init s → I s) (hIstep : ∀ s l s', I s → T.step s l s' → I s')
    (hf : ∀ s, T.init s → f s = 0)
    (hstep : ∀ s l s', I s → T.step s l s' → f s' = f s + if bad (s, l) then 1 else 0)
    (h : T.Run tr s) : f s = tr.countP bad := by
  induction h with
  | start h0 => simpa using hf _ h0
  | @snoc tr s s' l hr hst ih =>
    rw [hstep s l s' (hr.invariant hI hIstep) hst, ih, List.countP_append]
    cases hb : bad (s, l) <;> simp [hb]

theorem Run.defect_eq_zero_iff (bad : S × L → Bool) {I : S → Prop} {f : S → ℤ}
    (hI : ∀ s, T.init s → I s) (hIstep : ∀ s l s', I s → T.step s l s' → I s')
    (hf : ∀ s, T.init s → f s = 0)
    (hstep : ∀ s l s', I s → T.step s l s' → f s' = f s + if bad (s, l) then 1 else 0)
    (h : T.Run tr s) : f s = 0 ↔ ∀ p ∈ tr, bad p = false := by
  rw [h.defect_eq_count bad hI hIstep hf hstep]
  simp [List.countP_eq_zero]

/-! ## Records of steps -/

/-- The steps are noted in a record, which they do not look at. -/
def watch {R : Type v} (T : Lts S L) (note : R → L → R) (r₀ : R) : Lts (S × R) L where
  init x := T.init x.1 ∧ x.2 = r₀
  step x l y := T.step x.1 l y.1 ∧ y.2 = note x.2 l

/-- **Every run can be watched.** -/
theorem Run.watch {R : Type v} (h : T.Run tr s) (note : R → L → R) (r₀ : R) :
    ∃ tr', (T.watch note r₀).Run tr' (s, (tr.map Prod.snd).foldl note r₀) ∧
      tr'.map Prod.snd = tr.map Prod.snd := by
  induction h with
  | start h0 => exact ⟨[], .start ⟨h0, rfl⟩, rfl⟩
  | @snoc tr s s' l _ hst ih =>
    obtain ⟨tr', hrun, htr⟩ := ih
    refine ⟨_, hrun.snoc ⟨hst, ?_⟩, ?_⟩
    · rw [List.map_append, List.foldl_append]
      rfl
    · rw [List.map_append, List.map_append, htr]
      rfl

/-! ## Systems that compute -/

theorem foldlM_mono {f g : S → L → Option S}
    (hfg : ∀ s l s', f s l = some s' → g s l = some s') {ls : List L} {s s' : S}
    (h : ls.foldlM f s = some s') : ls.foldlM g s = some s' := by
  induction ls generalizing s with
  | nil => exact h
  | cons l ls ih =>
    rw [List.foldlM_cons] at h ⊢
    obtain ⟨s₁, h1, h2⟩ := Option.bind_eq_some_iff.mp h
    exact Option.bind_eq_some_iff.mpr ⟨s₁, hfg s l s₁ h1, ih h2⟩

theorem foldlM_concat_iff {f : S → L → Option S} {ls : List L} {l : L} {s s' : S} :
    (ls ++ [l]).foldlM f s = some s' ↔ ∃ s₁, ls.foldlM f s = some s₁ ∧ f s₁ l = some s' := by
  rw [List.foldlM_append]
  refine Option.bind_eq_some_iff.trans (exists_congr fun s₁ => and_congr_right fun _ => ?_)
  rw [List.foldlM_cons]
  cases f s₁ l with
  | none => exact iff_of_false (by rintro ⟨⟩) (by rintro ⟨⟩)
  | some s₂ => rfl

theorem run_concat_iff {ls : List L} {l : L} :
    (∃ tr, T.Run tr s ∧ tr.map Prod.snd = ls ++ [l]) ↔
      ∃ s₁, (∃ tr, T.Run tr s₁ ∧ tr.map Prod.snd = ls) ∧ T.step s₁ l s := by
  constructor
  · rintro ⟨tr, hr, htr⟩
    cases hr with
    | start _ => exact absurd htr.symm (List.append_ne_nil_of_right_ne_nil _ (by simp))
    | @snoc tr s₁ _ l' hr hst =>
      rw [List.map_append, List.map_singleton] at htr
      obtain ⟨hls, hl⟩ := List.append_inj' htr rfl
      obtain rfl := List.singleton_injective hl
      exact ⟨s₁, ⟨tr, hr, hls⟩, hst⟩
  · rintro ⟨s₁, ⟨tr, hr, rfl⟩, hst⟩
    exact ⟨_, hr.snoc hst, by rw [List.map_append, List.map_singleton]⟩

/-- **A system that computes its steps.** With more rounds it computes more of them; its runs are
what it computes for their labels, in as many rounds as they take. -/
theorem run_iff_foldlM {s₀ : S} {f : ℕ → S → L → Option S} (hinit : ∀ s, T.init s ↔ s = s₀)
    (hstep : ∀ s l s', T.step s l s' ↔ ∃ n, f n s l = some s')
    (hmono : ∀ {n m s l s'}, n ≤ m → f n s l = some s' → f m s l = some s') (ls : List L) :
    (∃ tr, T.Run tr s ∧ tr.map Prod.snd = ls) ↔ ∃ n, ls.foldlM (f n) s₀ = some s := by
  induction ls using List.reverseRecOn generalizing s with
  | nil =>
    constructor
    · rintro ⟨tr, hr, htr⟩
      obtain rfl := List.map_eq_nil_iff.mp htr
      generalize hnil : ([] : List (S × L)) = tr at hr
      cases hr with
      | start h0 => exact ⟨0, congrArg some ((hinit s).mp h0).symm⟩
      | snoc _ _ => exact absurd hnil.symm (List.append_ne_nil_of_right_ne_nil _ (by simp))
    · rintro ⟨_, ⟨⟩⟩
      exact ⟨[], .start ((hinit s₀).mpr rfl), rfl⟩
  | append_singleton ls l ih =>
    rw [run_concat_iff]
    constructor
    · rintro ⟨s₁, hr, hst⟩
      obtain ⟨n, hn⟩ := ih.mp hr
      obtain ⟨m, hm⟩ := (hstep s₁ l s).mp hst
      exact ⟨max n m, foldlM_concat_iff.mpr ⟨s₁, foldlM_mono
        (fun _ _ _ => hmono (Nat.le_max_left n m)) hn, hmono (Nat.le_max_right n m) hm⟩⟩
    · rintro ⟨n, hn⟩
      obtain ⟨s₁, h1, h2⟩ := foldlM_concat_iff.mp hn
      exact ⟨s₁, ih.mpr ⟨n, h1⟩, (hstep s₁ l s).mpr ⟨n, h2⟩⟩

end Lts
