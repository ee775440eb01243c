import Dib.Lib.Run
import Dib.Libs.Model

/-!
# References of the loader

Every successful `dlopen` takes a reference to a library and every `dlclose` gives one back.

* `Mapped`, `LibCall`, `LibState.Step`, `libCalls`: runs of `load_testcase_from_lib` and
  `unload_lib`, in which `dlopen` with `RTLD_NOLOAD` succeeds exactly for what is mapped;
* `LibState.Balanced`: the references held are the nodes of `libs`;
* `excess_step`, **`balanced_iff`**: this holds exactly when no `unload_lib` came upon a library
  that is mapped but has no node: it opens that library once and closes it twice.
-/

set_option autoImplicit false

namespace Dib

open Lts

/-! ## Runs -/

/-- What the loader has mapped: what the daemon holds a reference to, and what that needs. -/
inductive Mapped (L : Loader) (s : LibState) : ℕ → Prop
  | held {h : ℕ} : 0 < s.refs h → Mapped L s h
  | needed {g h : ℕ} : Mapped L s g → L.needs g h → Mapped L s h

/-- A call, with the answers it gets. -/
inductive LibCall where
  | load (lib : List Char) (o : LoadAnswers)
  | unload (lib : List Char) (o : UnloadAnswers)
  deriving DecidableEq, Repr

/-- A call that does not fault. -/
inductive LibState.Step (L : Loader) : LibState → LibCall → LibState → Prop
  | load {s s' : LibState} {lib : List Char} {o : LoadAnswers} {imported : Bool} :
      loadLib L lib o s = some (s', imported) → Step L s (.load lib o) s'
  | unload {s s' : LibState} {lib : List Char} {o : UnloadAnswers} {e : UnloadEnd} :
      (o.dlopen = true ↔ Mapped L s (L.handle lib)) → unloadLib L lib o s = some (s', e) →
      Step L s (.unload lib o) s'

/-- The daemon that loads and unloads libraries. -/
def libCalls (L : Loader) : Lts LibState LibCall := ⟨fun s => s = .start, LibState.Step L⟩

/-- For every handle, `libs` has one node for each reference. -/
def LibState.Balanced (s : LibState) : Prop :=
  ∀ h, (s.nodes.countP (·.lib_handle = h) : ℤ) = s.refs h

/-- An `unload_lib` that gets the handle and the symbol of a library without a node. -/
def isAbsentUnload (L : Loader) : LibState × LibCall → Bool
  | (_, .load _ _) => false
  | (s, .unload lib o) => o.calloc && o.dlopen && o.dlsym &&
      s.nodes.all fun v => v.lib_handle ≠ L.handle lib

/-- The same, for the library with handle `h`. -/
def isAbsentUnloadOf (L : Loader) (h : ℕ) (p : LibState × LibCall) : Bool :=
  match p.2 with
  | .load _ _ => false
  | .unload lib _ => decide (L.handle lib = h) && isAbsentUnload L p

/-! ## Steps -/

variable {L : Loader} {s s' : LibState} {c : LibCall}

/-- Nodes of `libs` without a reference. -/
def LibState.excess (h : ℕ) (s : LibState) : ℤ := s.nodes.countP (·.lib_handle = h) - s.refs h

theorem balanced_iff_excess : s.Balanced ↔ ∀ h, s.excess h = 0 :=
  forall_congr' fun h => by rw [LibState.excess, sub_eq_zero]

theorem wf_step (hs : s.WF) (hst : s.Step L c s') : s'.WF := by
  cases hst with
  | @load _ lib o _ hl =>
    obtain ⟨s₁, h1, h2, -⟩ := loadLib_spec (L := L) hs lib o
    rw [h1] at hl
    obtain ⟨rfl, -⟩ := Prod.mk.inj (Option.some.inj hl)
    exact h2
  | unload _ hu => exact (unloadLib_spec hs hu).1

/-- **One call**: only the unload of a library without a node loses the balance, by one. -/
theorem excess_step (hs : s.WF) (hst : s.Step L c s') (h : ℕ) :
    s'.excess h = s.excess h + if isAbsentUnloadOf L h (s, c) then 1 else 0 := by
  cases hst with
  | @load _ lib o _ hl =>
    obtain ⟨s₁, h1, -, h2, h3⟩ := loadLib_spec (L := L) hs lib o
    rw [h1] at hl
    obtain ⟨rfl, -⟩ := Prod.mk.inj (Option.some.inj hl)
    simp only [LibState.excess, h2, h3, isAbsentUnloadOf]
    cases o.calloc && o.dlopen && o.dlsym
    · simp
    · simp only [if_true, List.countP_cons, true_and, Loader.node, decide_eq_true_eq,
        eq_comm (a := h)]
      push_cast
      simp
  | @unload _ lib o e hm hu =>
    obtain ⟨-, he⟩ := unloadLib_spec hs hu
    have hbad : isAbsentUnloadOf L h (s, .unload lib o) = (decide (L.handle lib = h) &&
      ((o.calloc && o.dlopen && o.dlsym) &&
        s.nodes.all fun v => v.lib_handle ≠ L.handle lib)) := rfl
    generalize (o.calloc && o.dlopen && o.dlsym) = ok at he hbad
    rw [hbad, LibState.excess, LibState.excess]
    cases he with
    | refused h1 h2 => simp [h1, h2]
    | absent h1 h2 h3 =>
      have hall : (s.nodes.all fun v => v.lib_handle ≠ L.handle lib) = true := by simpa using h2
      simp only [h1, h3, hall, Bool.and_true, decide_eq_true_eq, eq_comm (a := h)]
      ring
    | removed l₁ v l₂ h1 h2 h3 h4 h5 =>
      have hall : (s.nodes.all fun v => v.lib_handle ≠ L.handle lib) = false := by
        rw [List.all_eq_false]
        exact ⟨v, by simp [h1], by simpa using h3⟩
      simp only [hall, Bool.and_false]
      simp only [h1, h2, h5, List.countP_append, List.countP_cons, h3, decide_eq_true_eq,
        eq_comm (a := h)]
      push_cast
      ring

/-- **Balance.** The references held are the nodes of `libs` exactly when no call has been the
unload of a mapped library without a node. -/
theorem balanced_iff {tr : List (LibState × LibCall)} (hr : (libCalls L).Run tr s) :
    s.Balanced ↔ ∀ p ∈ tr, isAbsentUnload L p = false := by
  have h1 : ∀ h, s.excess h = 0 ↔ ∀ p ∈ tr, isAbsentUnloadOf L h p = false := fun h =>
    hr.defect_eq_zero_iff (isAbsentUnloadOf L h) (I := LibState.WF)
      (by rintro _ rfl; exact wf_start)
      (fun _ _ _ hs hst => wf_step hs hst) (by rintro _ rfl; rfl)
      fun _ _ _ hs hst => excess_step hs hst h
  simp only [balanced_iff_excess, h1]
  constructor
  · intro h p hp
    rcases p with ⟨s₁, _ | ⟨lib, o⟩⟩
    · rfl
    · simpa [isAbsentUnloadOf] using h (L.handle lib) _ hp
  · intro h h' p hp
    rcases p with ⟨s₁, _ | ⟨lib, o⟩⟩
    · rfl
    · simp [isAbsentUnloadOf, h _ hp]

/-! ## Two libraries, one of which needs the other -/

/-- `x` has handle `1` and needs the library with handle `2`. -/
def xNeedsY : Loader where
  handle lib := if lib = ['x'] then 1 else 2
  needs g h := g = 1 ∧ h = 2
  TB_MAX_PATH_LEN := 256

/-- The daemon after `x` was loaded. -/
def xLoaded : LibState := ⟨[some ⟨⟨['x'], 1⟩, none⟩], some 0, bump (fun _ => 0) 1, fun _ => 0⟩

theorem xLoaded_run :
    (libCalls xNeedsY).Run [(.start, .load ['x'] ⟨true, true, true⟩)] xLoaded :=
  .snoc (.start rfl) (.load rfl)

theorem xLoaded_mapped : Mapped xNeedsY xLoaded 1 := .held (by decide)

/-- Loaded and unloaded, `x` leaves no reference behind. -/
theorem balanced_x : ∃ s, (libCalls xNeedsY).Run
    [(.start, .load ['x'] ⟨true, true, true⟩), (xLoaded, .unload ['x'] ⟨true, true, true⟩)] s ∧
    s.Balanced := by
  have hst : ∃ s, xLoaded.Step xNeedsY (.unload ['x'] ⟨true, true, true⟩) s :=
    ⟨_, .unload (iff_of_true rfl xLoaded_mapped) rfl⟩
  obtain ⟨s, hst⟩ := hst
  have hr := xLoaded_run.snoc hst
  exact ⟨s, hr, (balanced_iff hr).mpr (by decide)⟩

/-- Unloading the library that only `x` needs gives back a reference that was never taken. -/
theorem dependency_closed_twice : ∃ s, (libCalls xNeedsY).Run
    [(.start, .load ['x'] ⟨true, true, true⟩), (xLoaded, .unload ['y'] ⟨true, true, true⟩)] s ∧
    s.nodes = [⟨['x'], 1⟩] ∧ s.refs 2 = -1 ∧ ¬ s.Balanced := by
  have hst : ∃ s, xLoaded.Step xNeedsY (.unload ['y'] ⟨true, true, true⟩) s ∧
      s.nodes = [⟨['x'], 1⟩] ∧ s.refs 2 = -1 :=
    ⟨_, .unload (iff_of_true rfl (.needed xLoaded_mapped ⟨rfl, rfl⟩)) rfl, rfl, rfl⟩
  obtain ⟨s, hst, hn, href⟩ := hst
  refine ⟨s, xLoaded_run.snoc hst, hn, href, fun hb => ?_⟩
  have h2 := hb 2
  rw [hn, href] at h2
  revert h2
  decide

end Dib
