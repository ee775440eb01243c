import Dib.Lib.Run
import Dib.Lib.Population

/-!
# Slots of test threads

`exec_test_thread` lets at most `TEST_THREAD_COUNT` tests run: a requester counts itself in
`test_thread_cnt` under `lock`, creates its test thread, and the thread counts itself out in
`handler_thread_cleanup`.

* `Admission`, `admission`: the counter, the requesters and the test threads, one step for each
  section under `lock` and one for each outcome of `pthread_create`;
* `SlotsAccounted`: the counter is the number of tests that really exist;
* `Admission.cnt_le`: the counter stays within `TEST_THREAD_COUNT`;
* **`slotsAccounted_iff`**: the slots are accounted for exactly as long as no `pthread_create` has
  failed.
-/

set_option autoImplicit false

namespace Dib

def TEST_THREAD_COUNT : ℤ := 100

/-- Where a call of `exec_test_thread` stands. -/
inductive Requester where
  /-- Before its first look at `test_thread_cnt`. -/
  | arriving
  /-- In `pthread_cond_wait`. -/
  | waiting
  /-- Woken, has not looked at `test_thread_cnt` again. -/
  | woken
  /-- Counted in, `lock` released, before `pthread_create`. -/
  | admitted
  /-- `pthread_create` returned 0. -/
  | created
  /-- `pthread_create` failed: the call returns `TB_ERROR`. -/
  | failed
  deriving DecidableEq, Repr

/-- A requester that is about to test `test_thread_cnt > TEST_THREAD_COUNT-1`. -/
def Requester.checking : Requester → Bool
  | .arriving | .woken => true
  | _ => false

/-- Whether a test thread has run `handler_thread_cleanup`. -/
inductive TestThread where
  | running
  | cleaned
  deriving DecidableEq, Repr

/-- `test_thread_cnt`, the calls of `exec_test_thread` and the test threads. -/
structure Admission where
  test_thread_cnt : ℤ
  requesters : List Requester
  threads : List TestThread
  deriving DecidableEq, Repr

namespace Admission

/-- Requesters counted in that have not called `pthread_create` yet. -/
def pending (s : Admission) : ℕ := s.requesters.countP (· == .admitted)

/-- Test threads that have not run `handler_thread_cleanup`. -/
def live (s : Admission) : ℕ := s.threads.countP (· == .running)

/-- `pthread_cond_signal`: it wakes one of the waiting requesters if there is one. -/
inductive Signalled : List Requester → Option ℕ → List Requester → Prop
  | one {l : List Requester} {i : ℕ} : l[i]? = some .waiting → Signalled l (some i) (l.set i .woken)
  | nobody {l : List Requester} : .waiting ∉ l → Signalled l none l

end Admission

inductive AdmissionStep where
  /-- A thread calls `exec_test_thread`. -/
  | arrive
  /-- Requester `i` finds no free slot and calls `pthread_cond_wait`. -/
  | sleep (i : ℕ)
  /-- Requester `i` finds a free slot. -/
  | enter (i : ℕ)
  /-- A spurious wake-up of requester `i`. -/
  | wake (i : ℕ)
  /-- `pthread_create` of requester `i` succeeds. -/
  | create (i : ℕ)
  /-- `pthread_create` of requester `i` fails. -/
  | createFail (i : ℕ)
  /-- Test thread `j` runs `handler_thread_cleanup`, whose signal wakes `k`. -/
  | cleanup (j : ℕ) (k : Option ℕ)
  deriving DecidableEq, Repr

namespace Admission

open AdmissionStep

/-- The steps of `exec_test_thread` and of `handler_thread_cleanup`. -/
inductive Step : Admission → AdmissionStep → Admission → Prop
  | arrive {s : Admission} :
      Step s arrive { s with requesters := s.requesters ++ [.arriving] }
  | sleep {s : Admission} {i : ℕ} {r : Requester} :
      s.requesters[i]? = some r → r.checking → TEST_THREAD_COUNT - 1 < s.test_thread_cnt →
      Step s (sleep i) { s with requesters := s.requesters.set i .waiting }
  | enter {s : Admission} {i : ℕ} {r : Requester} :
      s.requesters[i]? = some r → r.checking → ¬ TEST_THREAD_COUNT - 1 < s.test_thread_cnt →
      Step s (enter i)
        { s with test_thread_cnt := s.test_thread_cnt + 1
                 requesters := s.requesters.set i .admitted }
  | wake {s : Admission} {i : ℕ} :
      s.requesters[i]? = some .waiting →
      Step s (wake i) { s with requesters := s.requesters.set i .woken }
  | create {s : Admission} {i : ℕ} :
      s.requesters[i]? = some .admitted →
      Step s (create i)
        { s with requesters := s.requesters.set i .created, threads := s.threads ++ [.running] }
  -- `free(thread_args); status = TB_ERROR; goto exit;`: `test_thread_cnt` is not touched
  | createFail {s : Admission} {i : ℕ} :
      s.requesters[i]? = some .admitted →
      Step s (createFail i) { s with requesters := s.requesters.set i .failed }
  | cleanup {s : Admission} {j : ℕ} {k : Option ℕ} {l : List Requester} :
      s.threads[j]? = some .running → Signalled s.requesters k l →
      Step s (cleanup j k)
        { test_thread_cnt := s.test_thread_cnt - 1
          requesters := l
          threads := s.threads.set j .cleaned }

end Admission

/-- Any number of requesters and test threads, in any order. -/
def admission : Lts Admission AdmissionStep where
  init s := s = ⟨0, [], []⟩
  step := Admission.Step

/-- The counter is the number of tests that exist, and a requester that goes to sleep does so when
`TEST_THREAD_COUNT` of them exist. -/
def SlotsAccounted (s : Admission) : Prop :=
  s.test_thread_cnt = s.pending + s.live ∧
    ∀ i s', admission.step s (.sleep i) s' → (s.pending + s.live : ℤ) = TEST_THREAD_COUNT

/-- A step that fails to create the thread of an admitted requester. -/
def isCreateFail (p : Admission × AdmissionStep) : Bool :=
  match p.2 with
  | .createFail _ => true
  | _ => false

namespace Admission

open Population

variable {s s' : Admission} {l : AdmissionStep}

theorem pending_signalled {r r' : List Requester} {k : Option ℕ} (h : Signalled r k r') :
    (r'.countP (· == .admitted) : ℤ) = r.countP (· == .admitted) := by
  cases h with
  | one hi => simpa using countP_set_of_get (· == Requester.admitted) hi .woken
  | nobody => rfl

/-- **One step.** The counter stays behind by one more exactly when a creation fails. -/
theorem step_defect (h : Step s l s') :
    s'.test_thread_cnt - (s'.pending + s'.live) =
      s.test_thread_cnt - (s.pending + s.live) + if isCreateFail (s, l) then 1 else 0 := by
  cases h with
  | arrive => simp [pending, live, isCreateFail]
  | @sleep i r hi hr _ =>
    have h1 := countP_set_of_get (· == Requester.admitted) hi .waiting
    cases r <;> simp_all [Requester.checking, pending, live, isCreateFail]
  | @enter i r hi hr _ =>
    have h1 := countP_set_of_get (· == Requester.admitted) hi .admitted
    cases r <;> simp_all [Requester.checking, pending, live, isCreateFail] <;> ring
  | wake hi =>
    have h1 := countP_set_of_get (· == Requester.admitted) hi .woken
    simp_all [pending, live, isCreateFail]
  | create hi =>
    have h1 := countP_set_of_get (· == Requester.admitted) hi .created
    have h2 := countP_append_singleton (· == TestThread.running) s.threads .running
    simp only [pending, live, isCreateFail, h1, h2]
    simp
  | createFail hi =>
    have h1 := countP_set_of_get (· == Requester.admitted) hi .failed
    simp only [pending, live, isCreateFail, h1]
    simp
    ring
  | cleanup hj hk =>
    have h1 := pending_signalled hk
    have h2 := countP_set_of_get (· == TestThread.running) hj .cleaned
    simp only [pending, live, isCreateFail, h1, h2]
    simp
    ring

theorem step_cnt_le (h : Step s l s') (hs : s.test_thread_cnt ≤ TEST_THREAD_COUNT) :
    s'.test_thread_cnt ≤ TEST_THREAD_COUNT := by
  cases h with
  | enter _ _ hfree =>
    show s.test_thread_cnt + 1 ≤ TEST_THREAD_COUNT
    omega
  | cleanup =>
    show s.test_thread_cnt - 1 ≤ TEST_THREAD_COUNT
    omega
  | _ => exact hs

/-- **The counter never exceeds `TEST_THREAD_COUNT`.** -/
theorem cnt_le {tr : List (Admission × AdmissionStep)} (h : admission.Run tr s) :
    s.test_thread_cnt ≤ TEST_THREAD_COUNT :=
  h.invariant (I := fun s => s.test_thread_cnt ≤ TEST_THREAD_COUNT)
    (by rintro s rfl; decide) fun _ _ _ hs hst => step_cnt_le hst hs

/-- **The slots lost in a run are its failed creations.** -/
theorem cnt_eq {tr : List (Admission × AdmissionStep)} (h : admission.Run tr s) :
    s.test_thread_cnt = s.pending + s.live + tr.countP isCreateFail := by
  have := h.defect_eq_count isCreateFail (I := fun _ => True)
    (f := fun s => s.test_thread_cnt - (s.pending + s.live)) (fun _ _ => trivial)
    (fun _ _ _ _ _ => trivial) (by rintro s rfl; rfl) fun _ _ _ _ hst => step_defect hst
  omega

end Admission

/-- **The slots are accounted for exactly as long as no `pthread_create` has failed.** -/
theorem slotsAccounted_iff {tr : List (Admission × AdmissionStep)} {s : Admission}
    (h : admission.Run tr s) : SlotsAccounted s ↔ ∀ p ∈ tr, isCreateFail p = false := by
  have hcnt := Admission.cnt_eq h
  have hle := Admission.cnt_le h
  have hzero : tr.countP isCreateFail = 0 ↔ ∀ p ∈ tr, isCreateFail p = false := by
    rw [List.countP_eq_zero]
    simp
  rw [← hzero]
  constructor
  · rintro ⟨h1, _⟩
    omega
  · intro h0
    refine ⟨by omega, fun i s' hst => ?_⟩
    obtain ⟨_, _, hfull⟩ := hst
    omega

open Admission (Step)

/-- One requester, admitted, whose `pthread_create` fails. -/
def createFailTrace : List (Admission × AdmissionStep) :=
  [(⟨0, [], []⟩, .arrive), (⟨0, [.arriving], []⟩, .enter 0), (⟨1, [.admitted], []⟩, .createFail 0)]

theorem createFailTrace_run : admission.Run createFailTrace ⟨1, [.failed], []⟩ := by
  have h0 : admission.Run [] ⟨0, [], []⟩ := .start rfl
  have h1 : admission.Run (createFailTrace.take 1) ⟨0, [.arriving], []⟩ := .snoc h0 Step.arrive
  have h2 : admission.Run (createFailTrace.take 2) ⟨1, [.admitted], []⟩ :=
    .snoc h1 (Step.enter (i := 0) rfl rfl (by decide))
  exact .snoc h2 (Step.createFail (i := 0) rfl)

/-- The slot of the failed creation stays taken although no test exists. -/
theorem createFail_loses_slot : ¬ ∀ tr s, admission.Run tr s → SlotsAccounted s := by
  intro h
  have := (h _ _ createFailTrace_run).1
  revert this
  decide

/-- A test that is created and cleaned up gives its slot back. -/
theorem slotsAccounted_cleaned : SlotsAccounted ⟨0, [.created], [.cleaned]⟩ := by
  have h0 : admission.Run [] ⟨0, [], []⟩ := .start rfl
  have h1 : admission.Run [(_, .arrive)] ⟨0, [.arriving], []⟩ := .snoc h0 Step.arrive
  have h2 : admission.Run [(_, .arrive), (_, .enter 0)] ⟨1, [.admitted], []⟩ :=
    .snoc h1 (Step.enter (i := 0) rfl rfl (by decide))
  have h3 : admission.Run [(_, .arrive), (_, .enter 0), (_, .create 0)]
      ⟨1, [.created], [.running]⟩ := .snoc h2 (Step.create (i := 0) rfl)
  have h4 : admission.Run [(_, .arrive), (_, .enter 0), (_, .create 0), (_, .cleanup 0 none)]
      ⟨0, [.created], [.cleaned]⟩ :=
    .snoc h3 (Step.cleanup (j := 0) rfl (.nobody (by decide)))
  exact (slotsAccounted_iff h4).mpr (by decide)

end Dib
