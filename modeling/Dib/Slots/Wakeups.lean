import Dib.Slots.Tests

/-!
# Wake-ups of requesters

`handler_thread_cleanup` gives a slot back and signals one requester that waits; a requester that
arrives meanwhile may take the slot before the woken one looks again, and wake-ups may be spurious.

* `Admission.woken`: the requesters that were woken and have not looked again;
* `Admission.Attended`: while a requester waits, there is a woken one for each free slot;
* `attended_step`: every step keeps this;
* **`bounded_and_attended`**: at most `TEST_THREAD_COUNT` tests are counted, and no free slot is
  left with requesters that only wait.
-/

set_option autoImplicit false

namespace Dib

namespace Admission

open Population

/-- Requesters that were woken and have not looked at `test_thread_cnt` again. -/
def woken (s : Admission) : ℕ := s.requesters.countP (· == .woken)

/-- While a requester waits, each free slot has a woken requester. -/
def Attended (s : Admission) : Prop :=
  .waiting ∈ s.requesters → TEST_THREAD_COUNT - s.test_thread_cnt ≤ s.woken

variable {s s' : Admission} {l : AdmissionStep} {r : List Requester} {i : ℕ} {q : Requester}

theorem waiting_mem_of_set (hq : q ≠ .waiting) (h : .waiting ∈ r.set i q) : .waiting ∈ r := by
  rcases List.mem_or_eq_of_mem_set h with h | h
  · exact h
  · exact absurd h.symm hq

theorem woken_signalled {r' : List Requester} {k : Option ℕ} (h : Signalled r k r')
    (hw : .waiting ∈ r') :
    .waiting ∈ r ∧ (r'.countP (· == .woken) : ℤ) = r.countP (· == .woken) + 1 := by
  cases h with
  | one hi =>
    have h1 := countP_set_of_get (· == Requester.woken) hi .woken
    refine ⟨waiting_mem_of_set (by decide) hw, ?_⟩
    simpa using h1
  | nobody hn => exact absurd hw hn

theorem woken_le_of_enter (hi : s.requesters[i]? = some q) :
    (s.woken : ℤ) ≤ (s.requesters.set i .admitted).countP (· == .woken) + 1 := by
  have h1 := countP_set_of_get (· == Requester.woken) hi .admitted
  simp only [woken]
  split_ifs at h1 <;> simp at h1 <;> omega

/-- **One step** leaves a woken requester for each free slot. -/
theorem attended_step (h : Step s l s') (hs : s.Attended) : s'.Attended := by
  intro hw
  cases h with
  | arrive =>
    have h1 := hs (by simpa using hw)
    simpa [woken] using h1
  | sleep _ _ hfull =>
    -- the slots are taken: nothing to attend to
    show TEST_THREAD_COUNT - s.test_thread_cnt ≤ _
    omega
  | enter hi _ _ =>
    -- one slot less, and one woken requester less at most
    have h1 := hs (waiting_mem_of_set (by decide) hw)
    have h2 := woken_le_of_enter hi
    show TEST_THREAD_COUNT - (s.test_thread_cnt + 1) ≤ _
    simp only [woken] at h1 h2 ⊢
    omega
  | wake hi =>
    have h1 := hs (List.mem_of_getElem? hi)
    have h2 := countP_set_of_get (· == Requester.woken) hi .woken
    simp only [woken] at h1 ⊢
    simp at h2
    omega
  | create hi =>
    have h1 := hs (waiting_mem_of_set (by decide) hw)
    have h2 := countP_set_of_get (· == Requester.woken) hi .created
    simp only [woken] at h1 ⊢
    simp at h2
    omega
  | createFail hi =>
    have h1 := hs (waiting_mem_of_set (by decide) hw)
    have h2 := countP_set_of_get (· == Requester.woken) hi .failed
    simp only [woken] at h1 ⊢
    simp at h2
    omega
  | cleanup _ hk =>
    obtain ⟨h1, h2⟩ := woken_signalled hk hw
    have h3 := hs h1
    show TEST_THREAD_COUNT - (s.test_thread_cnt - 1) ≤ _
    simp only [woken] at h3 ⊢
    omega

end Admission

/-- **Bounded admission without lost wake-ups.** In every state reached, at most
`TEST_THREAD_COUNT` tests are counted, and while a requester waits and slots are free there is a
woken requester for each of them. -/
theorem bounded_and_attended {tr : List (Admission × AdmissionStep)} {s : Admission}
    (h : admission.Run tr s) :
    s.test_thread_cnt ≤ TEST_THREAD_COUNT ∧
      (.waiting ∈ s.requesters → s.test_thread_cnt < TEST_THREAD_COUNT →
        TEST_THREAD_COUNT - s.test_thread_cnt ≤ s.woken) := by
  have hatt : s.Attended := h.invariant (I := Admission.Attended) (by
    rintro s rfl hw
    cases hw) fun _ _ _ hs hst => Admission.attended_step hst hs
  exact ⟨Admission.cnt_le h, fun hw _ => hatt hw⟩

theorem tests_run {n : ℕ} (hn : n ≤ 100) : ∃ tr, admission.Run tr
    ⟨n, List.replicate n .created, List.replicate n .running⟩ := by
  induction n with
  | zero => exact ⟨[], .start rfl⟩
  | succ n ih =>
    obtain ⟨tr, h0⟩ := ih (Nat.le_of_succ_le hn)
    have hget : ∀ q : Requester, (List.replicate n .created ++ [q])[n]? = some q := fun q => by
      simp
    have hset : ∀ q p : Requester, (List.replicate n Requester.created ++ [q]).set n p =
        List.replicate n .created ++ [p] := fun q p => by simp
    have hfree : ¬ TEST_THREAD_COUNT - 1 < (n : ℤ) := by
      rw [TEST_THREAD_COUNT]
      omega
    have h1 := h0.snoc .arrive
    have h2 := h1.snoc (.enter (hget _) rfl hfree)
    rw [hset] at h2
    have h3 := h2.snoc (.create (hget _))
    rw [hset] at h3
    rw [List.replicate_succ', List.replicate_succ', Nat.cast_succ]
    exact ⟨_, h3⟩

/-- All slots are taken, two requesters wait, and one test is cleaned up: one of the two is woken,
and the other waits on. -/
theorem bounded_and_attended_full : ∃ tr s, admission.Run tr s ∧
    s.requesters = List.replicate 100 .created ++ [.woken, .waiting] ∧
    s.test_thread_cnt < TEST_THREAD_COUNT ∧
    TEST_THREAD_COUNT - s.test_thread_cnt ≤ s.woken := by
  obtain ⟨tr, h0⟩ := tests_run (Nat.le_refl 100)
  have hfull : TEST_THREAD_COUNT - 1 < ((100 : ℕ) : ℤ) := by decide
  have h1 := h0.snoc .arrive
  have h2 := h1.snoc (.sleep (i := 100) (r := .arriving) (by simp) rfl hfull)
  have h3 := h2.snoc .arrive
  have h4 := h3.snoc (.sleep (i := 101) (r := .arriving) (by simp) rfl hfull)
  have h5 := h4.snoc (.cleanup (j := 0) (by simp) (.one (i := 100) (by simp)))
  exact ⟨_, _, h5, by simp, by decide, (bounded_and_attended h5).2 (by simp) (by decide)⟩

end Dib
