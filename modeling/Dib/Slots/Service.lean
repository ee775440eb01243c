import Dib.Lib.Progress
import Dib.Slots.Connections
import Dib.Slots.Wakeups
import Mathlib.Data.List.Perm.Basic

/-!
# The two limits together

A thread of a connection that runs a test needs two slots: its connection holds one of
`connection_count` while it waits in `exec_test_thread` for one of `test_thread_cnt`, and then
perhaps for the end of its test.

* `Call`, `Service`, `service`: both counters with their threads, and which handler thread is which
  requester; `cmd_parse` returns when the call of `exec_test_thread` under it has returned;
* `run_connections`, `run_admission`: each counter runs as it does alone;
* `Linked`, `linked_of_run`: the calls are those of the requesters;
* `Service.work`, `work_step`: what is left to do, and what a step takes of it;
* **`steps_le`**: the daemon takes at most 17 steps for each client and one for each spurious
  wake-up.
-/

set_option autoImplicit false

namespace Dib

open Lts Population

/-! ## The model -/

/-- A call of `exec_test_thread`: the handler thread that makes it, whether it waits for the answer,
and its test thread. -/
structure Call where
  handler : ℕ
  wait : Bool
  thread : Option ℕ
  deriving DecidableEq, Repr

/-- The connections and the tests; the calls in the order of the requesters. -/
structure Service where
  connections : Connections
  admission : Admission
  calls : List Call
  deriving DecidableEq, Repr

inductive ServiceStep where
  | connection (l : ConnectionStep)
  /-- Handler `i` calls `exec_test_thread`. -/
  | call (i : ℕ) (wait : Bool)
  | slot (l : AdmissionStep)
  deriving DecidableEq, Repr

namespace Service

/-- The call of requester `r` has returned: the thread was not created, was detached, or has been
joined. -/
def Done (s : Service) (r : ℕ) (c : Call) : Prop :=
  s.admission.requesters[r]? = some .failed ∨
    s.admission.requesters[r]? = some .created ∧
      (c.wait = false ∨ ∃ j, c.thread = some j ∧ s.admission.threads[j]? = some .cleaned)

/-- Handler `i` is not in `exec_test_thread`. -/
def Returned (s : Service) (i : ℕ) : Prop :=
  ∀ r c, s.calls[r]? = some c → c.handler = i → s.Done r c

/-- `pthread_create` gives the call of its requester a thread. -/
def callsAfter (s : Service) : AdmissionStep → List Call
  | .create r => s.calls.modify r fun c => { c with thread := some s.admission.threads.length }
  | _ => s.calls

/-- The steps of the accept loop, of the handler threads, of the calls of `exec_test_thread` and of
the test threads. A command makes one such call at most. -/
inductive Step : Service → ServiceStep → Service → Prop
  | connection {s : Service} {l : ConnectionStep} {x : Connections} :
      Connections.Step s.connections l x → (∀ i, l = .parse i → s.Returned i) →
      Step s (.connection l) { s with connections := x }
  | call {s : Service} {i : ℕ} {a : Admission} (wait : Bool) :
      s.connections.handlers[i]? = some .parsing → (∀ c ∈ s.calls, c.handler ≠ i) →
      Admission.Step s.admission .arrive a →
      Step s (.call i wait) ⟨s.connections, a, s.calls ++ [⟨i, wait, none⟩]⟩
  | slot {s : Service} {l : AdmissionStep} {a : Admission} : l ≠ .arrive →
      Admission.Step s.admission l a → Step s (.slot l) ⟨s.connections, a, s.callsAfter l⟩

end Service

/-- The daemon with any number of clients, in any order. -/
def service : Lts Service ServiceStep where
  init s := s = ⟨⟨0, .accepting, []⟩, ⟨0, [], []⟩, []⟩
  step := Service.Step

/-! ## Each counter alone -/

/-- The part of a step that concerns connections. -/
def ServiceStep.onConnections : ServiceStep → Option ConnectionStep
  | .connection l => some l
  | _ => none

/-- The part of a step that concerns test threads. -/
def ServiceStep.onAdmission : ServiceStep → Option AdmissionStep
  | .connection _ => none
  | .call _ _ => some .arrive
  | .slot l => some l

variable {s s' : Service} {l : ServiceStep} {tr : List (Service × ServiceStep)} {r : ℕ} {c : Call}

theorem run_connections (h : service.Run tr s) :
    connections.Run (projected Service.connections ServiceStep.onConnections tr) s.connections := by
  refine h.project _ _ ?_ (fun s l s' l' hst hl => ?_) fun s l s' hst hl => ?_
  · rintro s rfl
    rfl
  · cases hst with
    | connection hx _ =>
      obtain rfl := Option.some.inj hl
      exact hx
    | call _ _ _ _ => cases hl
    | slot _ _ => cases hl
  · cases hst with
    | connection _ _ => cases hl
    | _ => rfl

theorem run_admission (h : service.Run tr s) :
    admission.Run (projected Service.admission ServiceStep.onAdmission tr) s.admission := by
  refine h.project _ _ ?_ (fun s l s' l' hst hl => ?_) fun s l s' hst hl => ?_
  · rintro s rfl
    rfl
  · cases hst with
    | connection _ _ => cases hl
    | call _ _ _ ha =>
      obtain rfl := Option.some.inj hl
      exact ha
    | slot _ ha =>
      obtain rfl := Option.some.inj hl
      exact ha
  · cases hst with
    | connection _ _ => rfl
    | call _ _ _ _ => cases hl
    | slot _ _ => cases hl

/-! ## The calls -/

namespace Admission

variable {a a' : Admission} {m : AdmissionStep}

theorem getElem?_set_cases {l : List Requester} {i : ℕ} {q p : Requester}
    (h : (l.set i q)[r]? = some p) : r = i ∧ p = q ∨ l[r]? = some p := by
  rw [List.getElem?_set] at h
  split_ifs at h with hi hlt
  · exact .inl ⟨hi.symm, (Option.some.inj h).symm⟩
  · exact .inr h

theorem created_of_step (h : Step a m a') (hr : a'.requesters[r]? = some .created) :
    a.requesters[r]? = some .created ∨ m = .create r := by
  cases h with
  | arrive =>
    rw [List.getElem?_append] at hr
    split_ifs at hr with hlt
    · exact .inl hr
    · have hmem := List.mem_of_getElem? hr
      simp at hmem
  | create hi =>
    rcases getElem?_set_cases hr with ⟨rfl, -⟩ | h1
    · exact .inr rfl
    · exact .inl h1
  | sleep _ _ _ | enter _ _ _ | wake _ | createFail _ =>
    rcases getElem?_set_cases hr with ⟨-, h1⟩ | h1
    · cases h1
    · exact .inl h1
  | cleanup _ hk =>
    cases hk with
    | one _ =>
      rcases getElem?_set_cases hr with ⟨-, h1⟩ | h1
      · cases h1
      · exact .inl h1
    | nobody _ => exact .inl hr

theorem length_threads_of_step (h : Step a m a') : a.threads.length ≤ a'.threads.length := by
  cases h <;> simp

theorem length_requesters_of_step (h : Step a m a') (hm : m ≠ .arrive) :
    a'.requesters.length = a.requesters.length := by
  cases h with
  | arrive => exact absurd rfl hm
  | cleanup _ hk => cases hk <;> simp
  | _ => simp

end Admission

theorem Connections.length_handlers_of_step {x x' : Connections} {m : ConnectionStep}
    (h : Connections.Step x m x') : x.handlers.length ≤ x'.handlers.length := by
  cases h <;> simp

/-- The calls are those of the requesters, each of another handler thread; a call whose thread was
created knows it. -/
structure Service.Linked (s : Service) : Prop where
  length_eq : s.calls.length = s.admission.requesters.length
  nodup : (s.calls.map Call.handler).Nodup
  handler_lt : ∀ c ∈ s.calls, c.handler < s.connections.handlers.length
  thread_lt : ∀ (r : ℕ) (c : Call), s.calls[r]? = some c →
    s.admission.requesters[r]? = some Requester.created →
      ∃ j, c.thread = some j ∧ j < s.admission.threads.length

theorem map_handler_callsAfter (s : Service) (m : AdmissionStep) :
    (s.callsAfter m).map Call.handler = s.calls.map Call.handler := by
  cases m with
  | create r =>
    refine List.ext_getElem? fun i => ?_
    rw [Service.callsAfter, List.getElem?_map, List.getElem?_map, List.getElem?_modify]
    cases s.calls[i]? with
    | none => rfl
    | some c => by_cases hi : r = i <;> simp [hi]
  | _ => rfl

theorem linked_step (h : Service.Step s l s') (hs : s.Linked) : s'.Linked := by
  cases h with
  | connection hx _ =>
    exact { hs with
      handler_lt := fun c hc =>
        (hs.handler_lt c hc).trans_le (Connections.length_handlers_of_step hx) }
  | @call i a wait hi hnew ha =>
    have hcreated := fun r => Admission.created_of_step (r := r) ha
    have hthreads := Admission.length_threads_of_step ha
    cases ha
    refine ⟨by simp [hs.length_eq], ?_, fun c hc => ?_, fun r c hc hr => ?_⟩
    · rw [List.map_append, List.map_singleton, List.nodup_append]
      refine ⟨hs.nodup, by simp, fun x hx y hy => ?_⟩
      obtain ⟨c, hc, rfl⟩ := List.mem_map.mp hx
      obtain rfl := List.mem_singleton.mp hy
      exact hnew c hc
    · rcases List.mem_append.mp hc with hc | hc
      · exact hs.handler_lt c hc
      · obtain rfl := List.mem_singleton.mp hc
        exact (List.getElem?_eq_some_iff.mp hi).1
    · have hr' : s.admission.requesters[r]? = some .created :=
        (hcreated r hr).resolve_right (by simp)
      have hlt : r < s.calls.length := by
        rw [hs.length_eq]
        exact (List.getElem?_eq_some_iff.mp hr').1
      rw [List.getElem?_append_left hlt] at hc
      exact hs.thread_lt r c hc hr'
  | @slot m a hm ha =>
    have hmem := map_handler_callsAfter s m
    refine ⟨?_, hmem ▸ hs.nodup, fun c hc => ?_, fun r c hc hr => ?_⟩
    · have h1 := congrArg List.length hmem
      rw [List.length_map, List.length_map] at h1
      show (s.callsAfter m).length = _
      rw [h1, hs.length_eq, Admission.length_requesters_of_step ha hm]
    · have h1 : c.handler ∈ s.calls.map Call.handler := hmem ▸ List.mem_map_of_mem hc
      obtain ⟨d, hd, h2⟩ := List.mem_map.mp h1
      exact h2 ▸ hs.handler_lt d hd
    · have hlen := Admission.length_threads_of_step ha
      by_cases hcr : m = .create r
      · -- the new thread is the last one
        subst hcr
        cases ha with
        | create hi =>
          simp only [Service.callsAfter, List.getElem?_modify, if_pos] at hc
          obtain ⟨d, -, rfl⟩ := Option.map_eq_some_iff.mp hc
          exact ⟨_, rfl, by simp⟩
      · have hr' := (Admission.created_of_step ha hr).resolve_right hcr
        have hc' : s.calls[r]? = some c := by
          cases m with
          | create i =>
            have hne : i ≠ r := fun h => hcr (h ▸ rfl)
            simpa [Service.callsAfter, List.getElem?_modify, hne] using hc
          | _ => exact hc
        obtain ⟨j, h1, h2⟩ := hs.thread_lt r c hc' hr'
        exact ⟨j, h1, h2.trans_le hlen⟩

theorem linked_of_run (h : service.Run tr s) : s.Linked := by
  refine h.invariant (fun s hs => ?_) fun _ _ _ hs hst => linked_step hst hs
  obtain rfl := hs
  exact ⟨rfl, List.nodup_nil, by simp, by simp⟩

theorem Service.Linked.length_calls_le (h : s.Linked) :
    s.calls.length ≤ s.connections.handlers.length := by
  have hsub : s.calls.map Call.handler ⊆ List.range s.connections.handlers.length := by
    intro i hi
    obtain ⟨c, hc, rfl⟩ := List.mem_map.mp hi
    exact List.mem_range.mpr (h.handler_lt c hc)
  simpa using (List.subperm_of_subset h.nodup hsub).length_le

/-! ## What is left to do -/

/-- The weights: a step of the thread lowers its weight, by enough to pay for the thread that it
creates or wakes. -/
def Acceptor.work : Acceptor → ℕ
  | .accepting | .exited => 0
  | .admitted => 15
  | .waiting => 16
  | .checking | .woken => 17

def Handler.work : Handler → ℕ
  | .reading => 8
  | .decoding => 7
  | .parsing => 6
  | .replying => 5
  | .releasing => 4
  | .draining _ => 2
  | .closed _ => 1
  | .terminated _ => 0

def Requester.work : Requester → ℕ
  | .arriving | .woken => 5
  | .waiting => 4
  | .admitted => 3
  | .created | .failed => 0

def TestThread.work : TestThread → ℕ
  | .running => 2
  | .cleaned => 0

def Connections.work (x : Connections) : ℕ := x.acceptor.work + (x.handlers.map Handler.work).sum

def Admission.work (a : Admission) : ℕ :=
  (a.requesters.map Requester.work).sum + (a.threads.map TestThread.work).sum

/-- The threads, and the handler threads that may still make a call. -/
def Service.work (s : Service) : ℕ :=
  s.connections.work + s.admission.work + 6 * (s.connections.handlers.length - s.calls.length)

/-- What a step adds to the work: a new client, and a spurious wake-up, after which the thread looks
once more. -/
def ServiceStep.cost : ServiceStep → ℕ
  | .connection .accept => 17
  | .connection .wake | .slot (.wake _) => 1
  | _ => 0

theorem Acceptor.work_of_testing {a : Acceptor} (h : a.testing = true) : a.work = 17 := by
  cases a <;> first | rfl | cases h

theorem Requester.work_of_checking {q : Requester} (h : q.checking = true) : q.work = 5 := by
  cases q <;> first | rfl | cases h

theorem Acceptor.work_signalled (a : Acceptor) : a.signalled.work ≤ a.work + 1 := by
  cases a <;> simp [signalled, work]

theorem Connections.work_of_moves {a b : Handler} {m : ℕ → ConnectionStep} (h : Moves a m b)
    (i : ℕ) : b.work + 1 ≤ a.work ∧ (ServiceStep.connection (m i)).cost = 0 := by
  cases h <;> exact ⟨by simp [Handler.work], rfl⟩

theorem Connections.work_step {x x' : Connections} {m : ConnectionStep}
    (h : Connections.Step x m x') :
    x'.work + 6 * (x'.handlers.length - x.handlers.length) +
        (if (ServiceStep.connection m).cost = 0 then 1 else 0) ≤
      x.work + (ServiceStep.connection m).cost := by
  cases h with
  | accept ha | wake ha | createFail ha =>
    simp only [work, ha, Acceptor.work, ServiceStep.cost, OfNat.ofNat_ne_zero, one_ne_zero, if_true,
      if_false]
    omega
  | wait ht _ | enter ht _ =>
    simp only [work, Acceptor.work_of_testing ht, ServiceStep.cost, if_true]
    simp only [Acceptor.work]
    omega
  | create ha =>
    simp [work, ha, Acceptor.work, Handler.work, ServiceStep.cost]
    omega
  | @move i a b m hi hm =>
    have h1 := sum_map_set_of_get Handler.work hi b
    obtain ⟨h2, h3⟩ := work_of_moves hm i
    simp only [work, h3, List.length_set, Nat.sub_self, if_pos]
    omega
  | release hi =>
    have h1 := sum_map_set_of_get Handler.work hi (.draining true)
    have h2 := Acceptor.work_signalled x.acceptor
    simp only [Handler.work] at h1
    simp only [work, ServiceStep.cost, List.length_set, Nat.sub_self, if_pos]
    omega

theorem Admission.work_signalled {r r' : List Requester} {k : Option ℕ} (h : Signalled r k r') :
    (r'.map Requester.work).sum ≤ (r.map Requester.work).sum + 1 := by
  cases h with
  | one hi =>
    have h1 := sum_map_set_of_get Requester.work hi .woken
    simp only [Requester.work] at h1
    omega
  | nobody _ => exact Nat.le_succ _

theorem Admission.work_step {a a' : Admission} {m : AdmissionStep} (h : Step a m a')
    (hm : m ≠ .arrive) :
    a'.work + (if (ServiceStep.slot m).cost = 0 then 1 else 0) ≤
      a.work + (ServiceStep.slot m).cost := by
  cases h with
  | arrive => exact absurd rfl hm
  | sleep hi hq _ =>
    have h1 := sum_map_set_of_get Requester.work hi .waiting
    rw [Requester.work_of_checking hq] at h1
    simp only [Requester.work] at h1
    simp only [work, ServiceStep.cost, if_pos]
    omega
  | enter hi hq _ =>
    have h1 := sum_map_set_of_get Requester.work hi .admitted
    rw [Requester.work_of_checking hq] at h1
    simp only [Requester.work] at h1
    simp only [work, ServiceStep.cost, if_pos]
    omega
  | wake hi =>
    have h1 := sum_map_set_of_get Requester.work hi .woken
    simp only [Requester.work] at h1
    simp only [work, ServiceStep.cost, Nat.one_ne_zero, if_false]
    omega
  | create hi =>
    have h1 := sum_map_set_of_get Requester.work hi .created
    have h2 := sum_map_append_singleton TestThread.work a.threads .running
    simp only [Requester.work, TestThread.work] at h1 h2
    simp only [work, ServiceStep.cost, if_pos]
    omega
  | createFail hi =>
    have h1 := sum_map_set_of_get Requester.work hi .failed
    simp only [Requester.work] at h1
    simp only [work, ServiceStep.cost, if_pos]
    omega
  | cleanup hj hk =>
    have h1 := sum_map_set_of_get TestThread.work hj .cleaned
    have h2 := work_signalled hk
    simp only [TestThread.work] at h1
    simp only [work, ServiceStep.cost, if_pos]
    omega

/-- **One step** takes at least one of the work that is left, or adds its cost. -/
theorem Service.work_step (hs : s'.Linked) (h : Step s l s') :
    s'.work + (if l.cost = 0 then 1 else 0) ≤ s.work + l.cost := by
  have hle := hs.length_calls_le
  cases h with
  | connection hx _ =>
    have h1 := Connections.work_step hx
    have h2 := Connections.length_handlers_of_step hx
    simp only [work] at hle ⊢
    omega
  | call wait hi _ ha =>
    cases ha
    have h1 := sum_map_append_singleton Requester.work s.admission.requesters .arriving
    simp only [List.length_append, List.length_singleton] at hle
    simp only [Requester.work] at h1
    simp only [work, Admission.work, ServiceStep.cost, if_pos, List.length_append,
      List.length_singleton]
    omega
  | @slot m a hm ha =>
    have h1 := Admission.work_step ha hm
    have h2 := congrArg List.length (map_handler_callsAfter s m)
    rw [List.length_map, List.length_map] at h2
    simp only [work, h2]
    omega

def ServiceStep.isAccept : ServiceStep → Bool
  | .connection .accept => true
  | _ => false

/-- A wake-up that no `pthread_cond_signal` has caused. -/
def ServiceStep.isSpurious : ServiceStep → Bool
  | .connection .wake | .slot (.wake _) => true
  | _ => false

theorem ServiceStep.cost_eq (l : ServiceStep) :
    l.cost = 17 * (if l.isAccept then 1 else 0) + if l.isSpurious then 1 else 0 := by
  cases l with
  | connection m => cases m <;> rfl
  | call _ _ => rfl
  | slot m => cases m <;> rfl

theorem sum_cost (tr : List (Service × ServiceStep)) :
    (tr.map fun p => p.2.cost).sum =
      17 * tr.countP (fun p => p.2.isAccept) + tr.countP (fun p => p.2.isSpurious) := by
  induction tr with
  | nil => rfl
  | cons p tr ih =>
    rw [List.map_cons, List.sum_cons, ih, List.countP_cons, List.countP_cons, p.2.cost_eq]
    omega

/-- **The daemon settles.** Between the clients that it accepts and spurious wake-ups it takes a
bounded number of steps: at most 17 for each client and one for each such wake-up. -/
theorem steps_le (h : service.Run tr s) :
    tr.countP (fun p => p.2.cost = 0) ≤
      17 * tr.countP (fun p => p.2.isAccept) + tr.countP (fun p => p.2.isSpurious) := by
  have h1 := h.countP_le_of_potential (f := Service.work) (fun p => p.2.cost = 0)
    (fun p => p.2.cost) (by rintro s rfl; rfl) fun tr s l s' hr hst => by
      simpa using Service.work_step (linked_of_run (hr.snoc hst)) hst
  rw [← sum_cost]
  omega

/-- One client that is accepted and counted in. -/
def acceptEnterTrace : List (Service × ServiceStep) :=
  [(⟨⟨0, .accepting, []⟩, ⟨0, [], []⟩, []⟩, .connection .accept),
    (⟨⟨0, .checking, []⟩, ⟨0, [], []⟩, []⟩, .connection .enter)]

theorem acceptEnter_run :
    service.Run acceptEnterTrace ⟨⟨1, .admitted, []⟩, ⟨0, [], []⟩, []⟩ := by
  have h0 : service.Run [] ⟨⟨0, .accepting, []⟩, ⟨0, [], []⟩, []⟩ := .start rfl
  have h1 : service.Run [(_, .connection .accept)] ⟨⟨0, .checking, []⟩, ⟨0, [], []⟩, []⟩ :=
    .snoc h0 (.connection (.accept rfl) (by simp))
  exact .snoc h1 (.connection (.enter rfl (by decide)) (by simp))

theorem steps_le_acceptEnter :
    [((⟨⟨0, .accepting, []⟩, ⟨0, [], []⟩, []⟩ : Service), ServiceStep.connection .accept),
      (⟨⟨0, .checking, []⟩, ⟨0, [], []⟩, []⟩, .connection .enter)].countP (fun p => p.2.cost = 0) ≤
        17 * 1 + 0 :=
  steps_le acceptEnter_run

end Dib
