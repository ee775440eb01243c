import Dib.Slots.Service

/-!
# When the daemon still serves

Slots are lost when a read or the creation of a thread fails. As long as some are left, the daemon
gets rid of all that it has accepted, and starts the test of another client.

* `Connections.active`, `count_eq_active`: `connection_count` is the number of connections that will
  be counted out, and of the reads that have failed;
* `GoesOn`, `Service.Settled`, **`settled_of_quiet`**: when the daemon can take no step by itself,
  every thread has come to its end, unless all slots of tests are lost; the accept loop waits for
  the next client, unless all slots of connections are lost or it has ended;
* **`settles`**: and it comes there from every state;
* `Serves`, **`serves_iff`**: the test of another client can be started exactly as long as at most
  100 reads and fewer than 100 creations of test threads have failed, and none of a thread for a
  connection.
-/

set_option autoImplicit false

namespace Dib

open Lts Population

/-! ## The counters -/

/-- The handler will execute its release. -/
def Handler.active : Handler → Bool
  | .reading | .decoding | .parsing | .replying | .releasing => true
  | _ => false

/-- Connections counted in that will be counted out. -/
def Connections.active (x : Connections) : ℤ :=
  (if x.acceptor.holding then 1 else 0) + x.handlers.countP Handler.active

def ConnectionStep.isReadFail : ConnectionStep → Bool
  | .readFail _ => true
  | _ => false

def ConnectionStep.isCreateFail : ConnectionStep → Bool
  | .createFail => true
  | _ => false

namespace Connections

variable {x x' : Connections} {m : ConnectionStep} {tr : List (Connections × ConnectionStep)}

theorem move_active {a b : Handler} {m : ℕ → ConnectionStep} (h : Moves a m b) (i : ℕ) :
    ((if a.active then 1 else 0) - if b.active then 1 else 0 : ℤ) =
      if (m i).isReadFail then 1 else 0 := by
  cases h <;> rfl

theorem step_active (h : Step x m x') :
    x'.connection_count - x'.active =
      x.connection_count - x.active + if m.isReadFail then 1 else 0 := by
  cases h with
  | accept ha | wake ha | createFail ha =>
    simp [active, ha, Acceptor.holding, ConnectionStep.isReadFail]
  | wait ht _ =>
    have h1 : Acceptor.waiting.holding = false := rfl
    simp [active, testing_holding ht, h1, ConnectionStep.isReadFail]
  | enter ht _ =>
    have h1 : Acceptor.admitted.holding = true := rfl
    simp [active, testing_holding ht, h1, ConnectionStep.isReadFail]
    ring
  | create ha =>
    have h1 := countP_append_singleton Handler.active x.handlers .reading
    simp only [active, ha, h1, Acceptor.holding, Handler.active, ConnectionStep.isReadFail]
    simp
    ring
  | @move i a b m hi hm =>
    have h1 := countP_set_of_get Handler.active hi b
    have h2 := move_active hm i
    simp only [active, h1]
    omega
  | release hi =>
    have h1 := countP_set_of_get Handler.active hi (.draining true)
    simp only [active, signalled_holding, h1, Handler.active, ConnectionStep.isReadFail]
    simp
    ring

/-- **A slot is held by a connection that will be counted out, or lost to a failed read.** -/
theorem count_eq_active (h : connections.Run tr x) :
    x.connection_count = x.active + tr.countP fun p => p.2.isReadFail := by
  have := h.defect_eq_count (fun p => p.2.isReadFail) (I := fun _ => True)
    (f := fun x => x.connection_count - x.active) (fun _ _ => trivial)
    (fun _ _ _ _ _ => trivial) (by rintro x rfl; rfl) fun _ _ _ _ hst => step_active hst
  omega

theorem count_le_step (h : Step x m x') (hx : x.connection_count ≤ 101) :
    x'.connection_count ≤ 101 := by
  cases h with
  | enter _ hfree =>
    show x.connection_count + 1 ≤ 101
    omega
  | release _ =>
    show x.connection_count - 1 ≤ 101
    omega
  | _ => exact hx

theorem count_le (h : connections.Run tr x) : x.connection_count ≤ 101 :=
  h.invariant (I := fun x => x.connection_count ≤ 101) (by rintro x rfl; decide)
    fun _ _ _ hx hst => count_le_step hst hx

theorem exited_iff (h : connections.Run tr x) :
    x.acceptor = .exited ↔ tr.countP (fun p => p.2.isCreateFail) ≠ 0 := by
  induction h with
  | start h0 =>
    obtain rfl := h0
    simp
  | @snoc tr x x' m _ hst ih =>
    rw [List.countP_append, List.countP_singleton]
    cases hst with
    | createFail _ => simp [ConnectionStep.isCreateFail]
    | accept ha | wake ha | create ha =>
      rw [ha] at ih
      simpa [ConnectionStep.isCreateFail] using ih
    | wait ht _ | enter ht _ =>
      have h1 : x.acceptor ≠ .exited := fun h => by simp [h, Acceptor.testing] at ht
      simpa [h1, ConnectionStep.isCreateFail] using ih
    | move _ hm => cases hm <;> simpa [ConnectionStep.isCreateFail] using ih
    | release _ =>
      have h1 : x.acceptor.signalled = .exited ↔ x.acceptor = .exited := by
        cases x.acceptor <;> simp [Acceptor.signalled]
      simpa [h1, ConnectionStep.isCreateFail] using ih

end Connections

/-! ## Quiet states -/

namespace ServiceStep

/-- The read of a handler thread fails. -/
def isReadFail : ServiceStep → Bool
  | .connection m => m.isReadFail
  | _ => false

/-- The accept loop cannot create a thread for its connection. -/
def isLoopFail : ServiceStep → Bool
  | .connection m => m.isCreateFail
  | _ => false

/-- The thread of a test is not created. -/
def isTestFail : ServiceStep → Bool
  | .slot (.createFail _) => true
  | _ => false

def fails (l : ServiceStep) : Bool := l.isReadFail || l.isLoopFail || l.isTestFail

end ServiceStep

/-- The daemon goes on by itself, and nothing fails. -/
def GoesOn (_ : Service) (l : ServiceStep) : Prop := l.cost = 0 ∧ l.fails = false

/-- What has a thread has been served, after the steps `tr`: all handler threads have terminated,
all tests are cleaned up, and all calls of `exec_test_thread` have come to an end. The accept loop
waits for the next client; but once the slots of all connections are lost, it may wait for one of
them with the connection that it has accepted, and it has ended if it could not create a thread. -/
structure Service.Settled (s : Service) (tr : List (Service × ServiceStep)) : Prop where
  handlers : ∀ x ∈ s.connections.handlers, ∃ b, x = .terminated b
  threads : ∀ x ∈ s.admission.threads, x = .cleaned
  requesters : ∀ q ∈ s.admission.requesters, q = .created ∨ q = .failed
  acceptor : s.connections.acceptor = .accepting ∨
    s.connections.acceptor = .waiting ∧ 101 ≤ tr.countP (fun p => p.2.isReadFail) ∨
    s.connections.acceptor = .exited ∧ tr.countP (fun p => p.2.isLoopFail) ≠ 0

variable {s s' : Service} {l : ServiceStep} {tr tr' : List (Service × ServiceStep)}

theorem Admission.attended_of_run {s : Admission} {tr : List (Admission × AdmissionStep)}
    (h : admission.Run tr s) : s.Attended :=
  h.invariant (I := Admission.Attended) (by rintro s rfl hw; cases hw) fun _ _ _ hs hst =>
    Admission.attended_step hst hs

namespace Service.Settled

theorem live_eq (h : s.Settled tr) : s.admission.live = 0 :=
  List.countP_eq_zero.mpr fun x hx => by simp [h.threads x hx]

theorem pending_eq (h : s.Settled tr) : s.admission.pending = 0 :=
  List.countP_eq_zero.mpr fun q hq => by rcases h.requesters q hq with rfl | rfl <;> decide

theorem accepting (h : s.Settled tr) (hreads : tr.countP (fun p => p.2.isReadFail) ≤ 100)
    (hloop : tr.countP (fun p => p.2.isLoopFail) = 0) : s.connections.acceptor = .accepting := by
  rcases h.acceptor with ha | ⟨-, hlost⟩ | ⟨-, hex⟩
  · exact ha
  · omega
  · exact absurd hloop hex

end Service.Settled

theorem Connections.active_of_terminated {x : Connections}
    (h : ∀ y ∈ x.handlers, ∃ b, y = .terminated b) :
    x.active = if x.acceptor.holding then 1 else 0 := by
  have h1 : x.handlers.countP Handler.active = 0 := List.countP_eq_zero.mpr fun y hy => by
    obtain ⟨b, rfl⟩ := h y hy
    simp [Handler.active]
  simp [active, h1]

theorem cnt_of_run (h : service.Run tr s) :
    s.admission.test_thread_cnt = s.admission.pending + s.admission.live +
      tr.countP fun p => p.2.isTestFail := by
  rw [Admission.cnt_eq (run_admission h)]
  congr 2
  refine countP_projected _ _ _ _ (fun ⟨s, l⟩ => ?_) tr
  cases l with
  | slot m => cases m <;> rfl
  | _ => rfl

theorem count_of_run (h : service.Run tr s) :
    s.connections.connection_count = s.connections.active + tr.countP fun p => p.2.isReadFail := by
  rw [Connections.count_eq_active (run_connections h)]
  congr 2
  exact countP_projected _ _ _ _ (fun ⟨s, l⟩ => by cases l <;> rfl) tr

theorem exited_of_run (h : service.Run tr s) :
    s.connections.acceptor = .exited ↔ tr.countP (fun p => p.2.isLoopFail) ≠ 0 := by
  rw [Connections.exited_iff (run_connections h)]
  rw [← countP_projected Service.connections ServiceStep.onConnections (fun p => p.2.isCreateFail)
    (fun p => p.2.isLoopFail) (fun ⟨s, l⟩ => by cases l <;> rfl) tr]

theorem terminated_of_quiet (hq : service.Quiet GoesOn s) (hret : ∀ i, s.Returned i)
    {i : ℕ} {x : Handler} (hi : s.connections.handlers[i]? = some x) : ∃ b, x = .terminated b := by
  have hmove : ∀ (m : ℕ → ConnectionStep) (y : Handler), Connections.Moves x m y →
      ¬ GoesOn s (.connection (m i)) := fun m y hm =>
    hq _ _ (.connection (.move hi hm) fun j _ => hret j)
  cases x with
  | terminated b => exact ⟨b, rfl⟩
  | reading => exact absurd ⟨rfl, rfl⟩ (hmove _ _ .readOk)
  | decoding => exact absurd ⟨rfl, rfl⟩ (hmove _ _ .decode)
  | parsing => exact absurd ⟨rfl, rfl⟩ (hmove _ _ .parse)
  | replying => exact absurd ⟨rfl, rfl⟩ (hmove _ _ .reply)
  | draining b => exact absurd ⟨rfl, rfl⟩ (hmove _ _ .close)
  | closed b => exact absurd ⟨rfl, rfl⟩ (hmove _ _ .exit)
  | releasing =>
    exact absurd ⟨rfl, rfl⟩ (hq _ _ (.connection (.release hi) fun j _ => hret j))

theorem cleaned_of_quiet (hq : service.Quiet GoesOn s) {j : ℕ} {x : TestThread}
    (hj : s.admission.threads[j]? = some x) : x = .cleaned := by
  cases x with
  | cleaned => rfl
  | running =>
    -- whoever it wakes
    have hsig : ∃ k r, Admission.Signalled s.admission.requesters k r := by
      by_cases hw : .waiting ∈ s.admission.requesters
      · obtain ⟨k, hk⟩ := List.getElem?_of_mem hw
        exact ⟨some k, _, .one hk⟩
      · exact ⟨none, _, .nobody hw⟩
    obtain ⟨k, r, hk⟩ := hsig
    exact absurd ⟨rfl, rfl⟩ (hq _ _ (.slot (by simp) (.cleanup hj hk)))

theorem requester_of_quiet (hq : service.Quiet GoesOn s) {i : ℕ} {q : Requester}
    (hi : s.admission.requesters[i]? = some q) : q = .waiting ∨ q = .created ∨ q = .failed := by
  have hlook : q.checking = true → False := fun hc => by
    by_cases hfull : TEST_THREAD_COUNT - 1 < s.admission.test_thread_cnt
    · exact absurd ⟨rfl, rfl⟩ (hq _ _ (.slot (by simp) (.sleep hi hc hfull)))
    · exact absurd ⟨rfl, rfl⟩ (hq _ _ (.slot (by simp) (.enter hi hc hfull)))
  cases q with
  | arriving => exact absurd rfl hlook
  | woken => exact absurd rfl hlook
  | admitted => exact absurd ⟨rfl, rfl⟩ (hq _ _ (.slot (by simp) (.create hi)))
  | waiting => exact .inl rfl
  | created => exact .inr (.inl rfl)
  | failed => exact .inr (.inr rfl)

theorem acceptor_of_quiet (hq : service.Quiet GoesOn s) :
    s.connections.acceptor = .accepting ∨ s.connections.acceptor = .waiting ∨
      s.connections.acceptor = .exited := by
  have hlook : s.connections.acceptor.testing = true → False := fun ht => by
    by_cases hfull : 100 < s.connections.connection_count
    · exact absurd ⟨rfl, rfl⟩ (hq _ _ (.connection (.wait ht hfull) (by simp)))
    · exact absurd ⟨rfl, rfl⟩ (hq _ _ (.connection (.enter ht hfull) (by simp)))
  cases ha : s.connections.acceptor with
  | accepting => exact .inl rfl
  | checking => exact absurd (by rw [ha]; rfl) hlook
  | waiting => exact .inr (.inl rfl)
  | woken => exact absurd (by rw [ha]; rfl) hlook
  | admitted => exact absurd ⟨rfl, rfl⟩ (hq _ _ (.connection (.create ha) (by simp)))
  | exited => exact .inr (.inr rfl)

/-- Where no test thread is left and no requester is awake, no requester waits. -/
theorem not_waiting_of_cleaned (h : service.Run tr s)
    (hthreads : ∀ x ∈ s.admission.threads, x = .cleaned)
    (hreq : ∀ q ∈ s.admission.requesters, q = .waiting ∨ q = .created ∨ q = .failed)
    (hfails : tr.countP (fun p => p.2.isTestFail) < 100) :
    .waiting ∉ s.admission.requesters := by
  intro hw
  -- no slot is taken, and no requester is awake
  have hlive : s.admission.live = 0 := List.countP_eq_zero.mpr fun x hx => by
    simp [hthreads x hx]
  have hpending : s.admission.pending = 0 := List.countP_eq_zero.mpr fun q hmem => by
    rcases hreq q hmem with rfl | rfl | rfl <;> decide
  have hwoken : s.admission.woken = 0 := List.countP_eq_zero.mpr fun q hmem => by
    rcases hreq q hmem with rfl | rfl | rfl <;> decide
  have hcnt := cnt_of_run h
  rw [hlive, hpending] at hcnt
  have hlt : s.admission.test_thread_cnt < TEST_THREAD_COUNT := by
    rw [hcnt, TEST_THREAD_COUNT]
    omega
  have hatt := Admission.attended_of_run (run_admission h) hw
  rw [hwoken] at hatt
  omega

theorem returned_of_cleaned (h : service.Run tr s)
    (hthreads : ∀ x ∈ s.admission.threads, x = .cleaned)
    (hreq : ∀ q ∈ s.admission.requesters, q = .created ∨ q = .failed) (i : ℕ) : s.Returned i := by
  intro r c hc _
  have hlinked := linked_of_run h
  have hlt : r < s.admission.requesters.length := by
    rw [← hlinked.length_eq]
    exact (List.getElem?_eq_some_iff.mp hc).1
  have hr := List.getElem?_eq_getElem hlt
  rcases hreq _ (List.getElem_mem hlt) with hq | hq <;> rw [hq] at hr
  · obtain ⟨j, h1, h2⟩ := hlinked.thread_lt r c hc hr
    have hj := List.getElem?_eq_getElem h2
    rw [hthreads _ (List.getElem_mem h2)] at hj
    exact .inr ⟨hr, .inr ⟨j, h1, hj⟩⟩
  · exact .inl hr

/-- **When the daemon can go no further by itself, every thread has come to its end**, unless the
slots of all tests are lost. -/
theorem settled_of_quiet (h : service.Run tr s) (hq : service.Quiet GoesOn s)
    (hfails : tr.countP (fun p => p.2.isTestFail) < 100) : s.Settled tr := by
  have hthreads : ∀ x ∈ s.admission.threads, x = .cleaned := fun x hx => by
    obtain ⟨j, hj⟩ := List.getElem?_of_mem hx
    exact cleaned_of_quiet hq hj
  have hawake : ∀ q ∈ s.admission.requesters, q = .waiting ∨ q = .created ∨ q = .failed :=
    fun q hmem => by
      obtain ⟨i, hi⟩ := List.getElem?_of_mem hmem
      exact requester_of_quiet hq hi
  have hwait := not_waiting_of_cleaned h hthreads hawake hfails
  have hreq : ∀ q ∈ s.admission.requesters, q = .created ∨ q = .failed := fun q hmem =>
    (hawake q hmem).resolve_left fun hw => hwait (hw ▸ hmem)
  have hhandlers : ∀ x ∈ s.connections.handlers, ∃ b, x = .terminated b := fun x hx => by
    obtain ⟨i, hi⟩ := List.getElem?_of_mem hx
    exact terminated_of_quiet hq (returned_of_cleaned h hthreads hreq) hi
  refine ⟨hhandlers, hthreads, hreq, ?_⟩
  rcases acceptor_of_quiet hq with ha | ha | ha
  · exact .inl ha
  · -- nobody holds a slot any more: what is counted is lost
    have hfull := Connections.waiting_full (run_connections h) ha
    have hcount := count_of_run h
    rw [Connections.active_of_terminated hhandlers, ha] at hcount
    simp only [Acceptor.holding] at hcount
    exact .inr (.inl ⟨ha, by simp at hcount; omega⟩)
  · exact .inr (.inr ⟨ha, (exited_of_run h).mp ha⟩)

theorem countP_append_of_goesOn (p : ServiceStep → Bool)
    (hp : ∀ l, p l = true → l.fails = true) (hC : ∀ q ∈ tr', q.2.fails = false) :
    (tr ++ tr').countP (fun q => p q.2) = tr.countP fun q => p q.2 := by
  rw [List.countP_append, Nat.add_eq_left, List.countP_eq_zero]
  intro q hq hp'
  simpa [hC q hq] using hp _ hp'

theorem work_lt_of_goesOn (h : service.Run tr s) (hC : GoesOn s l) (hst : service.step s l s') :
    s'.work < s.work := by
  have h1 := Service.work_step (linked_of_run (h.snoc hst)) hst
  rw [if_pos hC.1, hC.1] at h1
  omega

theorem exists_settled (h : service.Run tr s) (hfails : tr.countP (fun p => p.2.isTestFail) < 100) :
    ∃ tr' s', service.Path s tr' s' ∧ (∀ p ∈ tr', GoesOn p.1 p.2) ∧ s'.Settled tr := by
  obtain ⟨tr', s', hp, hC, hq⟩ := h.exists_quiet fun _ _ _ _ => work_lt_of_goesOn
  have hC' : ∀ q ∈ tr', q.2.fails = false := fun q hmem => (hC q hmem).2
  have hs' : s'.Settled (tr ++ tr') := by
    refine settled_of_quiet (h.append hp) hq ?_
    rwa [countP_append_of_goesOn ServiceStep.isTestFail
      (fun l hl => by simp [ServiceStep.fails, hl]) hC']
  have hacceptor := hs'.acceptor
  rw [countP_append_of_goesOn ServiceStep.isReadFail
      (fun l hl => by simp [ServiceStep.fails, hl]) hC',
    countP_append_of_goesOn ServiceStep.isLoopFail
      (fun l hl => by simp [ServiceStep.fails, hl]) hC'] at hacceptor
  exact ⟨tr', s', hp, hC, hs'.handlers, hs'.threads, hs'.requesters, hacceptor⟩

/-- **The daemon settles.** In every state that it reaches before the slots of all tests are lost,
it can go on by itself until every thread has come to its end, and cannot stop before. -/
theorem settles (h : service.Run tr s) (hfails : tr.countP (fun p => p.2.isTestFail) < 100) :
    (service.Quiet GoesOn s → s.Settled tr) ∧
      ∃ tr' s', service.Path s tr' s' ∧ (∀ p ∈ tr', GoesOn p.1 p.2) ∧ s'.Settled tr :=
  ⟨fun hq => settled_of_quiet h hq hfails, exists_settled h hfails⟩

/-- A client that has been counted in is served, and the accept loop waits for the next. -/
theorem settles_acceptEnter :
    ∃ tr' s', service.Path ⟨⟨1, .admitted, []⟩, ⟨0, [], []⟩, []⟩ tr' s' ∧
      (∀ p ∈ tr', GoesOn p.1 p.2) ∧ s'.Settled acceptEnterTrace ∧
      s'.connections.acceptor = .accepting := by
  obtain ⟨-, tr', s', hp, hC, hs'⟩ := settles acceptEnter_run (by decide)
  exact ⟨tr', s', hp, hC, hs', hs'.accepting (by decide) (by decide)⟩

/-! ## Another client -/

/-- From here the test of a client that comes later can be started, without a further failure. -/
def Serves (s : Service) : Prop :=
  ∃ tr' s', service.Path s tr' s' ∧ (∀ p ∈ tr', p.2.fails = false) ∧
    ∃ (r : ℕ) (c : Call), s'.calls[r]? = some c ∧ s.connections.handlers.length ≤ c.handler ∧
      s'.admission.requesters[r]? = some Requester.created

theorem Path.serves {s₁ : Service} {tr₁ : List (Service × ServiceStep)}
    (hp : service.Path s tr₁ s₁) (hC : ∀ p ∈ tr₁, p.2.fails = false)
    (hlen : s.connections.handlers.length ≤ s₁.connections.handlers.length) (h : Serves s₁) :
    Serves s := by
  obtain ⟨tr₂, s₂, hp₂, hC₂, r, c, hc, hle, hr⟩ := h
  refine ⟨tr₁ ++ tr₂, s₂, hp.append hp₂, fun p hmem => ?_, r, c, hc, hlen.trans hle, hr⟩
  exact (List.mem_append.mp hmem).elim (hC p) (hC₂ p)

theorem length_handlers_of_path {tr₁ : List (Service × ServiceStep)} {s₁ : Service}
    (hp : service.Path s tr₁ s₁) :
    s.connections.handlers.length ≤ s₁.connections.handlers.length := by
  refine hp.invariant_of_meets (C := fun _ _ => True)
    (I := fun x => s.connections.handlers.length ≤ x.connections.handlers.length) le_rfl
    (fun x l x' hx _ hst => ?_) fun _ _ => trivial
  cases hst with
  | connection hm _ => exact hx.trans (Connections.length_handlers_of_step hm)
  | _ => exact hx

theorem serves_of_accepting (hlinked : s.Linked) (ha : s.connections.acceptor = .accepting)
    (hcount : s.connections.connection_count ≤ 100) (hcnt : s.admission.test_thread_cnt < 100) :
    Serves s := by
  obtain ⟨⟨n, a, hs⟩, ⟨cnt, rs, ts⟩, calls⟩ := s
  obtain rfl : a = .accepting := ha
  have hi : (hs ++ [Handler.reading])[hs.length]? = some .reading := by simp
  have hi₁ : (hs ++ [Handler.decoding])[hs.length]? = some .decoding := by simp
  have hi₂ : (hs ++ [Handler.parsing])[hs.length]? = some .parsing := by simp
  have hr : (rs ++ [Requester.arriving])[rs.length]? = some .arriving := by simp
  have hr₁ : (rs ++ [Requester.admitted])[rs.length]? = some .admitted := by simp
  have hset : ∀ x y : Handler, (hs ++ [x]).set hs.length y = hs ++ [y] := by simp
  have hset' : ∀ x y : Requester, (rs ++ [x]).set rs.length y = rs ++ [y] := by simp
  have hlen : calls.length = rs.length := hlinked.length_eq
  have hread : Connections.Step ⟨n + 1, .accepting, hs ++ [.reading]⟩ (.readOk hs.length)
      ⟨n + 1, .accepting, hs ++ [.decoding]⟩ := by
    have h1 := Connections.Step.move (s := ⟨n + 1, .accepting, hs ++ [.reading]⟩) hi .readOk
    rwa [hset] at h1
  have hdecode : Connections.Step ⟨n + 1, .accepting, hs ++ [.decoding]⟩ (.decode hs.length)
      ⟨n + 1, .accepting, hs ++ [.parsing]⟩ := by
    have h1 := Connections.Step.move (s := ⟨n + 1, .accepting, hs ++ [.decoding]⟩) hi₁ .decode
    rwa [hset] at h1
  have henter : Admission.Step ⟨cnt, rs ++ [.arriving], ts⟩ (.enter rs.length)
      ⟨cnt + 1, rs ++ [.admitted], ts⟩ := by
    have h1 := Admission.Step.enter (s := ⟨cnt, rs ++ [.arriving], ts⟩) hr rfl
      (by simp only [TEST_THREAD_COUNT]; simp at hcnt; omega)
    rwa [hset'] at h1
  have hcreate : Admission.Step ⟨cnt + 1, rs ++ [.admitted], ts⟩ (.create rs.length)
      ⟨cnt + 1, rs ++ [.created], ts ++ [.running]⟩ := by
    have h1 := Admission.Step.create (s := ⟨cnt + 1, rs ++ [.admitted], ts⟩) hr₁
    rwa [hset'] at h1
  have hnew : ∀ c ∈ calls, c.handler ≠ hs.length := fun c hc =>
    (hlinked.handler_lt c hc).ne
  refine ⟨_, _, .cons (.connection (.accept rfl) (by simp)) <|
    .cons (.connection (.enter rfl (by simp; simp at hcount; omega)) (by simp)) <|
    .cons (.connection (.create rfl) (by simp)) <|
    .cons (.connection hread (by simp)) <| .cons (.connection hdecode (by simp)) <|
    .cons (.call true hi₂ hnew .arrive) <| .cons (.slot (by simp) henter) <|
    .cons (.slot (by simp) hcreate) .nil, ?_, calls.length, ⟨hs.length, true, some ts.length⟩,
    ?_, le_rfl, ?_⟩
  · intro p hp
    simp only [List.mem_cons, List.not_mem_nil, or_false] at hp
    rcases hp with rfl | rfl | rfl | rfl | rfl | rfl | rfl | rfl <;> rfl
  · simp [Service.callsAfter, hlen]
  · simp [hlen]

/-! ## Lost slots -/

/-- A requester that has not got its slot. -/
def Requester.queuing : Requester → Bool
  | .arriving | .waiting | .woken => true
  | _ => false

/-- What is reached from `s` when the slots of all tests are lost: later calls do not get one. -/
structure TestsLost (s x : Service) : Prop where
  calls : s.calls.map Call.handler <+: x.calls.map Call.handler
  lost : 100 ≤ x.admission.test_thread_cnt - (x.admission.pending + x.admission.live)
  queuing : ∀ r q, s.admission.requesters.length ≤ r → x.admission.requesters[r]? = some q →
    q.queuing = true

theorem queuing_of_step {a a' : Admission} {m : AdmissionStep} {n : ℕ}
    (h : Admission.Step a m a') (hlost : 100 ≤ a.test_thread_cnt - (a.pending + a.live))
    (hq : ∀ r q, n ≤ r → a.requesters[r]? = some q → q.queuing = true) {r : ℕ} {q : Requester}
    (hn : n ≤ r) (hr : a'.requesters[r]? = some q) : q.queuing = true := by
  cases h with
  | arrive =>
    rw [List.getElem?_append] at hr
    split_ifs at hr
    · exact hq r q hn hr
    · have hmem := List.mem_of_getElem? hr
      obtain rfl : q = .arriving := by simpa using hmem
      rfl
  | enter _ _ hfree =>
    rw [TEST_THREAD_COUNT] at hfree
    omega
  | create hi | createFail hi =>
    rcases Admission.getElem?_set_cases hr with ⟨rfl, -⟩ | h1
    · exact absurd (hq _ _ hn hi) (by decide)
    · exact hq r q hn h1
  | sleep _ _ _ | wake _ =>
    rcases Admission.getElem?_set_cases hr with ⟨-, rfl⟩ | h1
    · rfl
    · exact hq r q hn h1
  | cleanup _ hk =>
    cases hk with
    | one _ =>
      rcases Admission.getElem?_set_cases hr with ⟨-, rfl⟩ | h1
      · rfl
      · exact hq r q hn h1
    | nobody _ => exact hq r q hn hr

theorem testsLost_step {x x' : Service} (h : TestsLost s x) (hst : service.step x l x') :
    TestsLost s x' := by
  have hlost : ∀ {m : AdmissionStep} {a : Admission}, Admission.Step x.admission m a →
      100 ≤ a.test_thread_cnt - (a.pending + a.live) := fun ha => by
    have h1 := Admission.step_defect ha
    have h2 := h.lost
    split_ifs at h1 <;> omega
  cases hst with
  | connection _ _ => exact ⟨h.calls, h.lost, h.queuing⟩
  | call wait _ _ ha =>
    refine ⟨?_, hlost ha, fun r q => queuing_of_step ha h.lost h.queuing⟩
    rw [List.map_append]
    exact h.calls.trans (List.prefix_append _ _)
  | @slot m a _ ha =>
    refine ⟨?_, hlost ha, fun r q => queuing_of_step ha h.lost h.queuing⟩
    rw [map_handler_callsAfter]
    exact h.calls

theorem not_serves_of_testsLost (hlinked : s.Linked) (h : TestsLost s s) : ¬ Serves s := by
  rintro ⟨tr', x, hp, -, r, c, hc, hle, hr⟩
  have hx : TestsLost s x := hp.invariant_of_meets (C := fun _ _ => True) h
    (fun _ _ _ hx _ hst => testsLost_step hx hst) fun _ _ => trivial
  by_cases hlt : r < s.calls.length
  · -- the call of a handler that is there now
    have h1 : (x.calls.map Call.handler)[r]? = (s.calls.map Call.handler)[r]? := by
      obtain ⟨later, hlater⟩ := hx.calls
      rw [← hlater, List.getElem?_append_left (by simpa using hlt)]
    rw [List.getElem?_map, List.getElem?_map, hc, List.getElem?_eq_getElem hlt] at h1
    have h2 := hlinked.handler_lt _ (List.getElem_mem hlt)
    simp only [Option.map_some, Option.some.injEq] at h1
    omega
  · rw [hlinked.length_eq] at hlt
    exact absurd (hx.queuing r _ (Nat.le_of_not_lt hlt) hr) (by decide)

/-- What is reached from `s` when the slots of all connections are lost, or the accept loop has
ended: no handler thread is created. -/
structure LoopLost (s x : Service) : Prop where
  linked : x.Linked
  length_eq : x.connections.handlers.length = s.connections.handlers.length
  count_le : x.connections.connection_count ≤ 101
  lost : x.connections.acceptor = .exited ∨
    101 ≤ x.connections.connection_count - x.connections.active

theorem Connections.active_nonneg (x : Connections) : 0 ≤ x.active := by
  rw [active]
  split_ifs <;> omega

theorem loopLost_step {x x' : Service} (h : LoopLost s x) (hst : service.step x l x') :
    LoopLost s x' := by
  have hlinked := linked_step hst h.linked
  cases hst with
  | @connection m y hy _ =>
    have h1 := Connections.step_active hy
    have hcount := Connections.count_le_step hy h.count_le
    have hlen := h.length_eq
    have hact := x.connections.active_nonneg
    have hkeep : 101 ≤ x.connections.connection_count - x.connections.active →
        101 ≤ y.connection_count - y.active := fun h2 => by
      split_ifs at h1 <;> omega
    refine ⟨hlinked, ?_, hcount, ?_⟩
    · cases hy with
      | create ha =>
        rcases h.lost with hex | h2
        · simp [ha] at hex
        · -- the connection that was counted in would be one too many
          have h3 := h.count_le
          simp only [Connections.active, ha, Acceptor.holding] at h2
          simp at h2
          omega
      | move _ _ | release _ => simpa using hlen
      | _ => exact hlen
    · rcases h.lost with hex | h2
      · left
        cases hy with
        | wait ht _ | enter ht _ => simp [hex, Acceptor.testing] at ht
        | accept ha | wake ha | create ha | createFail ha => simp [hex] at ha
        | move _ _ => exact hex
        | release _ => simp [hex, Acceptor.signalled]
      · exact .inr (hkeep h2)
  | _ => exact ⟨hlinked, h.length_eq, h.count_le, h.lost⟩

theorem not_serves_of_loopLost (h : LoopLost s s) : ¬ Serves s := by
  rintro ⟨tr', x, hp, -, r, c, hc, hle, -⟩
  have hx : LoopLost s x := hp.invariant_of_meets (C := fun _ _ => True) h
    (fun _ _ _ hx _ hst => loopLost_step hx hst) fun _ _ => trivial
  have h1 := hx.linked.handler_lt c (List.mem_of_getElem? hc)
  rw [hx.length_eq] at h1
  omega

/-- **Availability.** In every state that is reached, whatever clients, tests and threads have done,
the test of another client can still be started if and only if at most 100 reads have failed, fewer
than 100 tests did not get their thread, and every connection has. -/
theorem serves_iff (h : service.Run tr s) :
    Serves s ↔ tr.countP (fun p => p.2.isReadFail) ≤ 100 ∧
      tr.countP (fun p => p.2.isTestFail) < 100 ∧ tr.countP (fun p => p.2.isLoopFail) = 0 := by
  have hlinked := linked_of_run h
  have hcnt := cnt_of_run h
  have hcount := count_of_run h
  constructor
  · intro hserves
    refine ⟨?_, ?_, ?_⟩ <;> by_contra hnot
    · refine not_serves_of_loopLost ⟨hlinked, rfl, Connections.count_le (run_connections h), ?_⟩
        hserves
      exact .inr (by omega)
    · refine not_serves_of_testsLost hlinked ⟨List.prefix_refl _, by omega, fun r q hn hr => ?_⟩
        hserves
      rw [List.getElem?_eq_none hn] at hr
      cases hr
    · refine not_serves_of_loopLost ⟨hlinked, rfl, Connections.count_le (run_connections h), ?_⟩
        hserves
      exact .inl ((exited_of_run h).mpr hnot)
  · rintro ⟨hreads, htests, hloop⟩
    obtain ⟨tr', s', hp, hC, hs'⟩ := exists_settled h htests
    have hrun := h.append hp
    have hC' : ∀ p ∈ tr', p.2.fails = false := fun p hmem => (hC p hmem).2
    have hcnt' := cnt_of_run hrun
    have hcount' := count_of_run hrun
    have hacceptor := hs'.accepting hreads hloop
    -- what is counted is what was lost
    rw [countP_append_of_goesOn ServiceStep.isTestFail
      (fun l hl => by simp [ServiceStep.fails, hl]) hC', hs'.live_eq, hs'.pending_eq] at hcnt'
    rw [countP_append_of_goesOn ServiceStep.isReadFail
      (fun l hl => by simp [ServiceStep.fails, hl]) hC',
      Connections.active_of_terminated hs'.handlers, hacceptor] at hcount'
    simp [Acceptor.holding] at hcount'
    exact Path.serves hp hC' (length_handlers_of_path hp)
      (serves_of_accepting (linked_of_run hrun) hacceptor (by omega) (by omega))

/-- Two clients: the read of the first fails, and so does the thread of the test of the second. -/
def lostSlotsTrace : List (Service × ServiceStep) :=
  [(⟨⟨0, .accepting, []⟩, ⟨0, [], []⟩, []⟩, .connection .accept),
    (⟨⟨0, .checking, []⟩, ⟨0, [], []⟩, []⟩, .connection .enter),
    (⟨⟨1, .admitted, []⟩, ⟨0, [], []⟩, []⟩, .connection .create),
    (⟨⟨1, .accepting, [.reading]⟩, ⟨0, [], []⟩, []⟩, .connection (.readFail 0)),
    (⟨⟨1, .accepting, [.draining false]⟩, ⟨0, [], []⟩, []⟩, .connection .accept),
    (⟨⟨1, .checking, [.draining false]⟩, ⟨0, [], []⟩, []⟩, .connection .enter),
    (⟨⟨2, .admitted, [.draining false]⟩, ⟨0, [], []⟩, []⟩, .connection .create),
    (⟨⟨2, .accepting, [.draining false, .reading]⟩, ⟨0, [], []⟩, []⟩, .connection (.readOk 1)),
    (⟨⟨2, .accepting, [.draining false, .decoding]⟩, ⟨0, [], []⟩, []⟩, .connection (.decode 1)),
    (⟨⟨2, .accepting, [.draining false, .parsing]⟩, ⟨0, [], []⟩, []⟩, .call 1 true),
    (⟨⟨2, .accepting, [.draining false, .parsing]⟩, ⟨0, [.arriving], []⟩, [⟨1, true, none⟩]⟩,
      .slot (.enter 0)),
    (⟨⟨2, .accepting, [.draining false, .parsing]⟩, ⟨1, [.admitted], []⟩, [⟨1, true, none⟩]⟩,
      .slot (.createFail 0))]

theorem lostSlots_run : service.Run lostSlotsTrace
    ⟨⟨2, .accepting, [.draining false, .parsing]⟩, ⟨1, [.failed], []⟩, [⟨1, true, none⟩]⟩ := by
  refine @Run.append _ _ _ [] _ _ _ (.start rfl) ?_
  exact .cons (.connection (.accept rfl) (by simp)) <|
    .cons (.connection (.enter rfl (by decide)) (by simp)) <|
    .cons (.connection (.create rfl) (by simp)) <|
    .cons (.connection (.move (i := 0) rfl .readFail) (by simp)) <|
    .cons (.connection (.accept rfl) (by simp)) <|
    .cons (.connection (.enter rfl (by decide)) (by simp)) <|
    .cons (.connection (.create rfl) (by simp)) <|
    .cons (.connection (.move (i := 1) rfl .readOk) (by simp)) <|
    .cons (.connection (.move (i := 1) rfl .decode) (by simp)) <|
    .cons (.call true rfl (by simp) .arrive) <|
    .cons (.slot (by simp) (.enter (i := 0) rfl rfl (by decide))) <|
    .cons (.slot (by simp) (.createFail (i := 0) rfl)) .nil

/-- One slot of each kind is lost, and the next client is served. -/
theorem serves_iff_lostSlots : Serves
    ⟨⟨2, .accepting, [.draining false, .parsing]⟩, ⟨1, [.failed], []⟩, [⟨1, true, none⟩]⟩ :=
  (serves_iff lostSlots_run).mpr (by decide)

end Dib
