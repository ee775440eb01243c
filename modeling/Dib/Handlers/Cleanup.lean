import Dib.Handlers.Model

/-!
# The cleanup stack of the handlers

* `finished`: the test thread at its end;
* `CleanupDisciplined`: every `pthread_cleanup_pop` finds the routine that its text is paired with,
  and at the end each routine that should be executed has been, once;
* `Registers`, `earlyCalls`: the handler gets a status node; the calls it makes when it gets none;
* `Inert`, `keeps_executions`, `keeps_suiteBuckets`, …: what the parts of a body leave alone; none
  touches the stack, but for the registration;
* **`cleanupDisciplined_iff`**: the discipline is broken by the runs without a status node that are
  not cancelled: they jump over the second push, and then pop twice.
-/

set_option autoImplicit false

namespace Dib

open Thread

/-! ## Statement -/

/-- The test thread at its end. -/
def finished (T : TestBox) (kind : HandlerKind) (cancelAt : Option ℕ) (args : ThreadArgs) :
    Worker :=
  match run (handler T kind) cancelAt (.start args) with
  | .returned _ w => w
  | .cancelled w => w.unwind T

/-- What concerns the cleanup stack. -/
def Event.isCleanup : Event → Bool
  | .pop _ _ | .cleaned _ => true
  | _ => false

def Worker.cleanupEvents (w : Worker) : List Event := w.events.filter Event.isCleanup

/-- Every pop finds the routine it is paired with; `handler_thread_cleanup` has been executed once,
and `status_group_cleanup` once if a status node was registered. -/
structure CleanupDisciplined (w : Worker) : Prop where
  paired : ∀ paired found, .pop paired found ∈ w.events → found = some paired
  handler : w.events.count (.cleaned .handler_thread_cleanup) = 1
  status : w.events.count (.cleaned .status_group_cleanup) = if w.status_group.isSome then 1 else 0

/-- The lookup of the handler succeeds; an executable is not looked up. -/
def TestBox.found (T : TestBox) (kind : HandlerKind) (name : List Char) : Bool :=
  match kind with
  | .case => T.tb_case_lookupnode name
  | .suite => T.tb_suite_lookupnode name
  | .group => (T.tb_group_lookupnode name).isSome
  | .executable => true

/-- The status node that the handler registers, if it gets that far. -/
def TestBox.node (T : TestBox) (kind : HandlerKind) (args : ThreadArgs) : Option StatusGroup :=
  if T.found kind args.node_name then
    match kind with
    | .group => (T.tb_group_lookupnode args.node_name).bind fun group =>
      T.tb_status_add_group_node group.name group.size args.loops
    | _ => T.tb_status_add_group_node args.node_name 1 args.loops
  else none

/-- The handler gets a status node, unless it is cancelled before. -/
def Registers (T : TestBox) (kind : HandlerKind) (args : ThreadArgs) : Prop :=
  (T.node kind args).isSome

instance (T : TestBox) (kind : HandlerKind) (args : ThreadArgs) :
    Decidable (Registers T kind args) := inferInstanceAs (Decidable (_ = true))

/-- `tb_socket_client_add` is called for a response only. -/
def ThreadArgs.clientCalls (args : ThreadArgs) : ℕ := if args.wait_for_response then 1 else 0

/-- An executable is not looked up. -/
def HandlerKind.lookupCalls : HandlerKind → ℕ
  | .executable => 0
  | _ => 1

/-- The calls of a handler that gets no status node: up to the one that fails, the log of the error,
and two more for a response. -/
def earlyCalls (T : TestBox) (kind : HandlerKind) (args : ThreadArgs) : ℕ :=
  args.clientCalls + kind.lookupCalls + (if T.found kind args.node_name then 1 else 0) + 1 +
    2 * args.clientCalls

/-! ## What the bodies keep -/

/-- What a body does while it has its status node. -/
def Event.inBody : Event → Bool
  | .run _ _ | .sleep _ | .suiteStart _ | .suiteEnd => true
  | _ => false

/-- `f` looks at nothing that a body changes while it has its status node. -/
structure Inert {γ : Type} (f : Worker → γ) : Prop where
  emit : ∀ (e : Event) (w : Worker), e.inBody = true → f (w.emit e) = f w
  onStatus : ∀ (g : StatusGroup → StatusGroup) (w : Worker), f (w.onStatus g) = f w
  deadline : ∀ (d : ℤ) (w : Worker),
    f { w with data := { w.data with execution_time := d } } = f w

variable {T : TestBox} {w : Worker} {args : ThreadArgs} {kind : HandlerKind}

section Inert

variable {γ : Type} {f : Worker → γ}

theorem keeps_emit (hf : Inert f) {e : Event} (he : e.inBody = true) : Keeps f (emit e) :=
  keeps_modify fun w => hf.emit e w he

theorem keeps_onStatus (hf : Inert f) (g : StatusGroup → StatusGroup) : Keeps f (onStatus g) :=
  keeps_modify fun w => hf.onStatus g w

theorem keeps_abort (f : Worker → γ) (result : ℤ) : Keeps f (abort result) :=
  keeps_bind keeps_point fun _ => keeps_pure _

theorem keeps_runTest (hf : Inert f) (cmd : Option (List Char)) (i : ℕ) :
    Keeps f (runTest T cmd i) :=
  keeps_bind keeps_point fun _ => keeps_bind (keeps_onStatus hf _) fun _ =>
    keeps_bind (keeps_emit hf rfl) fun _ => keeps_pure _

theorem keeps_startRun (hf : Inert f) : Keeps f (startRun T) :=
  keeps_bind keeps_get fun _ => keeps_bind (keeps_onStatus hf _) fun _ =>
    keeps_bind keeps_point fun _ => keeps_onStatus hf _

theorem keeps_beginLoop (hf : Inert f) : Keeps f (beginLoop T) := by
  refine keeps_bind keeps_get fun w => ?_
  have hdeadline : Keeps f (if w.data.execution_time ≠ 0 then
      modify fun w => { w with data := { w.data with
        execution_time := T.narrow (w.data.execution_time + T.clock_gettime 0) } }
      else pure ()) := keeps_ite _ (keeps_modify fun w => hf.deadline _ w) (keeps_pure _)
  refine keeps_ite _ ?_ hdeadline
  exact keeps_bind keeps_point fun _ => keeps_bind (keeps_emit hf rfl) fun _ => hdeadline

theorem keeps_sleepBetween (hf : Inert f) : Keeps f sleepBetween :=
  keeps_bind keeps_get fun _ => keeps_bind keeps_point fun _ => keeps_emit hf rfl

theorem keeps_exitRun (hf : Inert f) (action : TestAction) (result : ℤ) :
    Keeps f (exitRun T action result) :=
  keeps_bind (keeps_onStatus hf _) fun _ => keeps_bind keeps_point fun _ =>
    keeps_bind (keeps_onStatus hf _) fun _ => keeps_pure _

theorem keeps_executions (hf : Inert f) {cmd : Option (List Char)} {pace : Thread Worker Unit}
    (hp : Keeps f pace) (n i : ℕ) (result : ℤ) : Keeps f (executions T cmd pace n i result) := by
  induction n generalizing i result with
  | zero =>
    refine keeps_bind keeps_get fun w => keeps_ite _ ?_ (keeps_exitRun hf _ _)
    exact keeps_bind keeps_point fun _ => keeps_bind (keeps_emit hf rfl) fun _ =>
      keeps_exitRun hf _ _
  | succ n ih =>
    refine keeps_bind (keeps_runTest hf cmd i) fun _ => keeps_bind keeps_get fun _ => ?_
    refine keeps_ite _ (keeps_exitRun hf _ _) (keeps_ite _ (keeps_exitRun hf _ _) ?_)
    exact keeps_bind hp fun _ => ih _ _

theorem keeps_suiteBuckets (f : Worker → γ) (suites : List (List Char)) (i : ℕ) (result : ℤ) :
    Keeps f (suiteBuckets T suites i result) := by
  induction suites generalizing i result with
  | nil => exact keeps_bind keeps_point fun _ => keeps_pure _
  | cons s suites ih =>
    refine keeps_bind keeps_point fun _ => keeps_bind keeps_point fun _ => keeps_ite _ ?_ ?_
    · exact keeps_bind (keeps_abort f _) fun _ => keeps_pure _
    · refine keeps_bind keeps_point fun _ => keeps_ite _ ?_ (ih _ _)
      exact keeps_bind (keeps_abort f _) fun _ => keeps_pure _

theorem keeps_runCounted_rest (hf : Inert f) {cmd : Option (List Char)}
    {pace : Thread Worker Unit} (hp : Keeps f pace) (n : ℕ) : Keeps f (do
      call
      if ¬ T.tb_status_add_suite_bucket 0 then abort (-1)
      else do
        call
        if ¬ T.tb_status_add_testcase_bucket then abort (-1)
        else do
          startRun T
          beginLoop T
          executions T cmd pace n 0 0) := by
  refine keeps_bind keeps_point fun _ => keeps_ite _ (keeps_abort f _) ?_
  refine keeps_bind keeps_point fun _ => keeps_ite _ (keeps_abort f _) ?_
  exact keeps_bind (keeps_startRun hf) fun _ => keeps_bind (keeps_beginLoop hf) fun _ =>
    keeps_executions hf hp _ _ _

theorem keeps_suite_rest (hf : Inert f) : Keeps f (do
      call
      if ¬ T.tb_status_add_suite_bucket 0 then abort (-1)
      else do
        call
        if T.tb_status_add_n_testcase_buckets 0 ≠ 0 then
          abort (T.tb_status_add_n_testcase_buckets 0)
        else do
          startRun T
          let result ← runTest T none 0
          call
          onStatus fun g => { g with
            endTimeStamp := T.getTimeStamp 1
            action := if g.action ≠ .stopped then .done else g.action }
          pure result) := by
  refine keeps_bind keeps_point fun _ => keeps_ite _ (keeps_abort f _) ?_
  refine keeps_bind keeps_point fun _ => keeps_ite _ (keeps_abort f _) ?_
  refine keeps_bind (keeps_startRun hf) fun _ => keeps_bind (keeps_runTest hf none 0) fun _ => ?_
  exact keeps_bind keeps_point fun _ => keeps_bind (keeps_onStatus hf _) fun _ => keeps_pure _

theorem keeps_group_rest (hf : Inert f) (suites : List (List Char)) : Keeps f (do
      match ← suiteBuckets T suites 0 (-1) with
      | .error result => pure result
      | .ok () => runTest T none 0) := by
  refine keeps_bind (keeps_suiteBuckets f suites 0 (-1)) fun r => ?_
  cases r with
  | error result => exact keeps_pure result
  | ok _ => exact keeps_runTest hf none 0

end Inert

/-- The stack, the presence of a node, the events that concern the stack, and whether the response
is waited for. -/
def Worker.frame (w : Worker) : List Cleanup × Bool × List Event × Bool :=
  (w.cleanups, w.status_group.isSome, w.cleanupEvents, w.data.wait_for_response)

theorem frame_emit {e : Event} (he : e.isCleanup = false) (w : Worker) :
    (w.emit e).frame = w.frame := by
  simp [Worker.frame, Worker.emit, Worker.cleanupEvents, he]

theorem inert_frame : Inert Worker.frame where
  emit e w he := frame_emit (by cases e <;> simp_all [Event.inBody, Event.isCleanup]) w
  onStatus g w := by simp [Worker.frame, Worker.onStatus, Worker.cleanupEvents]
  deadline d w := rfl

theorem keeps_finalizeThread (result : ℤ) : Keeps Worker.frame (finalizeThread result) := by
  have hemit : ∀ e : Event, e.isCleanup = false → Keeps Worker.frame (emit e) :=
    fun e he => keeps_modify (frame_emit he)
  refine keeps_bind keeps_get fun w => keeps_ite _ ?_ ?_
  · refine keeps_bind keeps_point fun _ => keeps_bind keeps_point fun _ => ?_
    exact keeps_bind (hemit _ rfl) fun _ => keeps_bind (hemit _ rfl) fun _ => keeps_pure _
  · exact keeps_bind (hemit _ rfl) fun _ => keeps_pure _

/-! ## The bodies -/

/-- The frame inside a handler, before and after a node is registered. -/
def framed (waiting registered : Bool) : List Cleanup × Bool × List Event × Bool :=
  (if registered then [.status_group_cleanup, .handler_thread_cleanup] else
    [.handler_thread_cleanup], registered, [], waiting)

/-- The state is inside a handler. -/
def Worker.Framed (waiting : Bool) (w : Worker) : Prop :=
  ∃ registered, w.frame = framed waiting registered

variable {waiting : Bool} {k : ℕ}

theorem wpAt_abort (result : ℤ) {C : ℕ → Worker → Prop} {Q : ℕ → ℤ → Worker → Prop} :
    wpAt (abort result) C Q k w ↔ C k w ∧ Q (k + 1) result w := by
  simp [abort]

theorem wpAt_framed {α : Type} {t : Thread Worker α} (ht : Keeps Worker.frame t) {registered : Bool}
    (hw : w.frame = framed waiting registered) :
    wpAt t (fun _ p => p.Framed waiting) (fun _ _ w' => w'.frame = framed waiting registered) k w :=
  wpAt_mono (ht.wpAt hw) (fun _ _ hp => ⟨registered, hp⟩) fun _ _ _ h => h

theorem wpAt_withStatusGroup {name : List Char} {size : ℤ} {rest : Thread Worker ℤ}
    (hrest : Keeps Worker.frame rest) (hw : w.frame = framed waiting false) :
    wpAt (withStatusGroup T name size rest) (fun _ p => p.Framed waiting)
      (fun n _ w' =>
        w'.frame = framed waiting (T.tb_status_add_group_node name size w.data.loops).isSome ∧
        (T.tb_status_add_group_node name size w.data.loops = none → n = k + 1 + 1)) k w := by
  simp only [withStatusGroup, wpAt_bind, wpAt_point, wpAt_get]
  refine ⟨⟨false, hw⟩, ?_⟩
  cases T.tb_status_add_group_node name size w.data.loops with
  | none =>
    rw [wpAt_abort]
    exact ⟨⟨false, hw⟩, hw, fun _ => rfl⟩
  | some g =>
    simp only [wpAt_bind, wpAt_modify]
    have hreg : (w.register g).frame = framed waiting true := by
      simp only [Worker.frame, framed, Prod.mk.injEq, Bool.false_eq_true, if_false] at hw
      simp [Worker.frame, framed, Worker.register, hw.1, hw.2.2.2, ← hw.2.2.1,
        Worker.cleanupEvents]
    refine wpAt_mono (wpAt_framed hrest hreg) (fun _ _ h => h) fun _ _ _ h => ⟨h, ?_⟩
    intro hnone
    cases hnone

/-- The thread when its body starts. -/
def Worker.begun (args : ThreadArgs) : Worker :=
  ⟨args, none, [.handler_thread_cleanup],
    if args.wait_for_response then [.clientAdd args.socket] else []⟩

@[simp] theorem begun_data (args : ThreadArgs) : (Worker.begun args).data = args := rfl

theorem frame_begun (args : ThreadArgs) :
    (Worker.begun args).frame = framed args.wait_for_response false := by
  cases h : args.wait_for_response <;>
    simp [Worker.begun, Worker.frame, framed, Worker.cleanupEvents, h, Event.isCleanup]

/-- **The bodies** stay in the frame. They register a node, or end after the calls that fail. -/
theorem wpAt_body (T : TestBox) (kind : HandlerKind) (args : ThreadArgs) (k : ℕ) :
    wpAt (body T kind) (fun _ p => p.Framed args.wait_for_response)
      (fun n _ w => w.frame = framed args.wait_for_response (T.node kind args).isSome ∧
        (T.node kind args = none →
          n = k + kind.lookupCalls + (if T.found kind args.node_name then 1 else 0) + 1))
      k (.begun args) := by
  have hw := frame_begun args
  cases kind with
  | case =>
    simp only [body, caseBody, wpAt_bind, wpAt_get, wpAt_point, wpAt_ite]
    refine ⟨⟨false, hw⟩, ?_⟩
    split
    · next hf =>
      have hf' : T.found .case args.node_name = false := eq_false_of_ne_true hf
      rw [wpAt_abort]
      refine ⟨⟨false, hw⟩, ?_⟩
      simpa [TestBox.node, hf', HandlerKind.lookupCalls] using hw
    · next hf =>
      have hf' : T.found .case args.node_name = true := not_not.mp hf
      simp only [runCounted, wpAt_bind, wpAt_get]
      have hpace := keeps_sleepBetween inert_frame
      refine wpAt_mono (wpAt_withStatusGroup (keeps_runCounted_rest inert_frame hpace _) hw)
        (fun _ _ h => h) fun n _ w' h => ?_
      simpa [TestBox.node, hf', HandlerKind.lookupCalls] using h
  | suite =>
    simp only [body, suiteBody, wpAt_bind, wpAt_get, wpAt_point, wpAt_ite]
    refine ⟨⟨false, hw⟩, ?_⟩
    split
    · next hf =>
      have hf' : T.found .suite args.node_name = false := eq_false_of_ne_true hf
      rw [wpAt_abort]
      refine ⟨⟨false, hw⟩, ?_⟩
      simpa [TestBox.node, hf', HandlerKind.lookupCalls] using hw
    · next hf =>
      have hf' : T.found .suite args.node_name = true := not_not.mp hf
      refine wpAt_mono (wpAt_withStatusGroup (keeps_suite_rest inert_frame) hw) (fun _ _ h => h)
        fun n _ w' h => ?_
      simpa [TestBox.node, hf', HandlerKind.lookupCalls] using h
  | group =>
    simp only [body, groupBody, wpAt_bind, wpAt_get, wpAt_point, begun_data]
    refine ⟨⟨false, hw⟩, ?_⟩
    cases hg : T.tb_group_lookupnode args.node_name with
    | none =>
      rw [wpAt_abort]
      refine ⟨⟨false, hw⟩, ?_⟩
      simpa [TestBox.node, TestBox.found, hg, HandlerKind.lookupCalls] using hw
    | some group =>
      refine wpAt_mono (wpAt_withStatusGroup (keeps_group_rest inert_frame group.suites) hw)
        (fun _ _ h => h) fun n _ w' h => ?_
      simpa [TestBox.node, TestBox.found, hg, HandlerKind.lookupCalls] using h
  | executable =>
    simp only [body, executableBody, runCounted, wpAt_bind, wpAt_get]
    refine wpAt_mono (wpAt_withStatusGroup (keeps_runCounted_rest inert_frame (keeps_pure ()) _) hw)
      (fun _ _ h => h) fun n _ w' h => ?_
    simpa [TestBox.node, TestBox.found, HandlerKind.lookupCalls] using h

/-! ## The end of a run -/

theorem wpAt_finalizeThread (result : ℤ) {registered : Bool}
    (hw : w.frame = framed args.wait_for_response registered) :
    wpAt (finalizeThread result) (fun _ p => p.Framed args.wait_for_response)
      (fun n _ w' => w'.frame = framed args.wait_for_response registered ∧
        n = k + 2 * args.clientCalls) k w := by
  have hwait : w.data.wait_for_response = args.wait_for_response := congrArg (·.2.2.2) hw
  have hkeep := (keeps_finalizeThread result).wpAt hw (k := k)
  refine ⟨fun c p hp => ⟨registered, hkeep.1 c p hp⟩, hkeep.2, ?_⟩
  cases h : args.wait_for_response <;>
    simp [finalizeThread, ThreadArgs.clientCalls, h, hwait, numPoints, emit]

/-- The two pops at the end of every handler. -/
def Worker.popped (T : TestBox) (w : Worker) : Worker :=
  (w.pop T .status_group_cleanup).pop T .handler_thread_cleanup

/-- The thread before its first call. -/
def Worker.pushed (args : ThreadArgs) : Worker := ⟨args, none, [.handler_thread_cleanup], []⟩

theorem wpAt_withCleanup {body : Thread Worker ℤ} {C : ℕ → Worker → Prop}
    {Q : ℕ → Option ℤ → Worker → Prop}
    (hclient : args.wait_for_response = true → C k (.pushed args))
    (hbody : wpAt body C (fun n result w => wpAt (finalizeThread result) C
      (fun n ret w => Q n ret (w.popped T)) n w) (k + args.clientCalls) (.begun args)) :
    wpAt (withCleanup T body) C Q k (.start args) := by
  cases hw : args.wait_for_response with
  | true =>
    have hclient' := hclient hw
    simp only [Worker.begun, Worker.pushed, ThreadArgs.clientCalls, hw, if_true] at hbody hclient'
    simp only [withCleanup, Worker.start, wpAt_bind, wpAt_modify, wpAt_get, wpAt_point, wpAt_pure,
      hw, if_true, emit, Worker.emit, List.nil_append]
    exact ⟨hclient', hbody⟩
  | false =>
    simp only [Worker.begun, ThreadArgs.clientCalls, hw, Bool.false_eq_true, if_false] at hbody
    simp only [withCleanup, Worker.start, wpAt_bind, wpAt_modify, wpAt_get, wpAt_pure, hw,
      Bool.false_eq_true, if_false]
    exact hbody

/-- **A handler**: in the frame at every call, and at the end of its body before the pops. -/
theorem wpAt_handler (T : TestBox) (kind : HandlerKind) (args : ThreadArgs) :
    wpAt (handler T kind) (fun _ p => p.Framed args.wait_for_response)
      (fun n _ w => (T.node kind args = none → n = earlyCalls T kind args) ∧
        ∃ w' : Worker, w'.frame = framed args.wait_for_response (T.node kind args).isSome ∧
          w = w'.popped T)
      0 (.start args) := by
  rw [handler_eq]
  refine wpAt_withCleanup (fun hwait => ⟨false, ?_⟩) ?_
  · simp [Worker.pushed, Worker.frame, framed, Worker.cleanupEvents, hwait]
  refine wpAt_mono (wpAt_body T kind args _) (fun _ _ h => h) fun n result w h => ?_
  refine wpAt_mono (wpAt_finalizeThread result h.1) (fun _ _ h => h) fun n' _ w' h' => ?_
  refine ⟨fun hnone => ?_, w', h'.1, rfl⟩
  rw [h'.2, h.2 hnone, earlyCalls]
  omega

/-- The end of a thread: `es` are the last of its events, and none before concerned the stack. -/
theorem disciplined_iff_of_events {w w' : Worker} {registered : Bool}
    (hw : w.frame = framed waiting registered) (es : List Event) (he : w'.events = w.events ++ es)
    (hg : w'.status_group.isSome = registered) :
    CleanupDisciplined w' ↔ (∀ paired found, .pop paired found ∈ es → found = some paired) ∧
      es.count (.cleaned .handler_thread_cleanup) = 1 ∧
      es.count (.cleaned .status_group_cleanup) = if registered then 1 else 0 := by
  have hquiet : ∀ e ∈ w.events, ¬ e.isCleanup = true :=
    List.filter_eq_nil_iff.mp (congrArg (·.2.2.1) hw)
  have hcount : ∀ c, w.events.count (.cleaned c) = 0 := fun c =>
    List.count_eq_zero.mpr fun hmem => hquiet _ hmem rfl
  have hpop : ∀ paired found, Event.pop paired found ∉ w.events := fun _ _ hmem => hquiet _ hmem rfl
  constructor
  · rintro ⟨h1, h2, h3⟩
    rw [he, List.count_append, hcount, Nat.zero_add] at h2 h3
    refine ⟨fun paired found hmem => h1 paired found ?_, h2, by rw [h3, hg]⟩
    rw [he]
    exact List.mem_append_right _ hmem
  · rintro ⟨h1, h2, h3⟩
    refine ⟨fun paired found hmem => ?_, ?_, ?_⟩
    · rw [he] at hmem
      rcases List.mem_append.mp hmem with hmem | hmem
      · exact absurd hmem (hpop paired found)
      · exact h1 paired found hmem
    · rw [he, List.count_append, hcount, Nat.zero_add, h2]
    · rw [he, List.count_append, hcount, Nat.zero_add, h3, hg]

theorem disciplined_unwind (h : w.Framed waiting) : CleanupDisciplined (w.unwind T) := by
  obtain ⟨registered, hw⟩ := h
  have hstack : w.cleanups = _ := congrArg (·.1) hw
  have hg : w.status_group.isSome = registered := congrArg (·.2.1) hw
  cases registered with
  | false =>
    refine (disciplined_iff_of_events hw [.cleaned .handler_thread_cleanup] ?_ ?_).mpr
      (by simp)
    · simp [Worker.unwind, hstack, framed, Worker.cleanup, Worker.emit]
    · simpa [Worker.unwind, hstack, framed, Worker.cleanup, Worker.emit] using hg
  | true =>
    refine (disciplined_iff_of_events hw
      [.cleaned .status_group_cleanup, .cleaned .handler_thread_cleanup] ?_ ?_).mpr
      (by simp)
    · simp [Worker.unwind, hstack, framed, Worker.cleanup, Worker.emit, Worker.onStatus]
    · simpa [Worker.unwind, hstack, framed, Worker.cleanup, Worker.emit, Worker.onStatus] using hg

theorem faulted_of_events {w w' : Worker} (hw : w.cleanupEvents = []) (es : List Event)
    (he : w'.events = w.events ++ es) : w'.faulted = es.any Event.isFault := by
  have hquiet : ∀ e ∈ w.events, ¬ e.isCleanup = true := List.filter_eq_nil_iff.mp hw
  have hnone : w.events.any Event.isFault = false := by
    refine List.any_eq_false.mpr fun e hmem hfault => hquiet e hmem ?_
    cases e <;> first | rfl | cases hfault
  rw [Worker.faulted, he, List.any_append, hnone, Bool.false_or]

theorem not_faulted (hw : w.cleanupEvents = []) : w.faulted = false :=
  faulted_of_events hw [] (List.append_nil _).symm

theorem faulted_emit (w : Worker) {e : Event} (he : e.isFault = true) :
    (w.emit e).faulted = true := by
  simp [Worker.faulted, Worker.emit, he]

/-- The node is registered, its cleanup routine is pushed, and no routine was popped. -/
structure Worker.Registered (w : Worker) : Prop where
  cleanups : w.cleanups = [.status_group_cleanup, .handler_thread_cleanup]
  unpopped : w.cleanupEvents = []

theorem registered_of_frame (hw : w.frame = framed waiting true) : w.Registered :=
  ⟨congrArg (·.1) hw, congrArg (·.2.2.1) hw⟩

theorem Worker.Registered.emit (h : w.Registered) {e : Event} (he : e.isCleanup = false) :
    (w.emit e).Registered := by
  refine ⟨h.cleanups, ?_⟩
  rw [Worker.cleanupEvents, Worker.emit, List.filter_append, ← Worker.cleanupEvents, h.unpopped]
  simp [he]

theorem Worker.Registered.onStatus (h : w.Registered) (f : StatusGroup → StatusGroup) :
    (w.onStatus f).Registered :=
  ⟨h.cleanups, h.unpopped⟩

theorem popped_registered (h : w.Registered) :
    w.popped T =
      { (((w.emit (.pop .status_group_cleanup (some .status_group_cleanup))).cleanup T
        .status_group_cleanup).emit
          (.pop .handler_thread_cleanup (some .handler_thread_cleanup))).cleanup T
            .handler_thread_cleanup with cleanups := [] } := by
  have hfirst : w.pop T .status_group_cleanup =
      { (w.emit (.pop .status_group_cleanup (some .status_group_cleanup))).cleanup T
        .status_group_cleanup with cleanups := [.handler_thread_cleanup] } := by
    simp [Worker.pop, not_faulted h.unpopped, h.cleanups, Worker.cleanup, Worker.emit,
      Worker.onStatus]
  have hfault : (w.pop T .status_group_cleanup).faulted = false := by
    refine faulted_of_events h.unpopped [.pop .status_group_cleanup (some .status_group_cleanup),
      .cleaned .status_group_cleanup] ?_
    simp [hfirst, Worker.cleanup, Worker.emit, Worker.onStatus]
  rw [Worker.popped, Worker.pop, if_neg (by simp [hfault]), hfirst]
  rfl

theorem popped_unregistered (hw : w.frame = framed waiting false) :
    w.popped T = w.emit (.pop .status_group_cleanup (some .handler_thread_cleanup)) := by
  have hstack : w.cleanups = [.handler_thread_cleanup] := congrArg (·.1) hw
  have hfirst : w.pop T .status_group_cleanup =
      w.emit (.pop .status_group_cleanup (some .handler_thread_cleanup)) := by
    simp [Worker.pop, not_faulted (congrArg (·.2.2.1) hw), hstack]
  rw [Worker.popped, hfirst, Worker.pop, if_pos (faulted_emit w rfl)]

theorem faulted_popped {registered : Bool} (hw : w.frame = framed waiting registered) :
    (w.popped T).faulted = !registered := by
  cases registered with
  | false =>
    rw [popped_unregistered hw]
    exact faulted_emit w rfl
  | true =>
    refine (faulted_of_events (congrArg (·.2.2.1) hw) [
      .pop .status_group_cleanup (some .status_group_cleanup), .cleaned .status_group_cleanup,
      .pop .handler_thread_cleanup (some .handler_thread_cleanup),
      .cleaned .handler_thread_cleanup] ?_).trans rfl
    simp [popped_registered (registered_of_frame hw), Worker.cleanup, Worker.emit,
      Worker.onStatus]

/-- **The two pops** fit only if a node was registered: otherwise the first of them finds the
routine that is meant for the second. -/
theorem disciplined_popped {registered : Bool} (hw : w.frame = framed waiting registered) :
    CleanupDisciplined (w.popped T) ↔ registered = true := by
  have hg : w.status_group.isSome = registered := congrArg (·.2.1) hw
  cases registered with
  | false =>
    refine iff_of_false (fun h => ?_) Bool.false_ne_true
    have hpop := h.paired .status_group_cleanup (some .handler_thread_cleanup)
      (by simp [popped_unregistered hw, Worker.emit])
    cases hpop
  | true =>
    rw [disciplined_iff_of_events hw [
      .pop .status_group_cleanup (some .status_group_cleanup), .cleaned .status_group_cleanup,
      .pop .handler_thread_cleanup (some .handler_thread_cleanup),
      .cleaned .handler_thread_cleanup]]
    · refine iff_of_true ⟨fun paired found h => ?_, by decide, by decide⟩ rfl
      simp only [List.mem_cons, Event.pop.injEq, reduceCtorEq, List.not_mem_nil, or_false,
        false_or] at h
      rcases h with ⟨rfl, rfl⟩ | ⟨rfl, rfl⟩ <;> rfl
    · simp [popped_registered (registered_of_frame hw), Worker.cleanup, Worker.emit,
        Worker.onStatus]
    · simpa [popped_registered (registered_of_frame hw), Worker.cleanup, Worker.emit,
        Worker.onStatus] using hg

/-- **A handler that is not cancelled** ends without a fault if it has its node. Without one it
could only have been cancelled before its last call. -/
theorem faulted_of_returned {cancelAt : Option ℕ} {thread_return : Option ℤ}
    (hr : run (handler T kind) cancelAt (.start args) = .returned thread_return w) :
    w.faulted = false ↔
      Registers T kind args ∨ ∃ c, cancelAt = some c ∧ c < earlyCalls T kind args := by
  rcases run_cases_at (wpAt_handler T kind args) cancelAt with
    ⟨n, a, w₁, hn, hr', hearly, w', hw', rfl⟩ | ⟨c, p, -, -, hr', -⟩
  · obtain ⟨-, rfl⟩ := Ended.returned.inj (hr'.symm.trans hr)
    rw [faulted_popped hw', Bool.not_eq_false']
    refine ⟨.inl, ?_⟩
    rintro (h | ⟨c, hc, hlt⟩)
    · exact h
    · by_contra hnone
      have h1 := hearly (by simpa using hnone)
      have h2 := hn c hc
      omega
  · rw [hr'] at hr
    cases hr

theorem early_of_cancelled {cancelAt : Option ℕ}
    (hr : run (handler T kind) cancelAt (.start args) = .cancelled w) :
    Registers T kind args ∨ ∃ c, cancelAt = some c ∧ c < earlyCalls T kind args := by
  have hpoints := wpAt_handler T kind args
  rcases run_cases_at hpoints cancelAt with ⟨n, a, w₁, -, hr', -⟩ | ⟨c, p, hc, hlt, -, -⟩
  · rw [hr'] at hr
    cases hr
  · by_cases hnode : Registers T kind args
    · exact .inl hnode
    · have h1 := hpoints.2.1 (by simpa [Registers] using hnode)
      exact .inr ⟨c, hc, by omega⟩

/-- **The discipline** is kept by the runs that register a node, and by those that are cancelled
before they have made their last call. -/
theorem cleanupDisciplined_iff (T : TestBox) (kind : HandlerKind) (cancelAt : Option ℕ)
    (args : ThreadArgs) :
    CleanupDisciplined (finished T kind cancelAt args) ↔
      Registers T kind args ∨ ∃ c, cancelAt = some c ∧ c < earlyCalls T kind args := by
  rcases run_cases_at (wpAt_handler T kind args) cancelAt with
    ⟨n, a, w, -, hr, -, w', hw', rfl⟩ | ⟨c, p, -, -, hr, hp⟩
  · rw [finished, hr]
    simp only
    rw [disciplined_popped hw', ← faulted_of_returned hr, faulted_popped hw', Bool.not_eq_false']
  · rw [finished, hr]
    exact iff_of_true (disciplined_unwind hp) (early_of_cancelled hr)

/-- No test case is registered. -/
def noCase : TestBox where
  tb_case_lookupnode _ := false
  tb_suite_lookupnode _ := true
  tb_group_lookupnode _ := none
  tb_status_add_group_node _ _ _ := some ⟨1, .idle, 0, 0, 0⟩
  tb_status_add_suite_bucket _ := true
  tb_status_add_testcase_bucket := true
  tb_status_add_n_testcase_buckets _ := 0
  runner _ := 0
  runnerEffect _ g := g
  clock_gettime _ := 0
  getTimeStamp _ := 0
  narrow n := n

/-- `dibc t`, in the background. -/
def background : ThreadArgs := ⟨3, 0, false, 1, false, false, 0, 0, ['t'], [['t']]⟩

/-- The pop that is paired with `status_group_cleanup` finds `handler_thread_cleanup`. -/
theorem unpaired_pop :
    .pop .status_group_cleanup (some .handler_thread_cleanup) ∈
        (finished noCase .case none background).events ∧
      ¬ CleanupDisciplined (finished noCase .case none background) := by
  have h : .pop .status_group_cleanup (some .handler_thread_cleanup) ∈
      (finished noCase .case none background).events := by decide
  refine ⟨h, fun hd => ?_⟩
  have h1 := hd.paired _ _ h
  cases h1

end Dib
