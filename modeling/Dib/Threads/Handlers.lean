import Dib.Handlers.Status
import Dib.Threads.Model

/-!
# The handlers as test threads

The phases of a test thread are those of the four handlers.

* `Worker.traffic`, `WorkThread.traffic`: what a handler has done to the client list and to its
  record, and what a test thread has done by its phase;
* `WorkThread.Shows`, `Cancellable`: the phase is that of the handler, and a cancellation can act;
* **`handler_phases`**: at each of its calls a handler is in a phase in which a cancellation can act
  on a test thread, and when none acts it ends in the last one.
-/

set_option autoImplicit false

namespace Dib

open Thread

variable {T : TestBox} {args : ThreadArgs} {w : Worker}

/-- What concerns the client list and the record. -/
def Event.isTraffic : Event → Bool
  | .clientAdd _ | .clientRemove | .freeArgs => true
  | _ => false

def Worker.traffic (w : Worker) : List Event := w.events.filter Event.isTraffic

/-- The entry of a thread that is waited for. -/
def ThreadArgs.entry (args : ThreadArgs) : List Event :=
  if args.wait_for_response then [.clientAdd args.socket] else []

def ThreadArgs.removal (args : ThreadArgs) : List Event :=
  if args.wait_for_response then [.clientRemove] else []

/-- What a test thread has done, unless it is cancelled. -/
def WorkThread.traffic (args : ThreadArgs) : WorkThread → List Event
  | .entered | .registered | .finalizing _ => args.entry
  | .removed _ => args.entry ++ args.removal
  | .freed _ | .cleaned false | .terminated false => args.entry ++ args.removal ++ [.freeArgs]
  | _ => []

/-- The handler has done what a test thread has done in this phase. -/
def WorkThread.Shows (t : WorkThread) (args : ThreadArgs) (w : Worker) : Prop :=
  w.traffic = t.traffic args ∧ w.status_group.isSome = t.holds

/-! ## The bodies -/

theorem traffic_emit {e : Event} (he : e.isTraffic = false) (w : Worker) :
    (w.emit e).traffic = w.traffic := by
  simp [Worker.traffic, Worker.emit, he]

theorem inert_traffic : Inert Worker.traffic where
  emit e w he := traffic_emit (by cases e <;> simp_all [Event.inBody, Event.isTraffic]) w
  onStatus g w := rfl
  deadline d w := rfl

theorem keeps_withStatusGroup {name : List Char} {size : ℤ} {rest : Thread Worker ℤ}
    (hrest : Keeps Worker.traffic rest) :
    Keeps Worker.traffic (withStatusGroup T name size rest) := by
  refine keeps_bind keeps_point fun _ => keeps_bind keeps_get fun w => ?_
  cases T.tb_status_add_group_node name size w.data.loops with
  | none => exact keeps_abort _ _
  | some g => exact keeps_bind (keeps_modify fun _ => rfl) fun _ => hrest

theorem keeps_runCounted {cmd : Option (List Char)} {pace : Thread Worker Unit}
    (hp : Keeps Worker.traffic pace) : Keeps Worker.traffic (runCounted T cmd pace) :=
  keeps_bind keeps_get fun _ => keeps_withStatusGroup (keeps_runCounted_rest inert_traffic hp _)

theorem keeps_body (T : TestBox) (kind : HandlerKind) : Keeps Worker.traffic (body T kind) := by
  cases kind with
  | case =>
    refine keeps_bind keeps_get fun _ => keeps_bind keeps_point fun _ => ?_
    exact keeps_ite _ (keeps_abort _ _) (keeps_runCounted (keeps_sleepBetween inert_traffic))
  | suite =>
    refine keeps_bind keeps_get fun _ => keeps_bind keeps_point fun _ => ?_
    exact keeps_ite _ (keeps_abort _ _) (keeps_withStatusGroup (keeps_suite_rest inert_traffic))
  | group =>
    refine keeps_bind keeps_get fun w => keeps_bind keeps_point fun _ => ?_
    cases T.tb_group_lookupnode w.data.node_name with
    | none => exact keeps_abort _ _
    | some group => exact keeps_withStatusGroup (keeps_group_rest inert_traffic group.suites)
  | executable => exact keeps_bind keeps_get fun _ => keeps_runCounted (keeps_pure ())

/-! ## The end of a handler -/

theorem traffic_cleanup (c : Cleanup) (w : Worker) : (w.cleanup T c).traffic = w.traffic := by
  cases c with
  | handler_thread_cleanup => exact traffic_emit rfl w
  | status_group_cleanup => exact traffic_emit rfl _

theorem traffic_pop (paired : Cleanup) (w : Worker) : (w.pop T paired).traffic = w.traffic := by
  unfold Worker.pop
  split_ifs
  · rfl
  split
  · exact traffic_emit rfl w
  split_ifs
  · rw [traffic_cleanup, traffic_emit rfl]
    rfl
  · exact traffic_emit rfl w

theorem traffic_finalized (h : w.traffic = args.entry) :
    (w.finalized T args).traffic = WorkThread.traffic args (.cleaned false) := by
  rw [Worker.finalized, Worker.popped, traffic_pop, traffic_pop]
  simp only [Worker.traffic] at h
  cases hwait : args.wait_for_response <;>
    simp [Worker.traffic, Worker.emit, h, WorkThread.traffic, ThreadArgs.removal, hwait,
      Event.isTraffic]

/-! ## The phases -/

/-- The handler is in a phase in which a cancellation can act on a test thread. -/
def Cancellable (args : ThreadArgs) (w : Worker) : Prop :=
  ∃ t : WorkThread, t.cancellable args.wait_for_response = true ∧ t.Shows args w

theorem cancellable_of_body {registered : Bool}
    (hw : w.frame = framed args.wait_for_response registered) (ht : w.traffic = args.entry) :
    Cancellable args w := by
  have hnode : w.status_group.isSome = registered := congrArg (·.2.1) hw
  cases registered with
  | false => exact ⟨.entered, rfl, ht, hnode⟩
  | true => exact ⟨.registered, rfl, ht, hnode⟩

theorem wpAt_phases (T : TestBox) (kind : HandlerKind) (args : ThreadArgs) :
    wpAt (handler T kind) (fun _ p => Cancellable args p)
      (fun _ _ w => w.traffic = WorkThread.traffic args (.cleaned false)) 0 (.start args) := by
  have hbegun : (Worker.begun args).traffic = args.entry := by
    cases h : args.wait_for_response <;>
      simp [Worker.begun, Worker.traffic, ThreadArgs.entry, h, Event.isTraffic]
  rw [handler_eq]
  refine wpAt_withCleanup (fun hwait => ⟨.started, hwait, rfl, rfl⟩) ?_
  refine wpAt_mono (wpAt_and (wpAt_body T kind args _) ((keeps_body T kind).wpAt hbegun)) ?_ ?_
  · rintro c p ⟨⟨registered, hp⟩, ht⟩
    exact cancellable_of_body hp ht
  · rintro n result w ⟨⟨hw, -⟩, ht⟩
    -- in `finalize_thread`, before the entry is removed
    have hwait : w.data.wait_for_response = args.wait_for_response := congrArg (·.2.2.2) hw
    have hC := cancellable_of_body hw ht
    exact wpAt_finalize (C := fun _ p => Cancellable args p)
      (Q := fun _ _ w => w.traffic = WorkThread.traffic args (.cleaned false)) hwait
      ⟨fun _ => ⟨hC, hC⟩, traffic_finalized ht⟩

/-- **The phases of the handlers.** A handler that is cancelled is in a phase in which a test thread
can be, and has done what that thread has done; one that is not has done all of it. -/
theorem handler_phases (T : TestBox) (kind : HandlerKind) (cancelAt : Option ℕ)
    (args : ThreadArgs) :
    match run (handler T kind) cancelAt (.start args) with
    | .cancelled p => Cancellable args p
    | .returned _ w => w.traffic = WorkThread.traffic args (.cleaned false) := by
  rcases run_cases_at (wpAt_phases T kind args) cancelAt with
    ⟨n, a, w, -, hr, hw⟩ | ⟨c, p, -, -, hr, hp⟩
  · rw [hr]
    exact hw
  · rw [hr]
    exact hp

end Dib
