import Dib.Handlers.Course

/-!
# The end of a status entry

* `Settled`: the actions with which an entry ends;
* `Terminal`: what the status node says when its thread is gone;
* `history`: the thread at the calls it makes, and at its end;
* `StatusAt`, `outline_status`: what the node says at each call;
* **`status_settles`**: the node of a case or an executable is terminal at the end of every run, and
  an action that is settled stays.
-/

set_option autoImplicit false

namespace Dib

open Thread

/-! ## Statement -/

/-- `tb_test_done` or `tb_test_stopped`. -/
def TestAction.Settled (a : TestAction) : Prop := a = .done ∨ a = .stopped

instance (a : TestAction) : Decidable a.Settled := inferInstanceAs (Decidable (_ ∨ _))

/-- The run gets to the label `exit`. -/
def Exits (T : TestBox) (kind : HandlerKind) (cancelAt : Option ℕ) (args : ThreadArgs) : Prop :=
  SetsUp T kind args ∧ ∀ c, cancelAt = some c → exitAt T kind args ≤ c

/-- A set-up failure, a failing test under `stop_on_fail`, or a cancellation that acts before the
action is set at the end of the loop. -/
def Stops (T : TestBox) (kind : HandlerKind) (cancelAt : Option ℕ) (args : ThreadArgs) : Prop :=
  ¬ SetsUp T kind args ∨ (∃ m, lastOf T args = some m ∧ StopsAt T args.stop_on_fail m) ∨
    ∃ c, cancelAt = some c ∧ c < exitAt T kind args

/-- What the status node `g` says when its thread is gone: the time stamp is the one that was taken
at the label `exit`, or the one that `status_group_cleanup` took. -/
structure Terminal (T : TestBox) (kind : HandlerKind) (cancelAt : Option ℕ) (args : ThreadArgs)
    (g : StatusGroup) : Prop where
  thread : g.thread = -1
  settled : g.action.Settled
  exited : Exits T kind cancelAt args → g.endTimeStamp = T.getTimeStamp 1
  cleaned : ¬ Exits T kind cancelAt args → g.endTimeStamp = T.getTimeStamp 2
  stopped : g.action = .stopped ↔ Stops T kind cancelAt args

/-- The action of the status node. -/
def Worker.action (w : Worker) : Option TestAction := w.status_group.map (·.action)

/-- The thread at the calls it makes, up to the one at which it is cancelled. -/
def passed (T : TestBox) (kind : HandlerKind) (cancelAt : Option ℕ) (args : ThreadArgs) :
    List Worker :=
  match cancelAt with
  | none => (handler T kind (.start args)).points
  | some c => (handler T kind (.start args)).points.take (c + 1)

/-- The thread at its calls and at its end. -/
def history (T : TestBox) (kind : HandlerKind) (cancelAt : Option ℕ) (args : ThreadArgs) :
    List Worker :=
  passed T kind cancelAt args ++ [finished T kind cancelAt args]

/-- No step changes the action once it is settled. -/
def StaysSettled (w w' : Worker) : Prop := ∀ a, w.action = some a → a.Settled → w'.action = some a

variable {T : TestBox} {kind : HandlerKind} {cancelAt : Option ℕ} {args : ThreadArgs} {w : Worker}
  {c : ℕ} {g : StatusGroup}

/-! ## The cleanup of the node -/

/-- `status_group_cleanup`. -/
def StatusGroup.cleaned (T : TestBox) (g : StatusGroup) : StatusGroup :=
  if g.action ≠ .done ∧ g.action ≠ .stopped then
    { g with thread := -1, action := .stopped, endTimeStamp := T.getTimeStamp 2 }
  else { g with thread := -1 }

theorem cleaned_of_settled (h : g.action.Settled) : g.cleaned T = { g with thread := -1 } := by
  refine if_neg fun hg => ?_
  rcases h with h | h
  · exact hg.1 h
  · exact hg.2 h

theorem cleaned_of_not_settled (h : ¬ g.action.Settled) : g.cleaned T =
    { g with thread := -1, action := .stopped, endTimeStamp := T.getTimeStamp 2 } :=
  if_pos ⟨fun hg => h (.inl hg), fun hg => h (.inr hg)⟩

theorem status_cleanup_of_none {w : Worker} (h : w.status_group = none) (c : Cleanup) :
    (w.cleanup T c).status_group = none := by
  cases c with
  | handler_thread_cleanup => exact h
  | status_group_cleanup => exact Option.map_eq_none_iff.mpr h

theorem status_pop_of_none (h : w.status_group = none) (c : Cleanup) :
    (w.pop T c).status_group = none := by
  unfold Worker.pop
  split_ifs
  · exact h
  split
  · exact h
  split_ifs
  · refine status_cleanup_of_none ?_ _
    exact h
  · exact h

theorem status_popped_of_none (h : w.status_group = none) : (w.popped T).status_group = none :=
  status_pop_of_none (status_pop_of_none h _) _

theorem status_popped (h : w.Registered) :
    (w.popped T).status_group = w.status_group.map (·.cleaned T) := by
  rw [popped_registered h]
  simp only [Worker.cleanup, Worker.emit, Worker.onStatus]
  rfl

theorem status_finalized (h : w.Registered) :
    (w.finalized T args).status_group = w.status_group.map (·.cleaned T) := by
  rw [Worker.finalized]
  split_ifs
  · exact status_popped ((h.emit rfl).emit rfl)
  · exact status_popped (h.emit rfl)

theorem status_unwind (h : w.cleanups = [.status_group_cleanup, .handler_thread_cleanup]) :
    (w.unwind T).status_group = w.status_group.map (·.cleaned T) := by
  simp only [Worker.unwind, h, List.foldl, Worker.cleanup, Worker.emit, Worker.onStatus]
  rfl

/-! ## The node at each call -/

/-- The thread has set the action at the label `exit` when it makes its call `c`. -/
def Reached (T : TestBox) (kind : HandlerKind) (args : ThreadArgs) (c : ℕ) : Prop :=
  SetsUp T kind args ∧ exitAt T kind args ≤ c

/-- What the node says at the call `c`. -/
structure StatusAt (T : TestBox) (kind : HandlerKind) (args : ThreadArgs) (c : ℕ) (g : StatusGroup) :
    Prop where
  open_ : ¬ Reached T kind args c → ¬ g.action.Settled
  action : Reached T kind args c → g.action = exitAction T args
  endTimeStamp : Reached T kind args c → exitAt T kind args < c → g.endTimeStamp = T.getTimeStamp 1

/-- The node of the thread says so, and it is there once the action is set. -/
structure NodeAt (T : TestBox) (kind : HandlerKind) (args : ThreadArgs) (c : ℕ) (w : Worker) :
    Prop where
  status : ∀ g, w.status_group = some g → StatusAt T kind args c g
  isSome : Reached T kind args c → w.status_group.isSome = true

theorem exitAction_settled : (exitAction T args).Settled := by
  rw [exitAction]
  split
  · exact .inl rfl
  · split_ifs
    · exact .inr rfl
    · exact .inl rfl

theorem exitAction_stopped : exitAction T args = .stopped ↔
    ∃ m, lastOf T args = some m ∧ StopsAt T args.stop_on_fail m := by
  rw [exitAction]
  split
  · next h => simp [h]
  · next m h =>
    rw [h]
    split_ifs with hs
    · exact iff_of_true rfl ⟨m, rfl, hs⟩
    · refine iff_of_false (by decide) ?_
      rintro ⟨m', hm, hs'⟩
      rw [Option.some.injEq] at hm
      exact hs (hm ▸ hs')

theorem statusAt_of_not_reached (h : ¬ Reached T kind args c) (hg : ¬ g.action.Settled) :
    StatusAt T kind args c g where
  open_ _ := hg
  action hr := absurd hr h
  endTimeStamp hr := absurd hr h

theorem nodeAt_of_not_settled (h : ¬ Reached T kind args c) (hw : w.status_group = some g)
    (hg : ¬ g.action.Settled) : NodeAt T kind args c w := by
  refine ⟨fun g' hg' => ?_, fun hr => absurd hr h⟩
  obtain rfl := Option.some.inj (hw.symm.trans hg')
  exact statusAt_of_not_reached h hg

theorem nodeAt_of_none (h : ¬ Reached T kind args c) (hw : w.status_group = none) :
    NodeAt T kind args c w := by
  refine ⟨fun g hg => ?_, fun hr => absurd hr h⟩
  rw [hw] at hg
  cases hg

theorem nodeAt_of_reached (h : Reached T kind args c) (hw : w.status_group = some g)
    (haction : g.action = exitAction T args)
    (hend : exitAt T kind args < c → g.endTimeStamp = T.getTimeStamp 1) :
    NodeAt T kind args c w := by
  refine ⟨fun g' hg' => ?_, fun _ => by rw [hw]; rfl⟩
  obtain rfl := Option.some.inj (hw.symm.trans hg')
  exact ⟨fun hr => absurd h hr, fun _ => haction, fun _ => hend⟩

theorem not_reached_of_lt (h : c < exitAt T kind args) : ¬ Reached T kind args c :=
  fun hr => Nat.not_le_of_lt h hr.2

theorem status_finalized_begun : ((Worker.begun args).finalized T args).status_group = none := by
  rw [Worker.finalized]
  split_ifs <;> exact status_popped_of_none rfl

theorem node_not_settled (hkind : kind = .case ∨ kind = .executable)
    (hnew : ∀ name size loops g, T.tb_status_add_group_node name size loops = some g →
      ¬ g.action.Settled) (hg : T.node kind args = some g) : ¬ g.action.Settled := by
  rcases hkind with rfl | rfl
  · have hg' : (if T.found .case args.node_name then
        T.tb_status_add_group_node args.node_name 1 args.loops else none) = some g := hg
    split_ifs at hg'
    exact hnew _ _ _ g hg'
  · exact hnew _ _ _ g hg

theorem status_looped (T : TestBox) (args : ThreadArgs) (hreg : w.Registered)
    (hw : w.status_group = some g) :
    (w.looped T args).Registered ∧
      (w.looped T args).status_group = some { g with action := exitAction T args } := by
  rw [Worker.looped]
  split_ifs
  · exact ⟨(hreg.emit rfl).onStatus _, congrArg (Option.map _) hw⟩
  · exact ⟨hreg.onStatus _, congrArg (Option.map _) hw⟩

theorem registered_begun (args : ThreadArgs) (g : StatusGroup) :
    ((Worker.begun args).register g).Registered := by
  refine ⟨rfl, ?_⟩
  cases h : args.wait_for_response <;>
    simp [Worker.begun, Worker.register, Worker.cleanupEvents, h, Event.isCleanup]

theorem registered_looping (T : TestBox) (args : ThreadArgs) (g : StatusGroup) :
    (Worker.looping T args g).Registered := by
  have hstarted : (Worker.started T args g).Registered :=
    ((registered_begun args g).onStatus _).onStatus _
  have hdeadline : ∀ w : Worker, w.Registered → (w.setDeadline T args).Registered :=
    fun w h => ⟨h.cleanups, h.unpopped⟩
  rw [Worker.looping]
  split_ifs
  · exact hdeadline _ (hstarted.emit rfl)
  · exact hdeadline _ hstarted

/-- **The trace of the node**, call by call. -/
theorem outline_status (args : ThreadArgs) (hkind : kind = .case ∨ kind = .executable)
    (hnew : ∀ name size loops g, T.tb_status_add_group_node name size loops = some g →
      ¬ g.action.Settled)
    (hrunner : ∀ i g, (T.runnerEffect i g).action = g.action) :
    Outline T kind args (NodeAt T kind args)
      (fun n _ w => n = callsOf T kind args ∧ ∃ w', NodeAt T kind args n w' ∧
        w.status_group = w'.status_group.map (·.cleaned T))
      (fun w => w.Registered ∧ ∃ g, w.status_group = some g ∧ ¬ g.action.Settled) := by
  have hbefore : ∀ c < nodeAt kind args + 4, ¬ Reached T kind args c := fun c hc =>
    not_reached_of_lt (Nat.lt_of_lt_of_le hc (Nat.le_trans (Nat.le_add_right _ _) loopAt_le_exitAt))
  have hrunning : ¬ TestAction.running.Settled := by decide
  constructor
  case pushed => exact fun _ => nodeAt_of_none (hbefore 0 (Nat.succ_pos _)) rfl
  case begun => exact fun c hc => nodeAt_of_none (hbefore c (by omega)) rfl
  case unregistered =>
    intro hnode
    have hs : ¬ SetsUp T kind args := fun hs => by
      rw [SetsUp, hnode] at hs
      cases hs.1
    have hat : ∀ c, NodeAt T kind args c (.begun args) := fun c =>
      nodeAt_of_none (fun hr => hs hr.1) rfl
    refine ⟨fun _ => ⟨hat _, hat _⟩, by rw [callsOf, if_neg hs], _, hat _, ?_⟩
    exact status_finalized_begun
  case registered =>
    intro g hnode c _ hlt
    refine nodeAt_of_not_settled (fun hr => ?_) rfl (node_not_settled hkind hnew hnode)
    have h1 := hlt hr.1
    exact hbefore c (by omega) hr
  case failed =>
    intro g hnode hs
    have hat : ∀ c, NodeAt T kind args c ((Worker.begun args).register g) := fun c =>
      nodeAt_of_not_settled (fun hr => hs hr.1) rfl (node_not_settled hkind hnew hnode)
    refine ⟨fun _ => ⟨hat _, hat _⟩, by rw [callsOf, if_neg hs], _, hat _, ?_⟩
    exact status_finalized (registered_begun args g)
  case running => exact fun g _ _ => nodeAt_of_not_settled (hbefore _ (by omega)) rfl hrunning
  case started =>
    refine fun g _ _ hgen =>
      nodeAt_of_not_settled (not_reached_of_lt (Nat.lt_of_lt_of_le ?_ loopAt_le_exitAt)) rfl
        hrunning
    rw [loopAt, ThreadArgs.xmlCalls, if_pos hgen]
    exact Nat.lt_succ_self _
  case looping =>
    intro g _ _
    have hlooping : (Worker.looping T args g).status_group =
        (Worker.started T args g).status_group := by
      rw [Worker.looping]
      split_ifs <;> rfl
    exact ⟨registered_looping T args g, _, hlooping.trans rfl, hrunning⟩
  case sleep => exact fun w s hw => ⟨hw.1.emit rfl, hw.2⟩
  case run =>
    rintro i w cmd ⟨hreg, g, hw, hg⟩
    refine ⟨(hreg.onStatus _).emit rfl, T.runnerEffect i g, congrArg (Option.map _) hw, ?_⟩
    rwa [hrunner]
  case round =>
    rintro hs c w ⟨-, g, hw, hg⟩ - hlt
    exact nodeAt_of_not_settled (not_reached_of_lt hlt) hw hg
  case exit =>
    rintro hs w ⟨hreg, g, hw, -⟩
    exact nodeAt_of_reached ⟨hs, Nat.le_refl _⟩ (status_looped T args hreg hw).2 rfl
      fun hlt => absurd hlt (Nat.lt_irrefl _)
  case wrapup =>
    rintro hs w r ⟨hreg, g, hw, -⟩
    obtain ⟨hreg', hlooped⟩ := status_looped T args hreg hw
    have hexited : (w.exited T args).status_group =
        some { g with action := exitAction T args, endTimeStamp := T.getTimeStamp 1 } :=
      congrArg (Option.map _) hlooped
    have hat : ∀ c, exitAt T kind args < c → NodeAt T kind args c (w.exited T args) := fun c hc =>
      nodeAt_of_reached ⟨hs, Nat.le_of_lt hc⟩ hexited rfl fun _ => rfl
    refine ⟨fun _ => ⟨hat _ (by omega), hat _ (by omega)⟩, by rw [callsOf, if_pos hs], _,
      hat _ (by omega), status_finalized (hreg'.onStatus _)⟩

/-! ## The runs -/

theorem terminal_cleaned {k : ℕ} (hreach : Reached T kind args k ↔ Exits T kind cancelAt args)
    (hlt : Reached T kind args k → exitAt T kind args < k) (h : StatusAt T kind args k g) :
    Terminal T kind cancelAt args (g.cleaned T) := by
  by_cases hr : Reached T kind args k
  · have hexits := hreach.mp hr
    have haction := h.action hr
    have hsettled : g.action.Settled := by
      rw [haction]
      exact exitAction_settled
    rw [cleaned_of_settled hsettled]
    refine ⟨rfl, hsettled, fun _ => h.endTimeStamp hr (hlt hr), fun hn => absurd hexits hn, ?_⟩
    rw [haction, exitAction_stopped, Stops]
    refine ⟨fun hm => .inr (.inl hm), ?_⟩
    rintro (hs | hm | ⟨c, hc, hlt'⟩)
    · exact absurd hr.1 hs
    · exact hm
    · exact absurd (hexits.2 c hc) (Nat.not_le_of_lt hlt')
  · rw [cleaned_of_not_settled (h.open_ hr)]
    refine ⟨rfl, .inr rfl, fun hexits => absurd (hreach.mpr hexits) hr, fun _ => rfl, ?_⟩
    refine iff_of_true rfl ?_
    by_contra hstops
    refine hr (hreach.mpr ⟨?_, fun c hc => ?_⟩)
    · by_contra hs
      exact hstops (.inl hs)
    · by_contra hlt'
      exact hstops (.inr (.inr ⟨c, hc, Nat.lt_of_not_le hlt'⟩))

theorem staysSettled_of_le {i j : ℕ} {w' : Worker} (hij : i ≤ j) (h : NodeAt T kind args i w)
    (h' : NodeAt T kind args j w') : StaysSettled w w' := by
  intro a ha hsettled
  obtain ⟨g, hg, rfl⟩ := Option.map_eq_some_iff.mp ha
  have hat := h.status g hg
  have hr : Reached T kind args i := by
    by_contra hr
    exact hat.open_ hr hsettled
  have hr' : Reached T kind args j := ⟨hr.1, Nat.le_trans hr.2 hij⟩
  obtain ⟨g', hg'⟩ := Option.isSome_iff_exists.mp (h'.isSome hr')
  rw [Worker.action, hg', hat.action hr]
  exact congrArg some ((h'.status g' hg').action hr')

theorem StaysSettled.cleaned {w' w'' : Worker} (h : StaysSettled w w')
    (hw : w''.status_group = w'.status_group.map (·.cleaned T)) : StaysSettled w w'' := by
  intro a ha hsettled
  obtain ⟨g, hg, rfl⟩ := Option.map_eq_some_iff.mp (h a ha hsettled)
  rw [Worker.action, hw, hg]
  show some (g.cleaned T).action = some g.action
  rw [cleaned_of_settled hsettled]

theorem finished_cases (hkind : kind = .case ∨ kind = .executable)
    (hnew : ∀ name size loops g, T.tb_status_add_group_node name size loops = some g →
      ¬ g.action.Settled)
    (hrunner : ∀ i g, (T.runnerEffect i g).action = g.action)
    (hstamp : SetsUp T kind args → cancelAt ≠ some (exitAt T kind args)) :
    ∃ k w, NodeAt T kind args k w ∧
      (finished T kind cancelAt args).status_group = w.status_group.map (·.cleaned T) ∧
      (Reached T kind args k ↔ Exits T kind cancelAt args) ∧
      (Reached T kind args k → exitAt T kind args < k) ∧
      ∀ c p, (handler T kind (.start args)).points[c]? = some p →
        (∀ c', cancelAt = some c' → c ≤ c') → c ≤ k := by
  have hcourse := wpAt_and (wpAt_counted hkind (outline_status args hkind hnew hrunner))
    (wpAt_handler T kind args)
  have hcalls : numPoints (handler T kind) (.start args) = callsOf T kind args := by
    rw [← hcourse.2.1.1, Nat.zero_add]
  have hexit : SetsUp T kind args → exitAt T kind args < callsOf T kind args := by
    intro hs
    rw [callsOf, if_pos hs]
    omega
  rcases run_cases_at hcourse cancelAt with
    ⟨n, ret, w, hn, hr, ⟨⟨rfl, w', hw', hstatus⟩, -⟩⟩ | ⟨c, p, hc, hlt, hr, hp, registered, hframe⟩
  · refine ⟨_, w', hw', ?_, ⟨fun h => ⟨h.1, fun c hc => ?_⟩, fun h => ⟨h.1, ?_⟩⟩,
      fun h => hexit h.1, fun c p hp _ => ?_⟩
    · rw [finished, hr]
      exact hstatus
    · exact Nat.le_trans h.2 (hn c hc)
    · exact Nat.le_of_lt (hexit h.1)
    · rw [← hcalls]
      exact Nat.le_of_lt (List.getElem?_eq_some_iff.mp hp).1
  · refine ⟨c, p, hp, ?_, ⟨fun h => ⟨h.1, fun c' hc' => ?_⟩, fun h => ⟨h.1, h.2 c hc⟩⟩,
      fun h => Nat.lt_of_le_of_ne h.2 fun he => hstamp h.1 (he ▸ hc), fun c' p' _ hle => hle c hc⟩
    · rw [finished, hr]
      have hstack : p.cleanups = _ := congrArg (·.1) hframe
      have hnode : p.status_group.isSome = registered := congrArg (·.2.1) hframe
      cases registered with
      | true => exact status_unwind hstack
      | false =>
        have hnone : p.status_group = none := by simpa using hnode
        simp [Worker.unwind, hstack, framed, Worker.cleanup, Worker.emit, hnone]
    · rw [hc, Option.some.injEq] at hc'
      exact hc' ▸ h.2

theorem passed_sublist :
    (passed T kind cancelAt args).Sublist (handler T kind (.start args)).points := by
  cases cancelAt with
  | none => exact List.Sublist.refl _
  | some c => exact List.take_sublist _ _

theorem exists_of_mem_passed {p : Worker} (h : p ∈ passed T kind cancelAt args) :
    ∃ c, (handler T kind (.start args)).points[c]? = some p ∧
      ∀ c', cancelAt = some c' → c ≤ c' := by
  obtain ⟨c, hc⟩ := List.mem_iff_getElem?.mp h
  cases cancelAt with
  | none => exact ⟨c, hc, fun c' hc' => by cases hc'⟩
  | some c' =>
    have hlt : c < c' + 1 := by
      by_contra hge
      have htake : ((handler T kind (.start args)).points.take (c' + 1))[c]? = some p := hc
      rw [List.getElem?_take_eq_none (Nat.le_of_not_lt hge)] at htake
      cases htake
    refine ⟨c, ?_, fun c'' hc'' => ?_⟩
    · rw [← hc]
      exact (List.getElem?_take_of_lt hlt).symm
    · obtain rfl := Option.some.inj hc''
      exact Nat.le_of_lt_succ hlt

/-- **The terminal state**: at the end of every run the node is terminal, and an action that was
settled at a call is the same at every later one and at the end. -/
theorem status_settles (hkind : kind = .case ∨ kind = .executable)
    (hnew : ∀ name size loops g, T.tb_status_add_group_node name size loops = some g →
      ¬ g.action.Settled)
    (hrunner : ∀ i g, (T.runnerEffect i g).action = g.action)
    (hstamp : SetsUp T kind args → cancelAt ≠ some (exitAt T kind args)) :
    (∀ g, (finished T kind cancelAt args).status_group = some g →
      Terminal T kind cancelAt args g) ∧
    (history T kind cancelAt args).Pairwise StaysSettled := by
  obtain ⟨k, w, hw, hend, hreach, hlt, hbefore⟩ := finished_cases hkind hnew hrunner hstamp
  have hpoints := (wpAt_counted hkind (outline_status args hkind hnew hrunner)).1
  constructor
  · intro g hg
    rw [hend] at hg
    obtain ⟨g', hg', rfl⟩ := Option.map_eq_some_iff.mp hg
    exact terminal_cleaned hreach hlt (hw.status g' hg')
  · rw [history, List.pairwise_append]
    refine ⟨List.Pairwise.sublist passed_sublist ?_, List.pairwise_singleton _ _,
      fun p hp w' hw' => ?_⟩
    · rw [List.pairwise_iff_getElem]
      intro i j hi hj hij
      have hi' := hpoints i _ (List.getElem?_eq_getElem hi)
      have hj' := hpoints j _ (List.getElem?_eq_getElem hj)
      rw [Nat.zero_add] at hi' hj'
      exact staysSettled_of_le (Nat.le_of_lt hij) hi' hj'
    · obtain ⟨c, hc, hle⟩ := exists_of_mem_passed hp
      have hc' := hpoints c p hc
      rw [Nat.zero_add] at hc'
      rw [List.mem_singleton.mp hw']
      exact (staysSettled_of_le (hbefore c p hc hle) hc' hw).cleaned hend

/-- A test case that runs twice, fails, and is cancelled while it writes its log. -/
theorem status_settles_cancelled :
    (∃ g, (finished failing .case (some 13) (xmlRun false)).status_group = some g ∧
      Terminal failing .case (some 13) (xmlRun false) g) ∧
    (history failing .case (some 13) (xmlRun false)).Pairwise StaysSettled := by
  have hsettles : (∀ g, (finished failing .case (some 13) (xmlRun false)).status_group = some g →
      Terminal failing .case (some 13) (xmlRun false) g) ∧ _ :=
    status_settles (.inl rfl) (fun _ _ _ _ h => by cases h; decide) (fun _ _ => rfl)
      fun _ => by decide
  exact ⟨⟨_, rfl, hsettles.1 _ rfl⟩, hsettles.2⟩

end Dib
