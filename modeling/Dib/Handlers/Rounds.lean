import Dib.Handlers.Status
import Mathlib.Order.Bounds.Basic

/-!
# The rounds of a case or an executable

`Course` follows a run up to the point at which it may be cancelled. Here nothing cancels it, and
what its loop does is said in full.

* `Worker.rounds`: the executions and the sleeps of a thread; `roundsFrom`, `numRounds`: what they
  are, and how many executions;
* `RoundsEnd`, **`executions_rounds`**: the end of the loop;
* `numRounds_isLeast`, **`handler_counted`**: the number of executions is the least at which the
  loop may end; what the handlers leave and return.
-/

set_option autoImplicit false

namespace Dib

open Thread

/-! ## Statement -/

/-- An execution, whatever its command line, or a sleep. -/
def Event.round : Event → Option Event
  | .run _ outcome => some (.run none outcome)
  | .sleep seconds => some (.sleep seconds)
  | _ => none

/-- The executions and the sleeps of a thread, in order. -/
def Worker.rounds (w : Worker) : List Event := w.events.filterMap Event.round

section Loop

variable (T : TestBox) (stop_on_fail : Bool) (deadline : ℤ)

/-- Of at most `n` executions from `i` on, the number that are made. -/
def numRounds (i n : ℕ) : ℕ :=
  match lastRound T stop_on_fail deadline i n with
  | none => n
  | some m => m + 1

/-- The action at the label `exit`. -/
def actionFrom (i n : ℕ) : TestAction :=
  match lastRound T stop_on_fail deadline i n with
  | none => .done
  | some m => if StopsAt T stop_on_fail (i + m) then .stopped else .done

/-- The executions from `i` on, `n` at most, with `pause` behind each after which the loop goes
on. -/
def roundsFrom (pause : List Event) : ℕ → ℕ → List Event
  | _, 0 => []
  | i, n + 1 => .run none (T.runner i) ::
      if Breaks T stop_on_fail deadline i then [] else pause ++ roundsFrom pause (i + 1) n

/-- What the loop leaves of `w`, and its `result`. -/
structure RoundsEnd (pause : List Event) (i n : ℕ) (w : Worker) (result : ℤ) (w' : Worker) :
    Prop where
  rounds : w'.rounds = w.rounds ++ roundsFrom T stop_on_fail deadline pause i n
  result : result = 0 ↔ ∀ j < i + numRounds T stop_on_fail deadline i n, T.runner j = 0
  data : w'.data = w.data
  registered : w.Registered → w'.Registered
  action : w.status_group.isSome = true → w'.action = some (actionFrom T stop_on_fail deadline i n)

end Loop

/-- What a handler does between two executions. -/
def HandlerKind.pause (args : ThreadArgs) : HandlerKind → List Event
  | .case => [.sleep args.execution_dly_time]
  | _ => []

/-! ## The loop -/

variable {T : TestBox} {kind : HandlerKind} {args : ThreadArgs} {stop_on_fail : Bool}
  {deadline : ℤ} {w : Worker}

theorem rounds_emit {e : Event} (he : e.round = none) (w : Worker) :
    (w.emit e).rounds = w.rounds := by
  simp [Worker.rounds, Worker.emit, he]

theorem rounds_emit_run (c : Option (List Char)) (r : ℤ) (w : Worker) :
    (w.emit (.run c r)).rounds = w.rounds ++ [.run none r] := by
  simp [Worker.rounds, Worker.emit, Event.round]

theorem numRounds_succ (i n : ℕ) : numRounds T stop_on_fail deadline i (n + 1) =
    if Breaks T stop_on_fail deadline i then 1
    else numRounds T stop_on_fail deadline (i + 1) n + 1 := by
  rw [numRounds, lastRound_succ, numRounds]
  split_ifs
  · rfl
  · cases lastRound T stop_on_fail deadline (i + 1) n <;> rfl

theorem actionFrom_succ (i n : ℕ) : actionFrom T stop_on_fail deadline i (n + 1) =
    if StopsAt T stop_on_fail i then .stopped
    else if ExpiresAt T deadline i then .done
    else actionFrom T stop_on_fail deadline (i + 1) n := by
  rw [actionFrom, lastRound_succ, actionFrom]
  by_cases hs : StopsAt T stop_on_fail i
  · simp [Breaks, hs]
  by_cases he : ExpiresAt T deadline i
  · simp [Breaks, hs, he]
  · simp only [Breaks, hs, he, or_self, decide_false, Bool.false_eq_true, if_false]
    cases lastRound T stop_on_fail deadline (i + 1) n with
    | none => rfl
    | some m =>
      have hi : i + (m + 1) = i + 1 + m := by omega
      simp only [Option.map_some, hi]

theorem wp_pace {Q : Unit → Worker → Prop} : wp kind.pace (fun _ => True) Q w ↔
    Q () { w with events := w.events ++ kind.pause w.data } := by
  cases kind with
  | case =>
    simp only [HandlerKind.pace, sleepBetween, emit, wp_bind, wp_get, wp_point, wp_modify, true_and]
    rfl
  | _ => simp [HandlerKind.pace, HandlerKind.pause]

theorem rounds_pause (w : Worker) :
    Worker.rounds { w with events := w.events ++ kind.pause w.data } =
      w.rounds ++ kind.pause w.data := by
  cases kind <;> simp [Worker.rounds, HandlerKind.pause, Event.round]

theorem Worker.Registered.paced (h : w.Registered) (kind : HandlerKind) :
    Worker.Registered { w with events := w.events ++ kind.pause w.data } := by
  refine ⟨h.cleanups, ?_⟩
  rw [Worker.cleanupEvents, List.filter_append, ← Worker.cleanupEvents, h.unpopped]
  cases kind <;> rfl

theorem roundsEnd_exit {pause : List Event} {i n : ℕ} {result : ℤ} {a : TestAction} {w' : Worker}
    (hrounds : w'.rounds = w.rounds ++ roundsFrom T stop_on_fail deadline pause i n)
    (hresult : result = 0 ↔ ∀ j < i + numRounds T stop_on_fail deadline i n, T.runner j = 0)
    (hdata : w'.data = w.data) (hregistered : w.Registered → w'.Registered)
    (hstatus : w'.status_group.isSome = w.status_group.isSome)
    (ha : a = actionFrom T stop_on_fail deadline i n) :
    RoundsEnd T stop_on_fail deadline pause i n w result
      ((w'.onStatus fun g => { g with action := a }).onStatus fun g =>
        { g with endTimeStamp := T.getTimeStamp 1 }) := by
  refine ⟨hrounds, hresult, hdata, fun h => ((hregistered h).onStatus _).onStatus _,
    fun hsome => ?_⟩
  rw [← hstatus] at hsome
  obtain ⟨g, hg⟩ := Option.isSome_iff_exists.mp hsome
  simp only [Worker.action, Worker.onStatus, hg, Option.map_some, ha]

/-- **The loop**, executed to its end. -/
theorem executions_rounds (cmd : Option (List Char)) {n i : ℕ} {result : ℤ}
    (hstop : w.data.stop_on_fail = stop_on_fail) (hdeadline : w.data.execution_time = deadline)
    (hresult : result = 0 ↔ ∀ j < i, T.runner j = 0) :
    wp (executions T cmd kind.pace n i result) (fun _ => True)
      (RoundsEnd T stop_on_fail deadline (kind.pause w.data) i n w) w := by
  induction n generalizing i result w with
  | zero =>
    have hrounds : w.rounds =
        w.rounds ++ roundsFrom T stop_on_fail deadline (kind.pause w.data) i 0 := by
      rw [roundsFrom, List.append_nil]
    simp only [executions, exitRun, wp_bind, wp_get, wp_ite, emit, onStatus, wp_point, wp_modify,
      wp_pure, true_and]
    split_ifs
    · exact roundsEnd_exit ((rounds_emit rfl w).trans hrounds) hresult rfl (·.emit rfl) rfl rfl
    · exact roundsEnd_exit hrounds hresult rfl id rfl rfl
  | succ n ih =>
    have hresult' := result_succ hresult
    simp only [executions, runTest, exitRun, wp_bind, wp_get, wp_ite, emit, onStatus, wp_point,
      wp_modify, wp_pure, true_and, wp_pace]
    generalize hr' : (if T.runner i ≠ 0 then -1 else result) = result' at hresult' ⊢
    generalize hw' : (w.onStatus (T.runnerEffect i)).emit (.run cmd (T.runner i)) = w'
    have hdata : w'.data = w.data := by rw [← hw']; rfl
    have hregistered : w.Registered → w'.Registered := fun h => by
      rw [← hw']
      exact (h.onStatus _).emit rfl
    have hstatus : w'.status_group.isSome = w.status_group.isSome := by
      rw [← hw']
      exact Option.isSome_map
    have hrounds : w'.rounds = w.rounds ++ [.run none (T.runner i)] := by
      rw [← hw', rounds_emit_run]
      rfl
    have hstops : (result' ≠ 0 ∧ w'.data.stop_on_fail = true) ↔ StopsAt T stop_on_fail i := by
      rw [hdata, hstop]
      exact stops_iff hresult'
    have hexpires : (w'.data.execution_time ≠ 0 ∧
        w'.data.execution_time < T.clock_gettime (i + 1)) ↔ ExpiresAt T deadline i := by
      rw [hdata, hdeadline, ExpiresAt]
    rw [ite_breaks hstops hexpires]
    by_cases hb : Breaks T stop_on_fail deadline i
    · -- the last round
      have hlast : w'.rounds = w.rounds ++
          roundsFrom T stop_on_fail deadline (kind.pause w.data) i (n + 1) := by
        rw [hrounds, roundsFrom, if_pos hb]
      have hfails : result' = 0 ↔
          ∀ j < i + numRounds T stop_on_fail deadline i (n + 1), T.runner j = 0 := by
        rw [hresult', numRounds_succ, if_pos hb]
      rw [if_pos hb]
      by_cases hs : StopsAt T stop_on_fail i
      · rw [if_pos hs]
        exact roundsEnd_exit hlast hfails hdata hregistered hstatus
          (by rw [actionFrom_succ, if_pos hs])
      · have he : ExpiresAt T deadline i := by simpa [Breaks, hs] using hb
        rw [if_neg hs]
        exact roundsEnd_exit hlast hfails hdata hregistered hstatus
          (by rw [actionFrom_succ, if_neg hs, if_pos he])
    · obtain ⟨hs, he⟩ : ¬ StopsAt T stop_on_fail i ∧ ¬ ExpiresAt T deadline i := by
        simpa [Breaks, not_or] using hb
      rw [if_neg hb]
      generalize hw'' : ({ w' with events := w'.events ++ kind.pause w'.data } : Worker) = w''
      have hdata' : w''.data = w.data := by rw [← hw'']; exact hdata
      have hrounds' : w''.rounds = w.rounds ++ .run none (T.runner i) :: kind.pause w.data := by
        rw [← hw'', rounds_pause, hrounds, hdata]
        simp
      refine wp_mono (ih (hdata' ▸ hstop) (hdata' ▸ hdeadline) hresult') (fun _ h => h) ?_
      rintro r w₁ ⟨h1, h2, h3, h4, h5⟩
      refine ⟨?_, ?_, h3.trans hdata', ?_, fun hsome => ?_⟩
      · rw [h1, hrounds', hdata', roundsFrom, if_neg hb]
        simp
      · rw [h2, numRounds_succ, if_neg hb, Nat.add_right_comm, Nat.add_assoc]
      · refine fun h => h4 ?_
        rw [← hw'']
        exact (hregistered h).paced kind
      · rw [actionFrom_succ, if_neg hs, if_neg he]
        exact h5 (by rw [← hw'']; exact hstatus.trans hsome)

/-! ## The number of executions -/

/-- **The loop ends at the first execution at which it may**: the last one allowed, or one after
which it is left. -/
theorem numRounds_isLeast (T : TestBox) (stop_on_fail : Bool) (deadline : ℤ) (i : ℕ) {n : ℕ}
    (hn : 0 < n) :
    IsLeast {e | 1 ≤ e ∧ (e = n ∨ Breaks T stop_on_fail deadline (i + e - 1) = true)}
      (numRounds T stop_on_fail deadline i n) := by
  induction n generalizing i with
  | zero => omega
  | succ n ih =>
    rw [numRounds_succ]
    by_cases hb : Breaks T stop_on_fail deadline i = true
    · rw [if_pos hb]
      exact ⟨⟨le_rfl, .inr hb⟩, fun e he => he.1⟩
    rw [if_neg hb]
    by_cases hn' : n = 0
    · subst hn'
      exact ⟨⟨le_rfl, .inl rfl⟩, fun e he => he.1⟩
    obtain ⟨⟨h1, h2⟩, h3⟩ := ih (i + 1) (Nat.pos_of_ne_zero hn')
    have hi : ∀ e, i + 1 + e - 1 = i + (e + 1) - 1 := fun e => by omega
    refine ⟨⟨by omega, h2.imp (congrArg (· + 1)) fun h => by rwa [← hi]⟩, ?_⟩
    rintro e ⟨he1, he2⟩
    obtain ⟨e, rfl⟩ : ∃ e', e = e' + 1 := ⟨e - 1, by omega⟩
    have he : e ≠ 0 := by
      rintro rfl
      exact he2.elim (fun h => hn' (by omega)) fun h => hb (by simpa using h)
    exact Nat.succ_le_succ (h3 ⟨Nat.one_le_iff_ne_zero.mpr he,
      he2.imp (fun h => by omega) fun h => by rwa [hi]⟩)

theorem actionFrom_eq {i n : ℕ} (hn : 0 < n) : actionFrom T stop_on_fail deadline i n =
    if StopsAt T stop_on_fail (i + numRounds T stop_on_fail deadline i n - 1) then .stopped
    else .done := by
  induction n generalizing i with
  | zero => omega
  | succ n ih =>
    rw [actionFrom_succ, numRounds_succ]
    by_cases hb : Breaks T stop_on_fail deadline i = true
    · rw [if_pos hb, Nat.add_sub_cancel]
      by_cases hs : StopsAt T stop_on_fail i
      · rw [if_pos hs, if_pos hs]
      · have he : ExpiresAt T deadline i := by simpa [Breaks, hs] using hb
        rw [if_neg hs, if_neg hs, if_pos he]
    · obtain ⟨hs, he⟩ : ¬ StopsAt T stop_on_fail i ∧ ¬ ExpiresAt T deadline i := by
        simpa [Breaks, not_or] using hb
      rw [if_neg hs, if_neg he, if_neg hb]
      by_cases hn' : n = 0
      · subst hn'
        have hi : i + (numRounds T stop_on_fail deadline (i + 1) 0 + 1) - 1 = i := rfl
        rw [hi, if_neg hs]
        rfl
      · have hi : ∀ e, i + 1 + e - 1 = i + (e + 1) - 1 := fun e => by omega
        rw [ih (Nat.pos_of_ne_zero hn'), hi]

/-- The outcomes of the executions. -/
def Event.outcome : Event → Option ℤ
  | .run _ outcome => some outcome
  | _ => none

theorem outcomes_eq (w : Worker) : w.outcomes = w.rounds.filterMap Event.outcome := by
  rw [Worker.outcomes, Worker.rounds, List.filterMap_filterMap]
  congr 1
  funext e
  cases e <;> rfl

theorem outcome_pause : (kind.pause args).filterMap Event.outcome = [] := by
  cases kind <;> rfl

theorem outcomes_roundsFrom {i n : ℕ} :
    (roundsFrom T stop_on_fail deadline (kind.pause args) i n).filterMap Event.outcome =
      (List.range' i (numRounds T stop_on_fail deadline i n)).map T.runner := by
  induction n generalizing i with
  | zero => rfl
  | succ n ih =>
    rw [roundsFrom, numRounds_succ]
    split_ifs with hb
    · rfl
    · rw [List.range'_succ, List.map_cons, ← ih, List.filterMap_cons, List.filterMap_append,
        outcome_pause]
      rfl

/-! ## The handlers -/

theorem rounds_looping {g : StatusGroup} : (Worker.looping T args g).rounds = [] := by
  cases h1 : args.gen_xml_file <;> cases h2 : args.wait_for_response <;>
    simp [Worker.looping, Worker.setDeadline, Worker.started, Worker.running, Worker.begun,
      Worker.register, Worker.onStatus, Worker.rounds, Worker.emit, Event.round, h1, h2]

@[simp] theorem rounds_cleanup (c : Cleanup) (w : Worker) :
    (w.cleanup T c).rounds = w.rounds := by
  cases c
  · exact rounds_emit rfl w
  · exact rounds_emit rfl _

@[simp] theorem rounds_pop (c : Cleanup) (w : Worker) : (w.pop T c).rounds = w.rounds := by
  unfold Worker.pop
  split_ifs
  · rfl
  split
  · exact rounds_emit rfl w
  split_ifs
  · rw [rounds_cleanup]
    exact rounds_emit rfl _
  · exact rounds_emit rfl w

theorem rounds_finalized (w : Worker) : (w.finalized T args).rounds = w.rounds := by
  simp only [Worker.finalized, Worker.popped, rounds_pop]
  split_ifs
  · rw [rounds_emit rfl, rounds_emit rfl]
  · rw [rounds_emit rfl]

theorem wp_runCounted (kind : HandlerKind) {Q : ℤ → Worker → Prop} {g : StatusGroup}
    {cmd : Option (List Char)}
    (hnode : T.tb_status_add_group_node args.node_name 1 args.loops = some g)
    (hsuite : T.tb_status_add_suite_bucket 0 = true)
    (hcase : T.tb_status_add_testcase_bucket = true)
    (hQ : wp (executions T cmd kind.pace args.loops.toNat 0 0) (fun _ => True) Q
      (.looping T args g)) :
    wp (runCounted T cmd kind.pace) (fun _ => True) Q (.begun args) := by
  simp only [runCounted, withStatusGroup, wp_bind, wp_get, wp_point, begun_data, hnode, wp_modify,
    hsuite, hcase, not_true_eq_false, if_false, startRun, onStatus, true_and]
  change wp (beginLoop T) _ _ (Worker.started T args g)
  rw [← wpAt_true_iff (k := 0)]
  refine wpAt_beginLoop rfl (fun _ => trivial) ?_
  exact hQ

theorem wp_body (hkind : kind = .case ∨ kind = .executable) (hs : SetsUp T kind args)
    {Q : ℤ → Worker → Prop} (hQ : ∀ g, wp (executions T (kind.command args) kind.pace
      args.loops.toNat 0 0) (fun _ => True) Q (.looping T args g)) :
    wp (body T kind) (fun _ => True) Q (.begun args) := by
  obtain ⟨hnode, hsuite, hcase⟩ := hs
  obtain ⟨g, hg⟩ := Option.isSome_iff_exists.mp hnode
  rcases hkind with rfl | rfl
  · have hg' : (if T.found .case args.node_name then
        T.tb_status_add_group_node args.node_name 1 args.loops else none) = some g := hg
    obtain ⟨hfound, hadd⟩ := Option.ite_none_right_eq_some.mp hg'
    have hlookup : T.tb_case_lookupnode args.node_name = true := hfound
    simp only [body, caseBody, wp_bind, wp_get, wp_point, begun_data, hlookup, not_true_eq_false,
      wp_ite, if_false, true_and]
    exact wp_runCounted .case hadd hsuite hcase (hQ g)
  · simp only [body, executableBody, wp_bind, wp_get, begun_data]
    exact wp_runCounted .executable hg hsuite hcase (hQ g)

/-- What a case or an executable leaves that sets up and is not cancelled: its rounds, its `result`
and its status node. -/
structure CountedEnd (T : TestBox) (kind : HandlerKind) (args : ThreadArgs) (result : ℤ)
    (w : Worker) : Prop where
  rounds : w.rounds = roundsFrom T args.stop_on_fail (args.deadline T) (kind.pause args) 0
    args.loops.toNat
  result : result = 0 ↔
    ∀ j < numRounds T args.stop_on_fail (args.deadline T) 0 args.loops.toNat, T.runner j = 0
  wait : w.data.wait_for_response = args.wait_for_response
  registered : w.Registered
  action : w.action = some (exitAction T args)

theorem exitAction_eq (T : TestBox) (args : ThreadArgs) : exitAction T args =
    actionFrom T args.stop_on_fail (args.deadline T) 0 args.loops.toNat := by
  unfold exitAction actionFrom lastOf
  cases lastRound T args.stop_on_fail (args.deadline T) 0 args.loops.toNat with
  | none => rfl
  | some m =>
    show (if StopsAt T args.stop_on_fail m then TestAction.stopped else .done) =
      if StopsAt T args.stop_on_fail (0 + m) then .stopped else .done
    rw [Nat.zero_add]

theorem body_counted (hkind : kind = .case ∨ kind = .executable) (hs : SetsUp T kind args) :
    wp (body T kind) (fun _ => True) (CountedEnd T kind args) (.begun args) := by
  refine wp_body hkind hs fun g => ?_
  have hpause : kind.pause (Worker.looping T args g).data = kind.pause args := by
    cases kind <;> rfl
  have hlooping : (Worker.looping T args g).status_group.isSome = true := by
    rw [Worker.looping]
    split_ifs <;> rfl
  have hresult : (0 : ℤ) = 0 ↔ ∀ j < 0, T.runner j = 0 := by simp
  have hloop : wp (executions T (kind.command args) kind.pace args.loops.toNat 0 0) (fun _ => True)
      (RoundsEnd T args.stop_on_fail (args.deadline T) (kind.pause (Worker.looping T args g).data) 0
        args.loops.toNat (.looping T args g)) (.looping T args g) :=
    executions_rounds _ rfl rfl hresult
  refine wp_mono hloop (fun _ h => h) ?_
  rintro r w ⟨h1, h2, h3, h4, h5⟩
  rw [rounds_looping, hpause, List.nil_append] at h1
  rw [Nat.zero_add] at h2
  refine ⟨h1, h2, ?_, h4 (registered_looping T args g), ?_⟩
  · rw [h3]
    rfl
  · rw [exitAction_eq]
    exact h5 hlooping

/-- **A case or an executable**, executed to its end. -/
theorem handler_counted (hkind : kind = .case ∨ kind = .executable) (hs : SetsUp T kind args) :
    ∃ r w, CountedEnd T kind args r w ∧ (body T kind (.begun args)).value = r ∧
      run (handler T kind) none (.start args) =
        .returned (if args.wait_for_response then some r else none) (w.finalized T args) := by
  obtain ⟨-, hbody⟩ := body_counted hkind hs
  refine ⟨_, _, hbody, rfl, ?_⟩
  let Q : ℕ → Option ℤ → Worker → Prop := fun _ ret w =>
    ret = (if args.wait_for_response then some (body T kind (.begun args)).value else none) ∧
      w = (body T kind (.begun args)).final.finalized T args
  have hwrap : Wraps T args (fun _ _ => True) Q
      (0 + args.clientCalls + numPoints (body T kind) (.begun args))
      (body T kind (.begun args)).value (body T kind (.begun args)).final :=
    ⟨fun _ => ⟨trivial, trivial⟩, rfl, rfl⟩
  have hhandler : wpAt (withCleanup T (body T kind)) (fun _ _ => True) Q 0 (.start args) :=
    wpAt_withCleanup (fun _ => trivial) ⟨fun _ _ _ => trivial, wpAt_finalize hbody.wait hwrap⟩
  obtain ⟨-, hret, hw⟩ := hhandler
  rw [← handler_eq] at hret hw
  rw [run_of_uncut (fun c hc => by cases hc), hret, hw]

/-! ## How often the test is executed -/

/-- `execution_time` seconds have passed since the start. -/
def TimeUp (T : TestBox) (args : ThreadArgs) (e : ℕ) : Prop :=
  args.execution_time ≠ 0 ∧ T.clock_gettime 0 + args.execution_time < T.clock_gettime e

/-- The `e`-th execution is the last one allowed, fails under `stop_on_fail`, or ends after the time
has run out. -/
def MayEnd (T : TestBox) (args : ThreadArgs) (e : ℕ) : Prop :=
  e = args.loops.toNat ∨ (args.stop_on_fail = true ∧ T.runner (e - 1) ≠ 0) ∨ TimeUp T args e

/-- The handler, not cancelled, executes the test `E` times; its `result` is 0 if all passed, and
the run is stopped if the last one failed under `stop_on_fail`. -/
def Executes (T : TestBox) (kind : HandlerKind) (args : ThreadArgs) (E : ℕ) : Prop :=
  ∃ result w, (body T kind (.begun args)).value = result ∧
    run (handler T kind) none (.start args) =
      .returned (if args.wait_for_response then some result else none) w ∧
    w.outcomes = (List.range E).map T.runner ∧ (result = 0 ↔ ∀ j < E, T.runner j = 0) ∧
    w.action = some (if args.stop_on_fail = true ∧ T.runner (E - 1) ≠ 0 then .stopped else .done)

/-- The deadline replaces the duration, and is not 0 either: the clock counts the seconds from
1970 on. -/
theorem expiresAt_iff (hexact : ∀ n, T.narrow n = n) (hclock : 0 ≤ T.clock_gettime 0)
    (htime : 0 ≤ args.execution_time) (i : ℕ) :
    ExpiresAt T (args.deadline T) i ↔ TimeUp T args (i + 1) := by
  unfold ExpiresAt TimeUp ThreadArgs.deadline
  split_ifs with h
  · rw [hexact, Int.add_comm args.execution_time]
    have hdeadline : T.clock_gettime 0 + args.execution_time ≠ 0 := by omega
    simp [h, hdeadline]
  · simp [h]

theorem stopsAt_last (T : TestBox) (stop_on_fail : Bool) (deadline : ℤ) {n : ℕ} (hn : 0 < n) :
    StopsAt T stop_on_fail (numRounds T stop_on_fail deadline 0 n - 1) ↔
      stop_on_fail = true ∧ T.runner (numRounds T stop_on_fail deadline 0 n - 1) ≠ 0 := by
  obtain ⟨⟨h1, -⟩, h2⟩ := numRounds_isLeast T stop_on_fail deadline 0 hn
  constructor
  · rintro ⟨hstop, j, hj, hfail⟩
    -- the loop ends at the first failure
    have hbreaks : Breaks T stop_on_fail deadline (0 + (j + 1) - 1) = true := by
      have hs : StopsAt T stop_on_fail j := ⟨hstop, j, le_rfl, hfail⟩
      simp [Breaks, hs]
    have hle := h2 ⟨Nat.succ_pos j, .inr hbreaks⟩
    have hj' : numRounds T stop_on_fail deadline 0 n - 1 = j := by omega
    rw [hj']
    exact ⟨hstop, hfail⟩
  · rintro ⟨hstop, hfail⟩
    exact ⟨hstop, _, le_rfl, hfail⟩

theorem numRounds_isLeast_mayEnd (hloops : 1 ≤ args.loops) (hexact : ∀ n, T.narrow n = n)
    (hclock : 0 ≤ T.clock_gettime 0) (htime : 0 ≤ args.execution_time) :
    IsLeast {e | 1 ≤ e ∧ MayEnd T args e}
      (numRounds T args.stop_on_fail (args.deadline T) 0 args.loops.toNat) := by
  have hn : 0 < args.loops.toNat := by omega
  have hexpires := expiresAt_iff hexact hclock htime
  obtain ⟨⟨h1, h2⟩, h3⟩ := numRounds_isLeast T args.stop_on_fail (args.deadline T) 0 hn
  refine ⟨⟨h1, h2.imp_right fun hb => ?_⟩, fun e he => h3 ⟨he.1, he.2.imp_right fun h => ?_⟩⟩
  · rw [Nat.zero_add, Breaks, decide_eq_true_iff, hexpires, Nat.sub_add_cancel h1,
      stopsAt_last _ _ _ hn] at hb
    exact hb
  · rw [Nat.zero_add, Breaks, decide_eq_true_iff, hexpires, Nat.sub_add_cancel he.1]
    exact h.imp_left fun hstop => ⟨hstop.1, e - 1, le_rfl, hstop.2⟩

theorem action_finalized (hreg : w.Registered) {a : TestAction} (ha : w.action = some a)
    (hsettled : a.Settled) : (w.finalized T args).action = some a := by
  obtain ⟨g, hg, rfl⟩ := Option.map_eq_some_iff.mp ha
  rw [Worker.action, status_finalized hreg, hg, Option.map_some, Option.map_some,
    cleaned_of_settled hsettled]

/-- **The execution loop.** A case or an executable that has set up and is not cancelled executes
its test up to the first execution at which it may end. -/
theorem executes_least (hkind : kind = .case ∨ kind = .executable) (hs : SetsUp T kind args)
    (hloops : 1 ≤ args.loops) (hexact : ∀ n, T.narrow n = n) (hclock : 0 ≤ T.clock_gettime 0)
    (htime : 0 ≤ args.execution_time) :
    ∃ E, IsLeast {e | 1 ≤ e ∧ MayEnd T args e} E ∧ Executes T kind args E := by
  obtain ⟨r, w, hend, hvalue, hrun⟩ := handler_counted hkind hs
  refine ⟨_, numRounds_isLeast_mayEnd hloops hexact hclock htime, r, w.finalized T args, hvalue,
    hrun, ?_, hend.result, ?_⟩
  · rw [outcomes_eq, rounds_finalized, hend.rounds, outcomes_roundsFrom, ← List.range_eq_range']
  · have hn : 0 < args.loops.toNat := by omega
    rw [action_finalized hend.registered hend.action exitAction_settled, exitAction_eq,
      actionFrom_eq hn, Nat.zero_add]
    exact congrArg some (if_congr (stopsAt_last _ _ _ hn) rfl rfl)

/-- The test case `t` is registered, and passes; a second passes with each reading of the clock. -/
def passing : TestBox :=
  { noCase with tb_case_lookupnode := fun _ => true, clock_gettime := fun e => e }

/-- Run `t` up to five times, for two seconds. -/
def timedRun : ThreadArgs := ⟨3, 0, true, 5, false, false, 2, 0, ['t'], [['t']]⟩

theorem executes_timedRun : SetsUp passing .case timedRun ∧
    ∃ E, IsLeast {e | 1 ≤ e ∧ MayEnd passing timedRun e} E ∧
      Executes passing .case timedRun E := by
  have hs : SetsUp passing .case timedRun := by decide
  exact ⟨hs, executes_least (.inl rfl) hs (by decide) (fun _ => rfl) (by decide) (by decide)⟩

end Dib
