import Dib.Handlers.Cleanup

/-!
# The course of a case or an executable

Which calls the two handlers make, and in which order, follows from the answers they get.

* `Breaks`, `lastRound`: the round of the loop after which it is left, if one is;
* `IsPace`, **`wpAt_executions`**: the rule of the loop: an invariant, what its points need, and
  what follows at its end;
* `SetsUp`, `loopAt`, `exitAt`, `callsOf`: whether the loop is reached, and the numbers of the calls
  at its begin, at the label `exit` and at the end.
-/

set_option autoImplicit false

namespace Dib

open Thread

/-! ## The loop -/

section Loop

/-- Execution `i` or an earlier one has failed, and failures stop the run. -/
def StopsAt (T : TestBox) (stop_on_fail : Bool) (i : ℕ) : Prop :=
  stop_on_fail = true ∧ ∃ j ≤ i, T.runner j ≠ 0

instance (T : TestBox) (stop_on_fail : Bool) (i : ℕ) : Decidable (StopsAt T stop_on_fail i) :=
  inferInstanceAs (Decidable (_ ∧ ∃ j, j ≤ i ∧ _))

/-- The deadline, if there is one, has passed after execution `i`. -/
def ExpiresAt (T : TestBox) (deadline : ℤ) (i : ℕ) : Prop :=
  deadline ≠ 0 ∧ deadline < T.clock_gettime (i + 1)

instance (T : TestBox) (deadline : ℤ) (i : ℕ) : Decidable (ExpiresAt T deadline i) :=
  inferInstanceAs (Decidable (_ ∧ _))

/-- The loop is left after execution `i`. -/
def Breaks (T : TestBox) (stop_on_fail : Bool) (deadline : ℤ) (i : ℕ) : Bool :=
  StopsAt T stop_on_fail i ∨ ExpiresAt T deadline i

/-- Of the executions from `i` on, `n` at most, how many are followed by another one before the loop
is left; `none` if it is not left early. -/
def lastRound (T : TestBox) (stop_on_fail : Bool) (deadline : ℤ) (i n : ℕ) : Option ℕ :=
  (List.range' i n).findIdx? (Breaks T stop_on_fail deadline)

variable {T : TestBox} {stop_on_fail : Bool} {deadline : ℤ} {w : Worker} {k : ℕ}

theorem lastRound_zero (i : ℕ) : lastRound T stop_on_fail deadline i 0 = none := rfl

theorem lastRound_succ (i n : ℕ) : lastRound T stop_on_fail deadline i (n + 1) =
    if Breaks T stop_on_fail deadline i then some 0
    else (lastRound T stop_on_fail deadline (i + 1) n).map (· + 1) := by
  rw [lastRound, List.range'_succ, List.findIdx?_cons]
  rfl

/-- `pace` makes `p` calls and keeps `J`. -/
def IsPace (J : Worker → Prop) (p : ℕ) (pace : Thread Worker Unit) : Prop :=
  ∀ (C : ℕ → Worker → Prop) (Q : ℕ → Unit → Worker → Prop) (k : ℕ) (w : Worker), J w →
    (∀ c, k ≤ c → c < k + p → C c w) → (∀ w', J w' → Q (k + p) () w') → wpAt pace C Q k w

theorem isPace_pure (J : Worker → Prop) : IsPace J 0 (pure ()) :=
  fun _ _ _ w hw _ hQ => (wpAt_pure _ _).mpr (hQ w hw)

theorem isPace_sleepBetween {J : Worker → Prop} (hJ : ∀ w s, J w → J (w.emit (.sleep s))) :
    IsPace J 1 sleepBetween := by
  intro C Q k w hw hC hQ
  simp only [sleepBetween, emit, wpAt_bind, wpAt_get, wpAt_point, wpAt_modify]
  exact ⟨hC k (Nat.le_refl k) (Nat.lt_succ_self k), hQ _ (hJ w _ hw)⟩

/-- The calls of the rounds of a loop, `p + 1` in each but the one that is left. -/
def roundCalls (p n : ℕ) : Option ℕ → ℕ
  | none => n * (p + 1)
  | some m => m * (p + 1) + 1

theorem roundCalls_succ (p n : ℕ) (m : Option ℕ) :
    roundCalls p (n + 1) (m.map (· + 1)) = p + 1 + roundCalls p n m := by
  cases m with
  | none =>
    show (n + 1) * (p + 1) = p + 1 + n * (p + 1)
    rw [Nat.succ_mul, Nat.add_comm]
  | some m =>
    show (m + 1) * (p + 1) + 1 = p + 1 + (m * (p + 1) + 1)
    rw [Nat.succ_mul]
    omega

theorem result_succ {i : ℕ} {result : ℤ} (hresult : result = 0 ↔ ∀ j < i, T.runner j = 0) :
    (if T.runner i ≠ 0 then -1 else result) = 0 ↔ ∀ j < i + 1, T.runner j = 0 := by
  rw [Nat.forall_lt_succ_right]
  split_ifs with h
  · exact iff_of_false (by decide) fun h' => h h'.2
  · rw [hresult]
    exact (and_iff_left (not_not.mp h)).symm

theorem stops_iff {i : ℕ} {result : ℤ} (hresult : result = 0 ↔ ∀ j < i + 1, T.runner j = 0) :
    (result ≠ 0 ∧ stop_on_fail = true) ↔ StopsAt T stop_on_fail i := by
  rw [StopsAt, and_comm, Ne, hresult]
  simp only [Nat.lt_succ_iff, not_forall, exists_prop]

theorem ite_breaks {α : Type} {A B : Prop} [Decidable A] [Decidable B] {i : ℕ}
    (hstops : A ↔ StopsAt T stop_on_fail i) (hexpires : B ↔ ExpiresAt T deadline i) (x y z : α) :
    (if A then x else if B then y else z) =
      if Breaks T stop_on_fail deadline i then (if StopsAt T stop_on_fail i then x else y)
      else z := by
  by_cases hs : StopsAt T stop_on_fail i
  · have hb : Breaks T stop_on_fail deadline i = true := by simp [Breaks, hs]
    rw [if_pos (hstops.mpr hs), if_pos hb, if_pos hs]
  · by_cases he : ExpiresAt T deadline i
    · have hb : Breaks T stop_on_fail deadline i = true := by simp [Breaks, he]
      rw [if_neg (hstops.not.mpr hs), if_pos (hexpires.mpr he), if_pos hb, if_neg hs]
    · have hb : ¬ Breaks T stop_on_fail deadline i = true := by simp [Breaks, hs, he]
      rw [if_neg (hstops.not.mpr hs), if_neg (hexpires.not.mpr he), if_neg hb]

/-- What follows after the last round. -/
def afterRounds (T : TestBox) (stop_on_fail : Bool) (cmd : Option (List Char))
    (pace : Thread Worker Unit) (i n : ℕ) (result : ℤ) : Option ℕ → Thread Worker ℤ
  | none => executions T cmd pace 0 (i + n) result
  | some m => exitRun T (if StopsAt T stop_on_fail (i + m) then .stopped else .done) result

/-- **The rule of the loop.** `J` is kept by a run of the test and by the pace, `C` holds of the
points where `J` does, and after the rounds the loop goes on as `afterRounds` says. -/
theorem wpAt_executions {J : Worker → Prop} {p : ℕ} {cmd : Option (List Char)}
    {pace : Thread Worker Unit} {C : ℕ → Worker → Prop} {Q : ℕ → ℤ → Worker → Prop}
    (hp : IsPace J p pace)
    (hrun : ∀ i w, J w → J ((w.onStatus (T.runnerEffect i)).emit (.run cmd (T.runner i))))
    (hdata : ∀ w, J w → w.data.stop_on_fail = stop_on_fail ∧ w.data.execution_time = deadline)
    {n i : ℕ} {result : ℤ} (hresult : result = 0 ↔ ∀ j < i, T.runner j = 0) (hw : J w)
    (hC : ∀ c w', J w' → k ≤ c →
      c < k + roundCalls p n (lastRound T stop_on_fail deadline i n) → C c w')
    (hend : ∀ w' r, J w' →
      wpAt (afterRounds T stop_on_fail cmd pace i n r (lastRound T stop_on_fail deadline i n)) C Q
        (k + roundCalls p n (lastRound T stop_on_fail deadline i n)) w') :
    wpAt (executions T cmd pace n i result) C Q k w := by
  induction n generalizing i k result w with
  | zero =>
    rw [lastRound_zero] at hend
    simpa [afterRounds, roundCalls] using hend w result hw
  | succ n ih =>
    rw [lastRound_succ] at hC hend
    simp only [executions, runTest, emit, onStatus, wpAt_bind, wpAt_point, wpAt_modify, wpAt_pure,
      wpAt_get]
    generalize hw' : (w.onStatus (T.runnerEffect i)).emit (.run cmd (T.runner i)) = w'
    -- `result` tells whether an execution has failed so far
    have hresult' := result_succ hresult
    generalize hr' : (if T.runner i ≠ 0 then -1 else result) = result' at hresult' ⊢
    have hJ : J w' := hw' ▸ hrun i w hw
    obtain ⟨hstop, hdeadline⟩ := hdata w' hJ
    have hstops : (result' ≠ 0 ∧ w'.data.stop_on_fail = true) ↔ StopsAt T stop_on_fail i := by
      rw [hstop]
      exact stops_iff hresult'
    have hexpires : (w'.data.execution_time ≠ 0 ∧
        w'.data.execution_time < T.clock_gettime (i + 1)) ↔ ExpiresAt T deadline i := by
      rw [hdeadline, ExpiresAt]
    rw [ite_breaks hstops hexpires]
    by_cases hb : Breaks T stop_on_fail deadline i
    · rw [if_pos hb] at hC hend ⊢
      refine ⟨hC k w hw (Nat.le_refl k) (by simp [roundCalls]), ?_⟩
      have hexit := hend w' result' hJ
      simpa only [afterRounds, roundCalls, Nat.add_zero, Nat.zero_mul, Nat.zero_add,
        apply_ite (exitRun T · result')] using hexit
    · rw [if_neg hb, roundCalls_succ] at hC hend
      refine ⟨hC k w hw (Nat.le_refl k) (by omega), ?_⟩
      rw [if_neg hb, wpAt_bind]
      refine hp _ _ _ _ hJ (fun c h1 h2 => hC c w' hJ (by omega) (by omega)) fun w₁ hw₁ => ?_
      refine ih hresult' hw₁ (fun c w₂ hw₂ h1 h2 => hC c w₂ hw₂ (by omega) (by omega))
        fun w₂ r hw₂ => ?_
      have hexit := hend w₂ r hw₂
      cases hl : lastRound T stop_on_fail deadline (i + 1) n with
      | none =>
        rw [hl] at hexit
        have hk : k + 1 + p + roundCalls p n none = k + (p + 1 + roundCalls p n none) := by omega
        rw [hk]
        exact hexit
      | some m =>
        rw [hl] at hexit
        have hk : k + 1 + p + roundCalls p n (some m) = k + (p + 1 + roundCalls p n (some m)) := by
          omega
        have hi : i + 1 + m = i + (m + 1) := by omega
        rw [hk, afterRounds, hi]
        exact hexit

end Loop

/-! ## The calls -/

variable {T : TestBox} {kind : HandlerKind} {args : ThreadArgs} {w : Worker} {k : ℕ}

/-- A case or an executable gets everything that it needs for its loop. -/
def SetsUp (T : TestBox) (kind : HandlerKind) (args : ThreadArgs) : Prop :=
  (T.node kind args).isSome = true ∧ T.tb_status_add_suite_bucket 0 = true ∧
    T.tb_status_add_testcase_bucket = true

instance (T : TestBox) (kind : HandlerKind) (args : ThreadArgs) : Decidable (SetsUp T kind args) :=
  inferInstanceAs (Decidable (_ ∧ _ ∧ _))

/-- What `execution_time` is in the loop. -/
def ThreadArgs.deadline (T : TestBox) (args : ThreadArgs) : ℤ :=
  if args.execution_time ≠ 0 then T.narrow (args.execution_time + T.clock_gettime 0) else 0

/-- The round after which the loop is left, if it is. -/
def lastOf (T : TestBox) (args : ThreadArgs) : Option ℕ :=
  lastRound T args.stop_on_fail (args.deadline T) 0 args.loops.toNat

/-- The action at the label `exit`. -/
def exitAction (T : TestBox) (args : ThreadArgs) : TestAction :=
  match lastOf T args with
  | none => .done
  | some m => if StopsAt T args.stop_on_fail m then .stopped else .done

/-- `suite_start_message_handler` or `suite_end_message_handler`. -/
def ThreadArgs.xmlCalls (args : ThreadArgs) : ℕ := if args.gen_xml_file then 1 else 0

/-- A case sleeps between two executions. -/
def HandlerKind.paceCalls : HandlerKind → ℕ
  | .case => 1
  | _ => 0

/-- The calls before `tb_status_add_group_node`. -/
def nodeAt (kind : HandlerKind) (args : ThreadArgs) : ℕ := args.clientCalls + kind.lookupCalls

/-- The calls before the loop: the node, two buckets, a time stamp and the start of the suite. -/
def loopAt (kind : HandlerKind) (args : ThreadArgs) : ℕ := nodeAt kind args + 4 + args.xmlCalls

/-- The calls before the last time stamp: the rounds, and the end of the suite unless the loop is
left early. -/
def exitAt (T : TestBox) (kind : HandlerKind) (args : ThreadArgs) : ℕ :=
  loopAt kind args + roundCalls kind.paceCalls args.loops.toNat (lastOf T args) +
    if lastOf T args = none then args.xmlCalls else 0

theorem loopAt_le_exitAt : loopAt kind args ≤ exitAt T kind args :=
  Nat.le_trans (Nat.le_add_right _ _) (Nat.le_add_right _ _)

/-- The calls of a body whose set-up fails: up to the one that fails, and the log of the error. -/
def failedCalls (T : TestBox) (kind : HandlerKind) (args : ThreadArgs) : ℕ :=
  if (T.node kind args).isSome then
    nodeAt kind args + (if T.tb_status_add_suite_bucket 0 then 4 else 3)
  else nodeAt kind args + (if T.found kind args.node_name then 1 else 0) + 1

/-- All calls of a case or an executable. -/
def callsOf (T : TestBox) (kind : HandlerKind) (args : ThreadArgs) : ℕ :=
  (if SetsUp T kind args then exitAt T kind args + 1 else failedCalls T kind args) +
    2 * args.clientCalls

/-- What a case or an executable does between two executions. -/
def HandlerKind.pace : HandlerKind → Thread Worker Unit
  | .case => sleepBetween
  | _ => pure ()

/-- The command line that is run. -/
def HandlerKind.command (args : ThreadArgs) : HandlerKind → Option (List Char)
  | .executable => some (commandLine args.argv)
  | _ => none

theorem isPace_pace {J : Worker → Prop} (hJ : ∀ w s, J w → J (w.emit (.sleep s))) :
    IsPace J kind.paceCalls kind.pace := by
  cases kind with
  | case => exact isPace_sleepBetween hJ
  | _ => exact isPace_pure J

/-! ## The states -/

namespace Worker

/-- The status node says that the run has started. -/
def running (args : ThreadArgs) (g : StatusGroup) : Worker :=
  ((begun args).register g).onStatus fun g =>
    { g with verbose_level := args.verbose_level, action := .running }

def started (T : TestBox) (args : ThreadArgs) (g : StatusGroup) : Worker :=
  (running args g).onStatus fun g => { g with startTimeStamp := T.getTimeStamp 0 }

/-- `data->execution_time += ts.tv_sec`, unless it is 0. -/
def setDeadline (T : TestBox) (args : ThreadArgs) (w : Worker) : Worker :=
  { w with data := { args with execution_time := args.deadline T } }

/-- The thread when its loop begins. -/
def looping (T : TestBox) (args : ThreadArgs) (g : StatusGroup) : Worker :=
  (if args.gen_xml_file then (started T args g).emit (.suiteStart args.node_name)
    else started T args g).setDeadline T args

/-- The thread at the label `exit`. -/
def looped (T : TestBox) (args : ThreadArgs) (w : Worker) : Worker :=
  (if lastOf T args = none ∧ args.gen_xml_file then w.emit .suiteEnd else w).onStatus fun g =>
    { g with action := exitAction T args }

def exited (T : TestBox) (args : ThreadArgs) (w : Worker) : Worker :=
  (w.looped T args).onStatus fun g => { g with endTimeStamp := T.getTimeStamp 1 }

/-- The thread when it returns. -/
def finalized (T : TestBox) (args : ThreadArgs) (w : Worker) : Worker :=
  ((if args.wait_for_response then w.emit .clientRemove else w).emit .freeArgs).popped T

end Worker

/-! ## The rule -/

section Rule

variable (T : TestBox) (kind : HandlerKind) (args : ThreadArgs) (C : ℕ → Worker → Prop)
  (Q : ℕ → Option ℤ → Worker → Prop)

/-- `C` and `Q` hold when the body ends after `n` calls, with `result`, in `w`. -/
def Wraps (n : ℕ) (result : ℤ) (w : Worker) : Prop :=
  (args.wait_for_response = true → C n w ∧ C (n + 1) w) ∧
    Q (n + 2 * args.clientCalls) (if args.wait_for_response then some result else none)
      (w.finalized T args)

/-- `C` holds of every call of a case or an executable, and `Q` of its end. `J` is an invariant of
the loop. -/
structure Outline (J : Worker → Prop) : Prop where
  pushed : args.wait_for_response = true → C 0 (.pushed args)
  begun : ∀ c ≤ nodeAt kind args + 1, C c (.begun args)
  unregistered : T.node kind args = none →
    Wraps T args C Q (failedCalls T kind args) (-1) (.begun args)
  registered : ∀ g, T.node kind args = some g → ∀ c, nodeAt kind args < c →
    (SetsUp T kind args → c < nodeAt kind args + 3) → C c ((Worker.begun args).register g)
  failed : ∀ g, T.node kind args = some g → ¬ SetsUp T kind args →
    Wraps T args C Q (failedCalls T kind args) (-1) ((Worker.begun args).register g)
  running : ∀ g, T.node kind args = some g → SetsUp T kind args →
    C (nodeAt kind args + 3) (.running args g)
  started : ∀ g, T.node kind args = some g → SetsUp T kind args → args.gen_xml_file = true →
    C (nodeAt kind args + 4) (.started T args g)
  looping : ∀ g, T.node kind args = some g → SetsUp T kind args → J (.looping T args g)
  sleep : ∀ w s, J w → J (w.emit (.sleep s))
  run : ∀ i w cmd, J w → J ((w.onStatus (T.runnerEffect i)).emit (.run cmd (T.runner i)))
  round : SetsUp T kind args → ∀ c w, J w → loopAt kind args ≤ c → c < exitAt T kind args → C c w
  exit : SetsUp T kind args → ∀ w, J w → C (exitAt T kind args) (w.looped T args)
  wrapup : SetsUp T kind args → ∀ w r, J w →
    Wraps T args C Q (exitAt T kind args + 1) r (w.exited T args)

end Rule

variable {C : ℕ → Worker → Prop} {Q : ℕ → Option ℤ → Worker → Prop} {J : Worker → Prop}

theorem wpAt_finalize {result : ℤ} (hdata : w.data.wait_for_response = args.wait_for_response)
    (h : Wraps T args C Q k result w) :
    wpAt (finalizeThread result) C (fun n ret w => Q n ret (w.popped T)) k w := by
  obtain ⟨hC, hQ⟩ := h
  simp only [finalizeThread, wpAt_bind, wpAt_get, wpAt_ite, hdata]
  cases hwait : args.wait_for_response with
  | true =>
    simp only [ThreadArgs.clientCalls, Worker.finalized, hwait, if_true] at hQ
    simpa [emit] using ⟨(hC hwait).1, (hC hwait).2, hQ⟩
  | false =>
    simp only [ThreadArgs.clientCalls, Worker.finalized, hwait, Bool.false_eq_true, if_false] at hQ
    simpa [emit] using hQ

theorem setDeadline_of_eq_zero (hdata : w.data = args) (h : args.execution_time = 0) :
    w.setDeadline T args = w := by
  have hzero : args.deadline T = args.execution_time := by rw [ThreadArgs.deadline, h]; rfl
  rw [Worker.setDeadline, hzero, ← hdata]

theorem wpAt_deadline {D : ℕ → Unit → Worker → Prop} (hdata : w.data = args)
    (hD : D k () (w.setDeadline T args)) :
    wpAt (if args.execution_time ≠ 0 then modify fun w => { w with data := { w.data with
      execution_time := T.narrow (w.data.execution_time + T.clock_gettime 0) } }
      else pure ()) C D k w := by
  rw [wpAt_ite]
  split_ifs with h
  · rw [Worker.setDeadline, ThreadArgs.deadline, if_pos h] at hD
    rw [wpAt_modify, hdata]
    exact hD
  · rw [setDeadline_of_eq_zero hdata (not_not.mp h)] at hD
    exact (wpAt_pure _ _).mpr hD

theorem wpAt_beginLoop {D : ℕ → Unit → Worker → Prop} (hdata : w.data = args)
    (hC : args.gen_xml_file = true → C k w)
    (hD : D (k + args.xmlCalls) ()
      ((if args.gen_xml_file then w.emit (.suiteStart args.node_name) else w).setDeadline T args)) :
    wpAt (beginLoop T) C D k w := by
  simp only [beginLoop, wpAt_bind, wpAt_get, wpAt_ite, wpAt_point, wpAt_modify, emit, hdata]
  rw [ThreadArgs.xmlCalls] at hD
  split
  · next hxml =>
    rw [if_pos hxml, if_pos hxml] at hD
    have hdata' : (w.emit (.suiteStart args.node_name)).data = args := hdata
    have hdeadline := wpAt_deadline (C := C) hdata' hD
    simp only [wpAt_ite, wpAt_modify] at hdeadline
    exact ⟨hC hxml, hdeadline⟩
  · next hxml =>
    rw [if_neg hxml, if_neg hxml] at hD
    have hdeadline := wpAt_deadline (C := C) hdata hD
    simp only [wpAt_ite, wpAt_modify, hdata] at hdeadline
    exact hdeadline

theorem wpAt_exitRun {action : TestAction} {result : ℤ} {D : ℕ → ℤ → Worker → Prop} :
    wpAt (exitRun T action result) C D k w ↔ C k (w.onStatus fun g => { g with action := action }) ∧
      D (k + 1) result ((w.onStatus fun g => { g with action := action }).onStatus fun g =>
        { g with endTimeStamp := T.getTimeStamp 1 }) := by
  simp [exitRun, onStatus]

theorem wpAt_afterRounds (h : Outline T kind args C Q J) (hs : SetsUp T kind args)
    {cmd : Option (List Char)} {pace : Thread Worker Unit} {n : ℕ} {r : ℤ} (hw : J w)
    (hdata : w.data = { args with execution_time := args.deadline T }) :
    wpAt (afterRounds T args.stop_on_fail cmd pace 0 n r (lastOf T args)) C
      (fun n result w => wpAt (finalizeThread result) C (fun n ret w => Q n ret (w.popped T)) n w)
      (loopAt kind args + roundCalls kind.paceCalls args.loops.toNat (lastOf T args)) w := by
  have hexit := h.exit hs w hw
  have hwait : (w.exited T args).data.wait_for_response = args.wait_for_response := by
    simp only [Worker.exited, Worker.looped, Worker.onStatus_data]
    split_ifs <;> simp [hdata]
  have hwrap := wpAt_finalize hwait (h.wrapup hs w r hw)
  cases hl : lastOf T args with
  | none =>
    have hat : exitAt T kind args =
        loopAt kind args + roundCalls kind.paceCalls args.loops.toNat none + args.xmlCalls := by
      simp [exitAt, hl]
    have hround := h.round hs (loopAt kind args + roundCalls kind.paceCalls args.loops.toNat none)
      w hw (Nat.le_add_right _ _)
    rw [hat] at hexit hwrap hround
    simp only [afterRounds, executions, wpAt_bind, wpAt_get, wpAt_ite, hdata]
    cases hxml : args.gen_xml_file with
    | true =>
      simp only [Worker.exited, Worker.looped, exitAction, hl, hxml, and_self, if_true,
        ThreadArgs.xmlCalls] at hexit hwrap hround
      simp only [if_true, emit, wpAt_point, wpAt_modify, wpAt_exitRun]
      exact ⟨hround (Nat.lt_succ_self _), hexit, hwrap⟩
    | false =>
      simp only [Worker.exited, Worker.looped, exitAction, hl, hxml, Bool.false_eq_true, and_false,
        if_false, ThreadArgs.xmlCalls] at hexit hwrap
      simp only [Bool.false_eq_true, if_false, wpAt_exitRun]
      exact ⟨hexit, hwrap⟩
  | some m =>
    have hat : exitAt T kind args =
        loopAt kind args + roundCalls kind.paceCalls args.loops.toNat (some m) := by
      simp [exitAt, hl]
    rw [hat] at hexit hwrap
    simp only [Worker.exited, Worker.looped, exitAction, hl, reduceCtorEq, false_and, if_false]
      at hexit hwrap
    simp only [afterRounds, Nat.zero_add, wpAt_exitRun]
    exact ⟨hexit, hwrap⟩

theorem wpAt_looping (h : Outline T kind args C Q J) (hs : SetsUp T kind args) {g : StatusGroup}
    (hg : T.node kind args = some g) (cmd : Option (List Char)) :
    wpAt (executions T cmd kind.pace args.loops.toNat 0 0) C
      (fun n result w => wpAt (finalizeThread result) C (fun n ret w => Q n ret (w.popped T)) n w)
      (loopAt kind args) (.looping T args g) := by
  let J' : Worker → Prop := fun w => J w ∧ w.data = { args with execution_time := args.deadline T }
  have hpace : IsPace J' kind.paceCalls kind.pace :=
    isPace_pace fun w s hw => ⟨h.sleep w s hw.1, hw.2⟩
  have hdata : ∀ w, J' w → w.data.stop_on_fail = args.stop_on_fail ∧
      w.data.execution_time = args.deadline T := fun w hw => by
    rw [hw.2]
    exact ⟨rfl, rfl⟩
  refine wpAt_executions hpace (fun i w hw => ⟨h.run i w cmd hw.1, hw.2⟩) hdata ?_
    ⟨h.looping g hg hs, rfl⟩ (fun c w hw h1 h2 => ?_) fun w r hw => ?_
  · simp
  · exact h.round hs c w hw.1 h1 (Nat.lt_of_lt_of_le h2 (Nat.le_add_right _ _))
  · exact wpAt_afterRounds h hs hw.1 hw.2

theorem wpAt_runCounted (h : Outline T kind args C Q J)
    (hfound : T.found kind args.node_name = true)
    (hnode : T.node kind args = T.tb_status_add_group_node args.node_name 1 args.loops)
    {cmd : Option (List Char)} :
    wpAt (runCounted T cmd kind.pace) C
      (fun n result w => wpAt (finalizeThread result) C (fun n ret w => Q n ret (w.popped T)) n w)
      (nodeAt kind args) (.begun args) := by
  simp only [runCounted, withStatusGroup, wpAt_bind, wpAt_get, wpAt_point, begun_data]
  refine ⟨h.begun _ (Nat.le_succ _), ?_⟩
  cases hg : T.tb_status_add_group_node args.node_name 1 args.loops with
  | none =>
    rw [hg] at hnode
    have hcalls : failedCalls T kind args = nodeAt kind args + 1 + 1 := by
      simp [failedCalls, hnode, hfound]
    rw [wpAt_abort]
    refine ⟨h.begun _ (Nat.le_refl _), ?_⟩
    exact wpAt_finalize rfl (hcalls ▸ h.unregistered hnode)
  | some g =>
    rw [hg] at hnode
    have hreg := h.registered g hnode
    simp only [wpAt_bind, wpAt_modify, wpAt_point, wpAt_ite]
    refine ⟨hreg _ (Nat.lt_succ_self _) fun _ => by omega, ?_⟩
    split
    · next hsuite =>
      have hsuite' : T.tb_status_add_suite_bucket 0 = false := eq_false_of_ne_true hsuite
      have hs : ¬ SetsUp T kind args := fun hs => hsuite hs.2.1
      have hcalls : failedCalls T kind args = nodeAt kind args + 1 + 1 + 1 := by
        simp [failedCalls, hnode, hsuite']
      rw [wpAt_abort]
      refine ⟨hreg _ (by omega) fun hs' => absurd hs' hs, ?_⟩
      exact wpAt_finalize rfl (hcalls ▸ h.failed g hnode hs)
    next hsuite =>
    have hsuite' : T.tb_status_add_suite_bucket 0 = true := not_not.mp hsuite
    refine ⟨hreg _ (by omega) fun _ => by omega, ?_⟩
    split
    · next hcase =>
      have hs : ¬ SetsUp T kind args := fun hs => hcase hs.2.2
      have hcalls : failedCalls T kind args = nodeAt kind args + 1 + 1 + 1 + 1 := by
        simp [failedCalls, hnode, hsuite']
      rw [wpAt_abort]
      refine ⟨hreg _ (by omega) fun hs' => absurd hs' hs, ?_⟩
      exact wpAt_finalize rfl (hcalls ▸ h.failed g hnode hs)
    next hcase =>
    have hs : SetsUp T kind args := ⟨by simp [hnode], hsuite', not_not.mp hcase⟩
    have hloop := wpAt_looping h hs hnode cmd
    simp only [startRun, wpAt_bind, wpAt_get, wpAt_point, wpAt_modify, onStatus]
    refine ⟨h.running g hnode hs, ?_⟩
    change wpAt (beginLoop T) C _ _ (Worker.started T args g)
    exact wpAt_beginLoop rfl (h.started g hnode hs) hloop

/-- **The rule of the handlers** that run a test over and over. -/
theorem wpAt_counted (hkind : kind = .case ∨ kind = .executable)
    (h : Outline T kind args C Q J) : wpAt (handler T kind) C Q 0 (.start args) := by
  rw [handler_eq]
  refine wpAt_withCleanup h.pushed ?_
  rw [Nat.zero_add]
  rcases hkind with rfl | rfl
  · simp only [body, caseBody, wpAt_bind, wpAt_get, wpAt_point, wpAt_ite]
    refine ⟨h.begun _ (by simp only [nodeAt]; omega), ?_⟩
    split
    · next hf =>
      have hf' : T.found .case args.node_name = false := eq_false_of_ne_true hf
      have hnone : T.node .case args = none := by simp [TestBox.node, hf']
      have hcalls : failedCalls T .case args = args.clientCalls + 1 + 1 := by
        simp [failedCalls, hnone, hf', nodeAt, HandlerKind.lookupCalls]
      rw [wpAt_abort]
      refine ⟨h.begun _ (Nat.le_succ _), ?_⟩
      exact wpAt_finalize rfl (hcalls ▸ h.unregistered hnone)
    · next hf =>
      have hf' : T.found .case args.node_name = true := not_not.mp hf
      exact wpAt_runCounted h hf' (by simp [TestBox.node, hf'])
  · simp only [body, executableBody, wpAt_bind, wpAt_get]
    exact wpAt_runCounted h rfl rfl

/-- The test case `t` is registered, and fails. -/
def failing : TestBox := { noCase with tb_case_lookupnode := fun _ => true, runner := fun _ => -1 }

/-- Run `t` twice, with an XML file. -/
def xmlRun (stop_on_fail : Bool) : ThreadArgs :=
  ⟨3, 0, true, 2, true, stop_on_fail, 0, 0, ['t'], [['t']]⟩

end Dib
