import Dib.Handlers.Cleanup

/-!
# The verdict of a run that is waited for

* `VerdictSound`: the answer is `TESTBOX_FAIL`, or it is `TESTBOX_PASS` and the test runner was
  called and returned `0` every time;
* `Answered`: the handler does not pop a routine that it has not pushed;
* `executions_sound`, `runCounted_sound`: the `result` of a case or an executable is sound;
* `suiteBuckets_zero`, `suiteBuckets_fails`: the group handler leaves its loop with `result` zero
  exactly when a later suite gets no bucket: `result` still holds the success of the suite before;
* **`verdictSound_iff`**: this is the only way to an unsound verdict, and those pops the only way to
  none.
-/

set_option autoImplicit false

namespace Dib

open Thread

/-- The answer of a run that is waited for is `TESTBOX_FAIL`, or the runner was called and every
call returned `0`. -/
def VerdictSound (T : TestBox) (kind : HandlerKind) (cancelAt : Option ℕ) (args : ThreadArgs)
    (name : List Char) : Prop :=
  ∃ x, execTestThread T kind true cancelAt true args name = some x ∧
    (x.resp = some (verdict name TESTBOX_FAIL) ∨
      x.resp = some (verdict name TESTBOX_PASS) ∧ x.worker.outcomes ≠ [] ∧
        ∀ r ∈ x.worker.outcomes, r = 0)

/-! ## The trace of outcomes -/

theorem outcomes_emit (w : Worker) {e : Event} (he : ∀ c r, e ≠ .run c r) :
    (w.emit e).outcomes = w.outcomes := by
  cases e <;> simp_all [Worker.emit, Worker.outcomes]

@[simp] theorem outcomes_emit_run (w : Worker) (c : Option (List Char)) (r : ℤ) :
    (w.emit (.run c r)).outcomes = w.outcomes ++ [r] := by
  simp [Worker.emit, Worker.outcomes]

@[simp] theorem outcomes_onStatus (w : Worker) (f : StatusGroup → StatusGroup) :
    (w.onStatus f).outcomes = w.outcomes := rfl

@[simp] theorem outcomes_cleanup (T : TestBox) (c : Cleanup) (w : Worker) :
    (w.cleanup T c).outcomes = w.outcomes := by
  cases c <;> simp [Worker.cleanup, outcomes_emit]

@[simp] theorem outcomes_pop (T : TestBox) (c : Cleanup) (w : Worker) :
    (w.pop T c).outcomes = w.outcomes := by
  unfold Worker.pop
  split_ifs
  · rfl
  split
  · exact outcomes_emit w (by rintro _ _ ⟨⟩)
  split_ifs
  · rw [outcomes_cleanup, outcomes_emit _ (by rintro _ _ ⟨⟩)]
    rfl
  · exact outcomes_emit w (by rintro _ _ ⟨⟩)

/-! ## Cases, executables and suites -/

variable {T : TestBox} {w : Worker}

/-- `result` may be zero only after the runner was called, always with success. -/
def Sound (result : ℤ) (w : Worker) : Prop :=
  result = 0 → w.outcomes ≠ [] ∧ ∀ r ∈ w.outcomes, r = 0

/-- What the frame of the handlers needs of a body: the answer is still waited for, and `result` is
sound. -/
def Ends (result : ℤ) (w : Worker) : Prop :=
  w.data.wait_for_response = true ∧ Sound result w

/-- `t` leaves the outcomes alone, and that the answer is waited for. -/
def Quiet (t : Thread Worker Unit) : Prop :=
  ∀ w, (t w).final.data.wait_for_response = w.data.wait_for_response ∧
    (t w).final.outcomes = w.outcomes

theorem Quiet.wp {t : Thread Worker Unit} (ht : Quiet t) {Q : Unit → Worker → Prop}
    (h : ∀ w', w'.data.wait_for_response = w.data.wait_for_response → w'.outcomes = w.outcomes →
      Q () w') : wp t (fun _ => True) Q w :=
  ⟨fun _ _ => trivial, h _ (ht w).1 (ht w).2⟩

theorem quiet_pure : Quiet (pure ()) := fun _ => ⟨rfl, rfl⟩

theorem quiet_sleepBetween : Quiet sleepBetween := fun w =>
  ⟨rfl, outcomes_emit w fun _ _ h => by cases h⟩

theorem quiet_startRun : Quiet (startRun T) := fun _ => ⟨rfl, rfl⟩

theorem quiet_beginLoop : Quiet (beginLoop T) := by
  intro w
  by_cases h1 : w.data.gen_xml_file <;> by_cases h2 : w.data.execution_time = 0 <;>
    simp [beginLoop, h1, h2, emit, Worker.outcomes, Worker.emit]

theorem exitRun_sound {action : TestAction} {result : ℤ} (h : Ends result w) :
    wp (exitRun T action result) (fun _ => True) Ends w := by
  simpa [exitRun, onStatus, Ends, Sound] using h

/-- The loop keeps: `result` is zero only if no call has failed. It ends soundly if the runner was
called before, or will be. -/
theorem executions_sound {cmd : Option (List Char)} {pace : Thread Worker Unit} (hp : Quiet pace)
    {n i : ℕ} {result : ℤ} (hw : w.data.wait_for_response = true)
    (hr : result = 0 → ∀ r ∈ w.outcomes, r = 0) (hn : n = 0 → w.outcomes ≠ []) :
    wp (executions T cmd pace n i result) (fun _ => True) Ends w := by
  induction n generalizing i result w with
  | zero =>
    have h : Ends result w := ⟨hw, fun h0 => ⟨hn rfl, hr h0⟩⟩
    simp only [executions, wp_bind, wp_get, wp_ite, emit, wp_point, wp_modify, true_and]
    split_ifs
    · exact exitRun_sound (by simpa [Ends, Sound, outcomes_emit] using h)
    · exact exitRun_sound h
  | succ n ih =>
    simp only [executions, runTest, wp_bind, wp_get, wp_ite, emit, onStatus, wp_point, wp_modify,
      wp_pure, true_and]
    generalize hw' : ((w.onStatus (T.runnerEffect i)).emit (.run cmd (T.runner i))) = w'
    generalize hr' : (if T.runner i ≠ 0 then -1 else result) = result'
    have h1 : w'.data.wait_for_response = true := by simpa [← hw'] using hw
    have h2 : w'.outcomes = w.outcomes ++ [T.runner i] := by simp [← hw']
    have h3 : result' = 0 → ∀ r ∈ w'.outcomes, r = 0 := by
      intro h0
      have hrun : T.runner i = 0 := by
        by_contra hne
        rw [← hr', if_pos hne] at h0
        cases h0
      rw [← hr', if_neg (not_not.mpr hrun)] at h0
      simpa [h2, hrun, or_imp, forall_and] using hr h0
    have h4 : w'.outcomes ≠ [] := by simp [h2]
    have h5 : Ends result' w' := ⟨h1, fun h0 => ⟨h4, h3 h0⟩⟩
    split_ifs
    · exact exitRun_sound h5
    · exact exitRun_sound h5
    · refine hp.wp fun w'' hd ho => ?_
      exact ih (by rw [hd, h1]) (by rwa [ho]) fun _ => by rwa [ho]

theorem abort_sound (result : ℤ) (hw : w.data.wait_for_response = true) (hr : result ≠ 0) :
    wp (abort result) (fun _ => True) Ends w := by
  simp only [abort, wp_bind, wp_point, wp_pure, true_and]
  exact ⟨hw, fun h0 => absurd h0 hr⟩

theorem withStatusGroup_sound {name : List Char} {size : ℤ} {body : Thread Worker ℤ}
    (hw : w.data.wait_for_response = true)
    (h : ∀ w', w'.data = w.data → w'.outcomes = w.outcomes → wp body (fun _ => True) Ends w') :
    wp (withStatusGroup T name size body) (fun _ => True) Ends w := by
  simp only [withStatusGroup, wp_bind, wp_point, wp_get, true_and]
  cases T.tb_status_add_group_node name size w.data.loops with
  | none => exact abort_sound (-1) hw (by decide)
  | some g =>
    simp only [wp_bind, wp_modify]
    exact h _ rfl rfl

theorem runCounted_sound {cmd : Option (List Char)} {pace : Thread Worker Unit} (hp : Quiet pace)
    (hw : w.data.wait_for_response = true) (hl : 0 < w.data.loops) (ho : w.outcomes = []) :
    wp (runCounted T cmd pace) (fun _ => True) Ends w := by
  simp only [runCounted, wp_bind, wp_get]
  refine withStatusGroup_sound hw fun w1 hd1 ho1 => ?_
  have hw1 : w1.data.wait_for_response = true := by rw [hd1, hw]
  simp only [wp_bind, wp_point, wp_ite, true_and]
  split
  · exact abort_sound (-1) hw1 (by decide)
  split
  · exact abort_sound (-1) hw1 (by decide)
  refine quiet_startRun.wp fun w2 hw2 ho2 => ?_
  refine quiet_beginLoop.wp fun w3 hw3 ho3 => ?_
  have ho' : w3.outcomes = [] := by rw [ho3, ho2, ho1, ho]
  exact executions_sound hp (by rw [hw3, hw2, hw1]) (by simp [ho']) (by omega)

theorem caseBody_sound (hw : w.data.wait_for_response = true) (hl : 0 < w.data.loops)
    (ho : w.outcomes = []) : wp (caseBody T) (fun _ => True) Ends w := by
  simp only [caseBody, wp_bind, wp_get, wp_point, wp_ite, true_and]
  split
  · exact abort_sound (-1) hw (by decide)
  · exact runCounted_sound quiet_sleepBetween hw hl ho

theorem executableBody_sound (hw : w.data.wait_for_response = true) (hl : 0 < w.data.loops)
    (ho : w.outcomes = []) : wp (executableBody T) (fun _ => True) Ends w := by
  simp only [executableBody, wp_bind, wp_get]
  exact runCounted_sound quiet_pure hw hl ho

theorem runTest_sound {cmd : Option (List Char)} {i : ℕ} (hw : w.data.wait_for_response = true)
    (ho : w.outcomes = []) : wp (runTest T cmd i) (fun _ => True) Ends w := by
  simp only [runTest, emit, onStatus, wp_bind, wp_point, wp_modify, wp_pure, true_and]
  exact ⟨hw, fun h0 => by simp [ho, h0]⟩

theorem suiteBody_sound (hw : w.data.wait_for_response = true) (ho : w.outcomes = []) :
    wp (suiteBody T) (fun _ => True) Ends w := by
  simp only [suiteBody, wp_bind, wp_get, wp_point, wp_ite, true_and]
  split
  · exact abort_sound (-1) hw (by decide)
  refine withStatusGroup_sound hw fun w1 hd1 ho1 => ?_
  have hw1 : w1.data.wait_for_response = true := by rw [hd1, hw]
  simp only [wp_bind, wp_point, wp_ite, true_and]
  split
  · exact abort_sound (-1) hw1 (by decide)
  split
  · next h => exact abort_sound _ hw1 h
  refine quiet_startRun.wp fun w2 hw2 ho2 => ?_
  refine wp_mono (runTest_sound (by rw [hw2, hw1]) (by rw [ho2, ho1, ho])) (fun _ h => h) ?_
  intro r w3 h3
  simpa [onStatus, Ends, Sound] using h3

/-! ## Groups -/

theorem suiteBuckets_final (suites : List (List Char)) (i : ℕ) (result : ℤ) (w : Worker) :
    (suiteBuckets T suites i result w).final = w := by
  induction suites generalizing i result with
  | nil => rfl
  | cons s suites ih =>
    simp only [suiteBuckets, bind_apply]
    split
    · rfl
    · rw [bind_apply]
      split
      · rfl
      · exact ih _ _

/-- The suites `i .. i + k - 1` get their buckets, the next one does not. -/
def BucketFails (T : TestBox) (i k : ℕ) : Prop :=
  (∀ j < k, T.tb_status_add_suite_bucket (i + j) = true ∧
    T.tb_status_add_n_testcase_buckets (i + j) = 0) ∧ T.tb_status_add_suite_bucket (i + k) = false

theorem bucketFails_succ {i k : ℕ} : BucketFails T i (k + 1) ↔
    T.tb_status_add_suite_bucket i = true ∧ T.tb_status_add_n_testcase_buckets i = 0 ∧
      BucketFails T (i + 1) k := by
  have h : ∀ j, i + 1 + j = i + (j + 1) := by omega
  simp only [BucketFails, h, Nat.forall_lt_succ_left, Nat.add_zero, and_assoc]

/-- A `goto wrapup_thread` with `result` zero: a suite got no bucket, after others did or with
`result` zero from the start. -/
theorem suiteBuckets_zero {suites : List (List Char)} {i : ℕ} {result : ℤ}
    (h : (suiteBuckets T suites i result w).value = .error 0) :
    ∃ k < suites.length, BucketFails T i k ∧ (k = 0 → result = 0) := by
  induction suites generalizing i result with
  | nil => simp [suiteBuckets] at h
  | cons s suites ih =>
    by_cases hb : T.tb_status_add_suite_bucket i
    · by_cases hn : T.tb_status_add_n_testcase_buckets i = 0
      · have h' : (suiteBuckets T suites (i + 1) 0 w).value = .error 0 := by
          simpa [suiteBuckets, hb, hn] using h
        obtain ⟨k, hk, hf, -⟩ := ih h'
        exact ⟨k + 1, by simpa using hk, bucketFails_succ.mpr ⟨hb, hn, hf⟩, by simp⟩
      · simp [suiteBuckets, hb, hn, abort] at h
    · refine ⟨0, by simp, ⟨by simp, by simpa using hb⟩, fun _ => ?_⟩
      simpa [suiteBuckets, hb, abort] using h

theorem suiteBuckets_fails {suites : List (List Char)} {i k : ℕ} (result : ℤ)
    (hk : k < suites.length) (hf : BucketFails T i k) :
    (suiteBuckets T suites i result w).value = .error (if k = 0 then result else 0) ∧
      numPoints (suiteBuckets T suites i result) w = 3 * k + 3 := by
  induction suites generalizing i k result with
  | nil => simp at hk
  | cons s suites ih =>
    cases k with
    | zero =>
      have hb : T.tb_status_add_suite_bucket i = false := hf.2
      simp [suiteBuckets, hb, abort, numPoints]
    | succ k =>
      obtain ⟨hb, hn, hf⟩ := bucketFails_succ.mp hf
      obtain ⟨h1, h2⟩ := ih 0 (Nat.lt_of_succ_lt_succ hk) hf
      constructor
      · simpa [suiteBuckets, hb, hn] using h1
      · simp only [numPoints] at h2
        simp [suiteBuckets, hb, hn, numPoints, h2]
        omega

/-- A suite of the group, but not the first, gets no bucket. -/
def LateBucketFailure (T : TestBox) (args : ThreadArgs) (k : ℕ) : Prop :=
  0 < k ∧ BucketFails T 0 k ∧ ∃ group g, T.tb_group_lookupnode args.node_name = some group ∧
    T.tb_status_add_group_node group.name group.size args.loops = some g ∧ k < group.suites.length

theorem groupBody_registered {group : Group} {g : StatusGroup}
    (hg : T.tb_group_lookupnode w.data.node_name = some group)
    (hn : T.tb_status_add_group_node group.name group.size w.data.loops = some g) :
    groupBody T w =
      match suiteBuckets T group.suites 0 (-1) (w.register g) with
      | ⟨points, .error r, _⟩ => ⟨w :: w :: points, r, w.register g⟩
      | ⟨points, .ok (), _⟩ =>
        ⟨w :: w :: points ++ (runTest T none 0 (w.register g)).points, T.runner 0,
          (runTest T none 0 (w.register g)).final⟩ := by
  have hf := suiteBuckets_final (T := T) group.suites 0 (-1) (w.register g)
  simp only [groupBody, bind_apply, get_apply, point_apply, hg, withStatusGroup, hn, modify_apply,
    hf, List.nil_append, List.singleton_append]
  obtain ⟨points, value, final⟩ := suiteBuckets T group.suites 0 (-1) (w.register g)
  cases value with
  | error r => simp
  | ok _ => rfl

theorem groupBody_sound (hw : w.data.wait_for_response = true) (ho : w.outcomes = []) :
    (groupBody T w).final.data.wait_for_response = true ∧
      (Sound (groupBody T w).value (groupBody T w).final ∨ ∃ k, LateBucketFailure T w.data k) := by
  cases hg : T.tb_group_lookupnode w.data.node_name with
  | none => simp [groupBody, hg, abort, hw, Sound]
  | some group =>
    cases hn : T.tb_status_add_group_node group.name group.size w.data.loops with
    | none => simp [groupBody, hg, withStatusGroup, hn, abort, hw, Sound]
    | some g =>
      rw [groupBody_registered hg hn]
      cases hs : suiteBuckets T group.suites 0 (-1) (w.register g) with
      | mk points value final =>
        cases value with
        | error r =>
          refine ⟨hw, or_iff_not_imp_left.mpr fun hr => ?_⟩
          obtain rfl : r = 0 := by
            by_contra hne
            exact hr fun h0 => absurd h0 hne
          obtain ⟨k, hk, hf, h0⟩ := suiteBuckets_zero (by rw [hs])
          have hpos : 0 < k := Nat.pos_of_ne_zero fun e => absurd (h0 e) (by decide)
          exact ⟨k, hpos, hf, group, g, hg, hn, hk⟩
        | ok _ => exact ⟨hw, .inl (runTest_sound (w := w.register g) hw ho).2.2⟩

/-- After a late failure `result` is zero, and nothing has been run. -/
theorem groupBody_late {k : ℕ} (h : LateBucketFailure T w.data k) :
    (groupBody T w).value = 0 ∧ (groupBody T w).final.outcomes = w.outcomes ∧
      (groupBody T w).final.data = w.data ∧ numPoints (groupBody T) w = 3 * k + 5 := by
  obtain ⟨hpos, hf, group, g, hg, hn, hk⟩ := h
  obtain ⟨h1, h2⟩ := suiteBuckets_fails (-1) hk hf (w := w.register g)
  rw [if_neg (Nat.ne_of_gt hpos)] at h1
  rw [numPoints] at h2
  rw [numPoints, groupBody_registered hg hn]
  cases hs : suiteBuckets T group.suites 0 (-1) (w.register g) with
  | mk points value final =>
    simp only [hs] at h1 h2
    subst h1
    exact ⟨rfl, rfl, rfl, by simp [h2]⟩

/-! ## The verdict -/

/-- The thread when its body starts. -/
def Worker.entered (args : ThreadArgs) : Worker :=
  ⟨args, none, [.handler_thread_cleanup], [.clientAdd args.socket]⟩

theorem withCleanup_waiting {body : Thread Worker ℤ} {args : ThreadArgs}
    (hw : args.wait_for_response = true)
    (hb : (body (.entered args)).final.data.wait_for_response = true) :
    (withCleanup T body (.start args)).value = some (body (.entered args)).value ∧
      (withCleanup T body (.start args)).final.outcomes = (body (.entered args)).final.outcomes ∧
      numPoints (withCleanup T body) (.start args) = numPoints body (.entered args) + 3 := by
  have hs : (Worker.emit (.clientAdd args.socket)
      { Worker.start args with cleanups := [.handler_thread_cleanup] }) = .entered args := rfl
  rw [Worker.start] at hs
  simp [withCleanup, Worker.start, numPoints, hw, emit, hs, hb, finalizeThread, outcomes_emit]

/-- The handler gets its status node, or is cancelled at a call before its last one: otherwise its
first pop is a fault, and nothing is answered. -/
def Answered (T : TestBox) (kind : HandlerKind) (cancelAt : Option ℕ) (args : ThreadArgs) : Prop :=
  Registers T kind args ∨ ∃ c, cancelAt = some c ∧ c < earlyCalls T kind args

/-- The late failure that a cancellation does not forestall. -/
def UnsoundPass (T : TestBox) (kind : HandlerKind) (cancelAt : Option ℕ) (args : ThreadArgs) :
    Prop :=
  kind = .group ∧ ∃ k, LateBucketFailure T args k ∧ ∀ c, cancelAt = some c → 3 * k + 8 ≤ c

theorem body_sound (kind : HandlerKind) {args : ThreadArgs} (hw : args.wait_for_response = true)
    (hl : 0 < args.loops) :
    (body T kind (.entered args)).final.data.wait_for_response = true ∧
      (Sound (body T kind (.entered args)).value (body T kind (.entered args)).final ∨
        kind = .group ∧ ∃ k, LateBucketFailure T args k) := by
  have ho : (Worker.entered args).outcomes = [] := rfl
  cases kind with
  | case =>
    obtain ⟨-, h1, h2⟩ := caseBody_sound (T := T) (w := .entered args) hw hl ho
    exact ⟨h1, .inl h2⟩
  | suite =>
    obtain ⟨-, h1, h2⟩ := suiteBody_sound (T := T) (w := .entered args) hw ho
    exact ⟨h1, .inl h2⟩
  | executable =>
    obtain ⟨-, h1, h2⟩ := executableBody_sound (T := T) (w := .entered args) hw hl ho
    exact ⟨h1, .inl h2⟩
  | group =>
    obtain ⟨h1, h2⟩ := groupBody_sound (T := T) (w := .entered args) hw ho
    exact ⟨h1, h2.imp_right fun h => ⟨rfl, h⟩⟩

theorem UnsoundPass.late {kind : HandlerKind} {cancelAt : Option ℕ} {args : ThreadArgs}
    (h : UnsoundPass T kind cancelAt args) (hw : args.wait_for_response = true) :
    (body T kind (.entered args)).value = 0 ∧
      (body T kind (.entered args)).final.outcomes = [] ∧
      Uncut (handler T kind) cancelAt (.start args) := by
  obtain ⟨rfl, k, hk, hc⟩ := h
  obtain ⟨h1, h2, h3, h4⟩ := groupBody_late (w := .entered args) hk
  refine ⟨h1, h2, fun c hc' => ?_⟩
  have hwait : (groupBody T (.entered args)).final.data.wait_for_response = true := by
    rw [h3]
    exact hw
  rw [handler_eq, body, (withCleanup_waiting hw hwait).2.2, h4]
  have := hc c hc'
  omega

theorem verdict_fail_ne_pass (name : List Char) :
    verdict name TESTBOX_PASS ≠ verdict name TESTBOX_FAIL := by
  rw [verdict, verdict, Ne, List.append_right_inj]
  decide

/-- The answer to a thread that was not cancelled is sound when its `result` is; it is there when
the thread has met no fault. -/
theorem verdictSound_returned {kind : HandlerKind} {cancelAt : Option ℕ} {args : ThreadArgs}
    {name : List Char} {result : ℤ} {w : Worker}
    (hr : run (handler T kind) cancelAt (.start args) = .returned (some result) w) :
    VerdictSound T kind cancelAt args name ↔ w.faulted = false ∧ Sound result w := by
  cases hfault : w.faulted with
  | true => simp [VerdictSound, execTestThread, hr, hfault]
  | false =>
    by_cases h0 : result = 0
    · simp [VerdictSound, execTestThread, hr, hfault, h0, Sound, verdict_fail_ne_pass]
    · simp [VerdictSound, execTestThread, hr, hfault, h0, Sound]

theorem verdictSound_cancelled {kind : HandlerKind} {cancelAt : Option ℕ} {args : ThreadArgs}
    {name : List Char} {w : Worker}
    (hr : run (handler T kind) cancelAt (.start args) = .cancelled w) :
    VerdictSound T kind cancelAt args name := by
  simp [VerdictSound, execTestThread, hr]

/-- **The verdict.** The answer to a run that is waited for is there and sound if the handler gets
its status node or is cancelled before its last call, unless a group's handler fails to get a bucket
for a suite after the first and nothing cancels it. -/
theorem verdictSound_iff (T : TestBox) (kind : HandlerKind) (cancelAt : Option ℕ)
    {args : ThreadArgs} (name : List Char) (hw : args.wait_for_response = true)
    (hl : 0 < args.loops) :
    VerdictSound T kind cancelAt args name ↔
      Answered T kind cancelAt args ∧ ¬ UnsoundPass T kind cancelAt args := by
  obtain ⟨hwait, hsound⟩ := body_sound (T := T) kind hw hl
  obtain ⟨hval, hout, hnum⟩ := withCleanup_waiting (T := T) hw hwait
  rw [← handler_eq] at hval hout hnum
  rcases run_cases (handler T kind) cancelAt (.start args) with ⟨hu, hr⟩ | ⟨p, -, hr⟩
  · rw [hval] at hr
    rw [verdictSound_returned hr, faulted_of_returned hr, Sound, hout]
    refine and_congr Iff.rfl ⟨fun h hbad => ?_, fun h => ?_⟩
    · obtain ⟨h0, hnil, -⟩ := hbad.late hw
      exact (h h0).1 hnil
    · refine hsound.resolve_right ?_
      rintro ⟨rfl, k, hk⟩
      obtain ⟨-, -, -, hpoints⟩ := groupBody_late (w := .entered args) hk
      refine h ⟨rfl, k, hk, fun c hc => ?_⟩
      have h1 := hu c hc
      rw [hnum, body, hpoints] at h1
      exact h1
  · refine iff_of_true (verdictSound_cancelled hr) ⟨early_of_cancelled hr, fun hbad => ?_⟩
    rw [run_of_uncut (hbad.late hw).2.2] at hr
    cases hr

/-! ## A group of two suites -/

/-- Everything succeeds, but the bucket of the second suite. -/
def oneBucket : TestBox where
  tb_case_lookupnode _ := true
  tb_suite_lookupnode _ := true
  tb_group_lookupnode _ := some ⟨"g".toList, 2, ["s".toList, "t".toList]⟩
  tb_status_add_group_node _ _ _ := some ⟨1, .idle, 0, 0, 0⟩
  tb_status_add_suite_bucket k := k == 0
  tb_status_add_testcase_bucket := true
  tb_status_add_n_testcase_buckets _ := 0
  runner _ := 0
  runnerEffect _ g := g
  clock_gettime _ := 0
  getTimeStamp _ := 0
  narrow n := n

/-- `dibc g --wait`, or any other name. -/
def waitFor (name : List Char) : ThreadArgs :=
  ⟨3, 1, true, 1, false, false, 0, 0, name, [name]⟩

/-- A suite of `oneBucket` gets a sound answer. -/
theorem verdictSound_suite :
    VerdictSound oneBucket .suite none (waitFor "s".toList) "s".toList :=
  (verdictSound_iff oneBucket .suite none "s".toList rfl (by decide)).mpr
    ⟨.inl (by decide), fun h => by cases h.1⟩

/-- The group gets `TESTBOX_PASS`, and no test is run. -/
theorem pass_without_a_run :
    (execTestThread oneBucket .group true none true (waitFor "g".toList) "g".toList).map
        (fun x => (x.resp, x.worker.outcomes)) = some (some "g :: TESTBOX_PASS".toList, []) ∧
      ¬ VerdictSound oneBucket .group none (waitFor "g".toList) "g".toList := by
  have h : (execTestThread oneBucket .group true none true (waitFor "g".toList) "g".toList).map
      (fun x => (x.resp, x.worker.outcomes)) = some (some "g :: TESTBOX_PASS".toList, []) := by
    decide
  refine ⟨h, ?_⟩
  rintro ⟨x, hx, hv⟩
  simp only [hx, Option.map_some, Option.some.injEq, Prod.mk.injEq] at h
  rcases hv with hf | ⟨-, hne, -⟩
  · rw [h.1] at hf
    revert hf
    decide
  · exact hne h.2

end Dib
