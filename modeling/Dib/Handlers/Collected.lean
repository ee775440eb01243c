import Dib.Handlers.Status

/-!
# The end of a suite's or a group's entry

The handlers of suites and groups leave the tests to one call of the test runner.

* **`entry_settles`**: whatever the handler, the entry that it registered is settled at the end, and
  names no thread;
* `Prepares`, `runnerAt`: a suite or a group gets all its buckets; the number of the runner's call;
* `leftBy`: the action that the runner leaves;
* `MarkedDone`, `Shows`, `wpAt_suite_rest`, `wpAt_group_rest`: when the entry says `tb_test_done`,
  call by call;
* **`collected_done_iff`**: at the end it does if the runner came back and left it so, or if the
  handler of a suite could say so itself; else it says `tb_test_stopped`.
-/

set_option autoImplicit false

namespace Dib

open Thread

variable {T : TestBox} {kind : HandlerKind} {cancelAt : Option ℕ} {args : ThreadArgs} {w : Worker}
  {g : StatusGroup} {c k n : ℕ}

/-! ## All handlers -/

theorem cleaned_terminal (g : StatusGroup) :
    (g.cleaned T).thread = -1 ∧ (g.cleaned T).action.Settled ∧
      ((g.cleaned T).action = .done ↔ g.action = .done) := by
  by_cases h : g.action.Settled
  · rw [cleaned_of_settled h]
    exact ⟨rfl, h, Iff.rfl⟩
  · rw [cleaned_of_not_settled h]
    exact ⟨rfl, .inr rfl, iff_of_false (by rintro ⟨⟩) fun hd => h (.inl hd)⟩

theorem status_of_framed {waiting registered : Bool} {w' : Worker}
    (hw : w.frame = framed waiting registered) (hend : w' = w.popped T ∨ w' = w.unwind T) :
    w'.status_group = w.status_group.map (·.cleaned T) := by
  have hstack : w.cleanups = _ := congrArg (·.1) hw
  have hnode : w.status_group.isSome = registered := congrArg (·.2.1) hw
  cases registered with
  | true =>
    rcases hend with rfl | rfl
    · exact status_popped (registered_of_frame hw)
    · exact status_unwind hstack
  | false =>
    have hnone : w.status_group = none := by simpa using hnode
    rcases hend with rfl | rfl
    · rw [status_popped_of_none hnone, hnone, Option.map_none]
    · simp [Worker.unwind, hstack, framed, Worker.cleanup, Worker.emit, hnone]

theorem cleaned_of_finished (hg : (finished T kind cancelAt args).status_group = some g) :
    ∃ g' : StatusGroup, g = g'.cleaned T := by
  obtain ⟨w, hw⟩ : ∃ w : Worker, (finished T kind cancelAt args).status_group =
      w.status_group.map (·.cleaned T) := by
    rcases run_cases_at (wpAt_handler T kind args) cancelAt with
      ⟨n, a, _, -, hr, -, w, hframe, rfl⟩ | ⟨c, p, -, -, hr, registered, hframe⟩
    · exact ⟨w, by rw [finished, hr]; exact status_of_framed hframe (.inl rfl)⟩
    · exact ⟨p, by rw [finished, hr]; exact status_of_framed hframe (.inr rfl)⟩
  rw [hw] at hg
  obtain ⟨g', -, rfl⟩ := Option.map_eq_some_iff.mp hg
  exact ⟨g', rfl⟩

/-- **The entry of a run**, of whatever kind and however it ends, names no thread at the end, and
its action is `tb_test_done` or `tb_test_stopped`. -/
theorem entry_settles (T : TestBox) (kind : HandlerKind) (cancelAt : Option ℕ) (args : ThreadArgs) :
    ∀ g, (finished T kind cancelAt args).status_group = some g →
      g.thread = -1 ∧ g.action.Settled := by
  intro g hg
  obtain ⟨g', rfl⟩ := cleaned_of_finished hg
  exact ⟨(cleaned_terminal g').1, (cleaned_terminal g').2.1⟩

/-- A suite that is cancelled while it makes its buckets. -/
theorem entry_settles_suite : ∃ g,
    (finished noCase .suite (some 3) background).status_group = some g ∧
      g.thread = -1 ∧ g.action.Settled :=
  ⟨_, rfl, entry_settles noCase .suite (some 3) background _ rfl⟩

/-! ## Suites and groups -/

/-- The suites for which the handler makes buckets. -/
def suitesFor (T : TestBox) (args : ThreadArgs) : HandlerKind → ℕ
  | .group => ((T.tb_group_lookupnode args.node_name).map (·.suites.length)).getD 0
  | _ => 1

/-- A suite gets its bucket and those of its cases. -/
def BucketsAt (T : TestBox) (i : ℕ) : Prop :=
  T.tb_status_add_suite_bucket i = true ∧ T.tb_status_add_n_testcase_buckets i = 0

/-- The handler comes to the runner. -/
def Prepares (T : TestBox) (kind : HandlerKind) (args : ThreadArgs) : Prop :=
  (T.node kind args).isSome ∧ ∀ i < suitesFor T args kind, BucketsAt T i

/-- The calls before the runner: the node, and two for a suite with a time stamp behind them, or
three for each suite of a group and one that finds no more. -/
def runnerAt (T : TestBox) (kind : HandlerKind) (args : ThreadArgs) : ℕ :=
  nodeAt kind args +
    match kind with
    | .group => 3 * suitesFor T args .group + 2
    | _ => 4

/-- The entry that the runner gets: only the handler of suites has set it to `tb_test_running`. -/
def handedOver (T : TestBox) (kind : HandlerKind) (args : ThreadArgs) (g : StatusGroup) :
    StatusGroup :=
  match kind with
  | .group => g
  | _ => { g with
    verbose_level := args.verbose_level
    action := .running
    startTimeStamp := T.getTimeStamp 0 }

/-- The action that the runner leaves. -/
def leftBy (T : TestBox) (kind : HandlerKind) (args : ThreadArgs) : Option TestAction :=
  (T.node kind args).map fun g => (T.runnerEffect 0 (handedOver T kind args g)).action

/-- The runner is back before the call `c` and has left `tb_test_done`; or the handler of a suite,
which is past its next call, has set it, since the runner has not left `tb_test_stopped`. -/
def MarkedDone (T : TestBox) (kind : HandlerKind) (args : ThreadArgs) (c : ℕ) : Prop :=
  Prepares T kind args ∧ runnerAt T kind args < c ∧
    (leftBy T kind args = some .done ∨
      kind = .suite ∧ leftBy T kind args ≠ some .stopped ∧ runnerAt T kind args + 1 < c)

/-- The entry of the thread says `tb_test_done` at the call `c` if it should. -/
def Shows (T : TestBox) (kind : HandlerKind) (args : ThreadArgs) (c : ℕ) (w : Worker) : Prop :=
  ∀ g, w.status_group = some g → (g.action = .done ↔ MarkedDone T kind args c)

theorem shows_of_none (h : w.status_group = none) : Shows T kind args c w := fun g hg => by
  rw [h] at hg
  cases hg

theorem shows_of_not_done (hw : w.status_group = some g) (hg : g.action ≠ .done)
    (h : ¬ MarkedDone T kind args c) : Shows T kind args c w := by
  intro g' hg'
  obtain rfl := Option.some.inj (hw.symm.trans hg')
  exact iff_of_false hg h

theorem not_markedDone_of_le (h : c ≤ runnerAt T kind args) : ¬ MarkedDone T kind args c :=
  fun hd => Nat.not_lt_of_le h hd.2.1

/-- After `n` calls the runner is back if it was to be called, and what the entry says is right from
then on. -/
structure ShowsFrom (T : TestBox) (kind : HandlerKind) (args : ThreadArgs) (n : ℕ) (w : Worker) :
    Prop where
  shows : ∀ c, n ≤ c → Shows T kind args c w
  ran : Prepares T kind args →
    runnerAt T kind args < n ∧ (kind = .suite → runnerAt T kind args + 1 < n)

theorem ShowsFrom.wpAt {α : Type} {t : Thread Worker α} (ht : Keeps Worker.status_group t)
    (h : ShowsFrom T kind args k w) :
    wpAt t (Shows T kind args) (fun n _ w' => ShowsFrom T kind args n w') k w := by
  obtain ⟨hpoints, hfinal⟩ := ht w
  have hle : k ≤ k + numPoints t w := Nat.le_add_right _ _
  refine ⟨fun c p hc g hg => ?_, fun c hc g hg => ?_, fun hp => ?_⟩
  · rw [hpoints p (List.mem_of_getElem? hc)] at hg
    exact h.shows (k + c) (Nat.le_add_right _ _) g hg
  · rw [hfinal] at hg
    exact h.shows c (Nat.le_trans hle hc) g hg
  · obtain ⟨h1, h2⟩ := h.ran hp
    exact ⟨Nat.lt_of_lt_of_le h1 hle, fun hs => Nat.lt_of_lt_of_le (h2 hs) hle⟩

theorem keeps_status_finalizeThread (result : ℤ) :
    Keeps Worker.status_group (finalizeThread result) := by
  have hemit : ∀ e : Event, Keeps Worker.status_group (emit e) := fun e => keeps_modify fun _ => rfl
  refine keeps_bind keeps_get fun w => keeps_ite _ ?_ (keeps_bind (hemit _) fun _ => keeps_pure _)
  exact keeps_bind keeps_point fun _ => keeps_bind keeps_point fun _ =>
    keeps_bind (hemit _) fun _ => keeps_bind (hemit _) fun _ => keeps_pure _

theorem showsFrom_of_not_prepares (hp : ¬ Prepares T kind args)
    (hw : ∀ g, w.status_group = some g → g.action ≠ .done) : ShowsFrom T kind args n w where
  shows _ _ g hg := iff_of_false (hw g hg) fun hd => hp hd.1
  ran h := absurd h hp

theorem showsFrom_begun (hnode : T.node kind args = none) :
    ShowsFrom T kind args n (.begun args) := by
  refine showsFrom_of_not_prepares (fun hp => ?_) fun g hg => by cases hg
  rw [Prepares, hnode] at hp
  cases hp.1

theorem wpAt_runTest {Q : ℕ → ℤ → Worker → Prop} (hw : w.status_group = some g)
    (hg : g.action ≠ .done) (hk : k = runnerAt T kind args)
    (h : ∀ w', w'.status_group = some (T.runnerEffect 0 g) → Q (k + 1) (T.runner 0) w') :
    wpAt (runTest T none 0) (Shows T kind args) Q k w := by
  simp only [runTest, wpAt_bind, wpAt_point, onStatus, emit, wpAt_modify, wpAt_pure]
  refine ⟨shows_of_not_done hw hg (not_markedDone_of_le (Nat.le_of_eq hk)), h _ ?_⟩
  exact congrArg (Option.map _) hw

/-! ## Suites -/

theorem prepares_suite_iff (hnode : T.node .suite args = some g) :
    Prepares T .suite args ↔ BucketsAt T 0 := by
  simp [Prepares, hnode, suitesFor]

/-- **The handler of suites**, once it has its node. -/
theorem wpAt_suite_rest (hnode : T.node .suite args = some g) (hg : g.action ≠ .done)
    (hw : w.status_group = some g) (hdata : w.data = args) : wpAt (do
      call
      if ¬ T.tb_status_add_suite_bucket 0 then abort (-1)
      else do
        call
        if T.tb_status_add_n_testcase_buckets 0 ≠ 0 then
          abort (T.tb_status_add_n_testcase_buckets 0)
        else do
          startRun T
          let result ← runTest T none 0
          call
          onStatus fun g => { g with
            endTimeStamp := T.getTimeStamp 1
            action := if g.action ≠ .stopped then .done else g.action }
          pure result) (Shows T .suite args) (fun n _ w' => ShowsFrom T .suite args n w')
      (nodeAt .suite args + 1) w := by
  have hrunner : runnerAt T .suite args = nodeAt .suite args + 4 := rfl
  have hshows : ∀ c ≤ runnerAt T .suite args, Shows T .suite args c w := fun c hc =>
    shows_of_not_done hw hg (not_markedDone_of_le hc)
  have hnever : ¬ BucketsAt T 0 → ∀ n, ShowsFrom T .suite args n w := fun hb n =>
    showsFrom_of_not_prepares (fun hp => hb ((prepares_suite_iff hnode).mp hp)) fun g' hg' => by
      obtain rfl := Option.some.inj (hw.symm.trans hg')
      exact hg
  simp only [wpAt_bind, wpAt_point, wpAt_ite, wpAt_abort]
  refine ⟨hshows _ (by omega), ?_⟩
  split
  · next hb => exact ⟨hshows _ (by omega), hnever (fun h => hb h.1) _⟩
  next hb =>
  refine ⟨hshows _ (by omega), ?_⟩
  split
  · next hn => exact ⟨hshows _ (by omega), hnever (fun h => hn h.2) _⟩
  next hn =>
  have hprepares : Prepares T .suite args :=
    (prepares_suite_iff hnode).mpr ⟨not_not.mp hb, not_not.mp hn⟩
  have hleft : leftBy T .suite args =
      some (T.runnerEffect 0 (handedOver T .suite args g)).action := by
    rw [leftBy, hnode, Option.map_some]
  simp only [startRun, wpAt_bind, wpAt_get, wpAt_point, wpAt_modify, wpAt_pure, onStatus]
  refine ⟨shows_of_not_done (congrArg (Option.map _) hw) (by rintro ⟨⟩)
    (not_markedDone_of_le (by omega)), ?_⟩
  refine wpAt_runTest (g := handedOver T .suite args g) ?_ (by rintro ⟨⟩) (by omega)
    fun w' hw' => ?_
  · simp only [Worker.onStatus, hw, Option.map_some, handedOver, hdata]
  generalize T.runnerEffect 0 (handedOver T .suite args g) = g' at hleft hw'
  constructor
  · -- the time stamp is taken before the action is set
    intro g'' hg''
    obtain rfl := Option.some.inj (hw'.symm.trans hg'')
    rw [MarkedDone, hleft, and_iff_right hprepares, and_iff_right (by omega)]
    constructor
    · exact fun h => .inl (congrArg some h)
    · rintro (h | ⟨-, -, h⟩)
      · exact Option.some.inj h
      · omega
  · refine ⟨fun c hc g'' hg'' => ?_, fun _ => ⟨by omega, fun _ => by omega⟩⟩
    obtain rfl := Option.some.inj ((congrArg (Option.map _) hw').symm.trans hg'')
    rw [MarkedDone, hleft, and_iff_right hprepares, and_iff_right (by omega)]
    dsimp only
    by_cases hstopped : g'.action = .stopped
    · rw [if_neg (not_not.mpr hstopped), hstopped]
      exact iff_of_false (by rintro ⟨⟩) (by rintro (h | ⟨-, h, -⟩) <;> [cases h; exact h rfl])
    · rw [if_pos hstopped]
      refine iff_of_true rfl (.inr ⟨rfl, fun h => hstopped (Option.some.inj h), by omega⟩)

/-! ## Groups -/

/-- The loop over the suites comes to its end if and only if all get their buckets. -/
theorem suiteBuckets_ok (suites : List (List Char)) (i : ℕ) (result : ℤ) (w : Worker) :
    (∀ j < suites.length, BucketsAt T (i + j)) ↔
      (suiteBuckets T suites i result w).value = .ok () := by
  induction suites generalizing i result with
  | nil => exact iff_of_true (fun j hj => absurd hj (Nat.not_lt_zero j)) rfl
  | cons s suites ih =>
    have hshift : ∀ j, i + 1 + j = i + (j + 1) := fun j => by omega
    have hsplit : (∀ j < (s :: suites).length, BucketsAt T (i + j)) ↔
        BucketsAt T i ∧ ∀ j < suites.length, BucketsAt T (i + 1 + j) := by
      simp only [hshift, List.length_cons, Nat.forall_lt_succ_left, Nat.add_zero]
    rw [hsplit, BucketsAt]
    by_cases hb : T.tb_status_add_suite_bucket i
    · by_cases hn : T.tb_status_add_n_testcase_buckets i = 0
      · simpa [suiteBuckets, hb, hn] using ih (i + 1) 0
      · simp [suiteBuckets, hb, hn, abort]
    · simp [suiteBuckets, hb, abort]

theorem numPoints_suiteBuckets {suites : List (List Char)} {i : ℕ} {result : ℤ}
    (h : (suiteBuckets T suites i result w).value = .ok ()) :
    numPoints (suiteBuckets T suites i result) w = 3 * suites.length + 1 := by
  induction suites generalizing i result with
  | nil => rfl
  | cons s suites ih =>
    by_cases hb : T.tb_status_add_suite_bucket i
    · by_cases hn : T.tb_status_add_n_testcase_buckets i = 0
      · have hrest := @ih (i + 1) 0 (by simpa [suiteBuckets, hb, hn] using h)
        simp only [numPoints] at hrest
        simp [suiteBuckets, hb, hn, numPoints, hrest]
        omega
      · simp [suiteBuckets, hb, hn, abort] at h
    · simp [suiteBuckets, hb, abort] at h

theorem prepares_group_iff {group : Group}
    (hgroup : T.tb_group_lookupnode args.node_name = some group)
    (hnode : T.node .group args = some g) :
    Prepares T .group args ↔
      (suiteBuckets T group.suites 0 (-1) w).value = .ok () := by
  simp [Prepares, hnode, suitesFor, hgroup, ← suiteBuckets_ok]

/-- **The handler of groups**, once it has its node. -/
theorem wpAt_group_rest {group : Group}
    (hgroup : T.tb_group_lookupnode args.node_name = some group)
    (hnode : T.node .group args = some g) (hg : g.action ≠ .done) (hw : w.status_group = some g) :
    wpAt (do
      match ← suiteBuckets T group.suites 0 (-1) with
      | .error result => pure result
      | .ok () => runTest T none 0) (Shows T .group args)
      (fun n _ w' => ShowsFrom T .group args n w') (nodeAt .group args + 1) w := by
  have hrunner : runnerAt T .group args = nodeAt .group args + (3 * group.suites.length + 2) := by
    simp [runnerAt, suitesFor, hgroup]
  obtain ⟨hpoints, hfinal⟩ := keeps_suiteBuckets (T := T) Worker.status_group group.suites 0 (-1) w
  have hprepares := prepares_group_iff (w := w) hgroup hnode
  have hvalue : ∀ c, c ≤ runnerAt T .group args ∨ ¬ Prepares T .group args →
      ¬ MarkedDone T .group args c := fun c h hd =>
    h.elim (not_markedDone_of_le · hd) fun h => h hd.1
  rw [wpAt_bind]
  refine ⟨fun c p hc => ?_, ?_⟩
  · refine shows_of_not_done ((hpoints p (List.mem_of_getElem? hc)).trans hw) hg (hvalue _ ?_)
    by_cases hp : Prepares T .group args
    · have hlt := (List.getElem?_eq_some_iff.mp hc).1
      have hnum := numPoints_suiteBuckets (hprepares.mp hp)
      rw [numPoints] at hnum
      exact .inl (by omega)
    · exact .inr hp
  have hnode' := hfinal.trans hw
  generalize (suiteBuckets T group.suites 0 (-1) w).final = w₁ at hnode'
  cases hres : (suiteBuckets T group.suites 0 (-1) w).value with
  | error result =>
    refine (wpAt_pure _ _).mpr (showsFrom_of_not_prepares (fun hp => ?_) fun g' hg' => ?_)
    · rw [hprepares, hres] at hp
      cases hp
    · obtain rfl := Option.some.inj (hnode'.symm.trans hg')
      exact hg
  | ok _ =>
    have hp : Prepares T .group args := hprepares.mpr hres
    have hnum := numPoints_suiteBuckets hres
    have hleft : leftBy T .group args = some (T.runnerEffect 0 g).action := by
      rw [leftBy, hnode, Option.map_some, handedOver]
    refine wpAt_runTest hnode' hg (by omega) fun w' hw' => ?_
    refine ⟨fun c hc g' hg' => ?_, fun _ => ⟨by omega, by rintro ⟨⟩⟩⟩
    obtain rfl := Option.some.inj (hw'.symm.trans hg')
    rw [MarkedDone, hleft, and_iff_right hp, and_iff_right (by omega)]
    constructor
    · exact fun h => .inl (congrArg some h)
    · rintro (h | ⟨h, -, -⟩)
      · exact Option.some.inj h
      · cases h

/-! ## The runs -/

theorem action_of_node (hnew : ∀ name size loops g,
      T.tb_status_add_group_node name size loops = some g → g.action ≠ .done)
    (hnode : T.node kind args = some g) : g.action ≠ .done := by
  obtain ⟨-, hg⟩ := Option.ite_none_right_eq_some.mp hnode
  cases kind with
  | group =>
    obtain ⟨group, -, hg⟩ := Option.bind_eq_some_iff.mp hg
    exact hnew _ _ _ g hg
  | _ => exact hnew _ _ _ g hg

theorem wpAt_registers {name : List Char} {size : ℤ} {rest : Thread Worker ℤ}
    (hnode : T.node kind args = T.tb_status_add_group_node name size args.loops)
    (hrest : ∀ g, T.node kind args = some g →
      wpAt rest (Shows T kind args) (fun n _ w' => ShowsFrom T kind args n w') (k + 1)
        ((Worker.begun args).register g)) :
    wpAt (withStatusGroup T name size rest) (Shows T kind args)
      (fun n _ w' => ShowsFrom T kind args n w') k (.begun args) := by
  have hnone : ∀ c, Shows T kind args c (.begun args) := fun _ => shows_of_none rfl
  simp only [withStatusGroup, wpAt_bind, wpAt_point, wpAt_get, begun_data]
  refine ⟨hnone _, ?_⟩
  rw [← hnode]
  cases hg : T.node kind args with
  | none =>
    rw [wpAt_abort]
    exact ⟨hnone _, showsFrom_begun hg⟩
  | some g =>
    simp only [wpAt_bind, wpAt_modify]
    exact hrest g hg

theorem wpAt_collected_body (hkind : kind = .suite ∨ kind = .group)
    (hnew : ∀ name size loops g, T.tb_status_add_group_node name size loops = some g →
      g.action ≠ .done) :
    wpAt (body T kind) (Shows T kind args) (fun n _ w' => ShowsFrom T kind args n w')
      args.clientCalls (.begun args) := by
  have hnone : ∀ c, Shows T kind args c (.begun args) := fun _ => shows_of_none rfl
  rcases hkind with rfl | rfl
  · simp only [body, suiteBody, wpAt_bind, wpAt_get, wpAt_point, wpAt_ite]
    refine ⟨hnone _, ?_⟩
    split
    · next hf =>
      have hf' : T.found .suite args.node_name = false := eq_false_of_ne_true hf
      rw [wpAt_abort]
      exact ⟨hnone _, showsFrom_begun (by simp [TestBox.node, hf'])⟩
    · next hf =>
      have hf' : T.found .suite args.node_name = true := not_not.mp hf
      refine wpAt_registers (by simp [TestBox.node, hf']) fun g hnode => ?_
      exact wpAt_suite_rest hnode (action_of_node hnew hnode) rfl rfl
  · simp only [body, groupBody, wpAt_bind, wpAt_get, wpAt_point, begun_data]
    refine ⟨hnone _, ?_⟩
    cases hgroup : T.tb_group_lookupnode args.node_name with
    | none =>
      rw [wpAt_abort]
      exact ⟨hnone _, showsFrom_begun (by simp [TestBox.node, TestBox.found, hgroup])⟩
    | some group =>
      refine wpAt_registers (by simp [TestBox.node, TestBox.found, hgroup]) fun g hnode => ?_
      exact wpAt_group_rest hgroup hnode (action_of_node hnew hnode) rfl

/-- **The handlers**: what the entry says at each call, and after the last. -/
theorem wpAt_collected (hkind : kind = .suite ∨ kind = .group)
    (hnew : ∀ name size loops g, T.tb_status_add_group_node name size loops = some g →
      g.action ≠ .done) :
    wpAt (handler T kind) (Shows T kind args)
      (fun n _ w => ∃ w', ShowsFrom T kind args n w' ∧
        w.status_group = w'.status_group.map (·.cleaned T)) 0 (.start args) := by
  rw [handler_eq]
  refine wpAt_withCleanup (fun _ => shows_of_none rfl) ?_
  rw [Nat.zero_add]
  refine wpAt_mono (wpAt_and (wpAt_collected_body hkind hnew) (wpAt_body T kind args _))
    (fun _ _ h => h.1) fun n result w h => ?_
  refine wpAt_mono (wpAt_and (h.1.wpAt (keeps_status_finalizeThread result))
    (wpAt_finalizeThread result h.2.1)) (fun _ _ h => h.1) fun n' _ w' h' => ?_
  exact ⟨w', h'.1, status_of_framed h'.2.1 (.inl rfl)⟩

/-- The run comes to this end: the runner is back before a cancellation acts, and has left
`tb_test_done`; or it has left something else than `tb_test_stopped` to the handler of a suite, and
no cancellation acts on the time stamp either. -/
def EndsDone (T : TestBox) (kind : HandlerKind) (cancelAt : Option ℕ) (args : ThreadArgs) : Prop :=
  Prepares T kind args ∧ (∀ c, cancelAt = some c → runnerAt T kind args < c) ∧
    (leftBy T kind args = some .done ∨ kind = .suite ∧ leftBy T kind args ≠ some .stopped ∧
      ∀ c, cancelAt = some c → runnerAt T kind args + 1 < c)

theorem action_finished (hkind : kind = .suite ∨ kind = .group)
    (hnew : ∀ name size loops g, T.tb_status_add_group_node name size loops = some g →
      g.action ≠ .done) (hg : (finished T kind cancelAt args).status_group = some g) :
    g.action = .done ↔ EndsDone T kind cancelAt args := by
  rcases run_cases_at (wpAt_and (@wpAt_collected T kind args hkind hnew)
      (wpAt_handler T kind args)) cancelAt with
    ⟨n, a, w, hn, hr, ⟨w', hw', hstatus⟩, -⟩ | ⟨c, p, hc, -, hr, hp, registered, hframe⟩
  · rw [finished, hr] at hg
    obtain ⟨g', hg', rfl⟩ := Option.map_eq_some_iff.mp (hstatus.symm.trans hg)
    rw [(cleaned_terminal g').2.2, hw'.shows n (Nat.le_refl n) g' hg', MarkedDone, EndsDone]
    refine and_congr_right fun hprepares => ?_
    obtain ⟨h1, h2⟩ := hw'.ran hprepares
    refine and_congr (iff_of_true h1 fun c hc => Nat.lt_of_lt_of_le h1 (hn c hc)) ?_
    refine or_congr_right (and_congr_right fun hs => and_congr_right fun _ => ?_)
    exact iff_of_true (h2 hs) fun c hc => Nat.lt_of_lt_of_le (h2 hs) (hn c hc)
  · rw [finished, hr] at hg
    obtain ⟨g', hg', rfl⟩ := Option.map_eq_some_iff.mp
      ((status_of_framed hframe (.inr rfl)).symm.trans hg)
    rw [(cleaned_terminal g').2.2, hp g' hg', MarkedDone, EndsDone, hc]
    simp only [Option.some.injEq, forall_eq']

/-- **The entry of a suite or a group** says `tb_test_done` at the end of exactly these runs, and
`tb_test_stopped` at the end of all others. -/
theorem collected_done_iff (hkind : kind = .suite ∨ kind = .group)
    (hnew : ∀ name size loops g, T.tb_status_add_group_node name size loops = some g →
      g.action ≠ .done) :
    ∀ g, (finished T kind cancelAt args).status_group = some g →
      (g.action = .done ↔ EndsDone T kind cancelAt args) ∧
        (g.action = .stopped ↔ ¬ EndsDone T kind cancelAt args) := by
  intro g hg
  have hdone := action_finished hkind hnew hg
  refine ⟨hdone, ?_⟩
  rw [← hdone]
  obtain ⟨g', rfl⟩ := cleaned_of_finished hg
  rcases (cleaned_terminal (T := T) g').2.1 with h | h
  · exact iff_of_false (by rw [h]; rintro ⟨⟩) (not_not_intro h)
  · exact iff_of_true h (by rw [h]; rintro ⟨⟩)

/-- A suite that the runner leaves running is done; one that is cancelled while it makes its buckets
is not. -/
theorem collected_done_suite :
    (∃ g, (finished noCase .suite none background).status_group = some g ∧ g.action = .done) ∧
      ∃ g, (finished noCase .suite (some 3) background).status_group = some g ∧
        g.action = .stopped := by
  have hnew : ∀ name size loops g, noCase.tb_status_add_group_node name size loops = some g →
      g.action ≠ .done := by
    rintro _ _ _ _ ⟨⟩
    decide
  have hends : EndsDone noCase .suite none background :=
    ⟨⟨rfl, fun _ _ => ⟨rfl, rfl⟩⟩, by rintro _ ⟨⟩, .inr ⟨rfl, by decide, by rintro _ ⟨⟩⟩⟩
  have hcancelled : ¬ EndsDone noCase .suite (some 3) background := fun h =>
    absurd (h.2.1 3 rfl) (by decide)
  exact ⟨⟨_, rfl, (collected_done_iff (.inl rfl) hnew _ rfl).1.mpr hends⟩,
    ⟨_, rfl, (collected_done_iff (.inl rfl) hnew _ rfl).2.mpr hcancelled⟩⟩

/-- A group is not: its handler sets no action. -/
example : (finished { noCase with tb_group_lookupnode := fun name => some ⟨name, 1, [['t']]⟩ }
    .group none background).status_group.map (·.action) = some .stopped := by
  decide

end Dib
