import Dib.Lib.Thread
import Mathlib.Data.Int.Notation

/-!
# Test threads: the four handlers and the thread that waits for them

Every call of libtestbox and of the log, and `sleep`, is a cancellation point: `call`. What the
library answers is a parameter, `TestBox`.

* `ThreadArgs`, `StatusGroup`, `Worker`: the argument record, the status node, and the state of a
  test thread with its stack of cleanup routines and the trace of its events;
* `executions`: the loop that a test case and an executable share;
* `tbThreadHandlerCase`, `tbThreadHandlerSuite`, `tbThreadHandlerGroup`,
  `tbThreadHandlerExecutable`: the handlers; a `goto wrapup_thread` returns `result` to
  `withCleanup`;
* `execTestThread`: the thread is created, perhaps cancelled, and its answer written to `resp`.
-/

set_option autoImplicit false

namespace Dib

open Thread

/-! ## Data -/

inductive TestAction where
  | idle
  | running
  | done
  | stopped
  deriving DecidableEq, Repr

/-- `tb_status_group_nod_t`; `thread` is `-1` once its thread is gone. -/
structure StatusGroup where
  thread : ℤ
  action : TestAction
  verbose_level : ℤ
  startTimeStamp : ℤ
  endTimeStamp : ℤ
  deriving DecidableEq, Repr

structure ThreadArgs where
  socket : ℤ
  verbose_level : ℤ
  wait_for_response : Bool
  loops : ℤ
  gen_xml_file : Bool
  stop_on_fail : Bool
  execution_time : ℤ
  execution_dly_time : ℤ
  node_name : List Char
  argv : List (List Char)
  deriving DecidableEq, Repr

/-- `tb_testgroup_nod_t` with the names of its suites, in the order of `tb_group_lookupsuite`. -/
structure Group where
  name : List Char
  size : ℤ
  suites : List (List Char)
  deriving DecidableEq, Repr

/-- The answers of libtestbox and of the clock to one test thread. The index of a bucket is that of
its suite in the group, the index of a run or of a reading of the clock counts them. -/
structure TestBox where
  tb_case_lookupnode : List Char → Bool
  tb_suite_lookupnode : List Char → Bool
  tb_group_lookupnode : List Char → Option Group
  tb_status_add_group_node : List Char → ℤ → ℤ → Option StatusGroup
  tb_status_add_suite_bucket : ℕ → Bool
  tb_status_add_testcase_bucket : Bool
  tb_status_add_n_testcase_buckets : ℕ → ℤ
  /-- The value returned by the `i`-th call of the test runner. -/
  runner : ℕ → ℤ
  /-- What that call does to the status node. -/
  runnerEffect : ℕ → StatusGroup → StatusGroup
  clock_gettime : ℕ → ℤ
  getTimeStamp : ℕ → ℤ
  /-- The conversion of a sum of seconds to the type of `execution_time`. -/
  narrow : ℤ → ℤ

/-- The cleanup routines of the handlers. -/
inductive Cleanup where
  | handler_thread_cleanup
  | status_group_cleanup
  deriving DecidableEq, Repr

/-- What a test thread does, as others see it. -/
inductive Event where
  | clientAdd (socket : ℤ)
  | clientRemove
  /-- A call of the test runner returned; `tb_exec_run_executable` gets a command line. -/
  | run (command : Option (List Char)) (outcome : ℤ)
  | sleep (seconds : ℤ)
  | suiteStart (name : List Char)
  | suiteEnd
  | freeArgs
  /-- A `pthread_cleanup_pop`: the routine its text is paired with, and the one on the stack. -/
  | pop (paired : Cleanup) (found : Option Cleanup)
  /-- A cleanup routine is executed. -/
  | cleaned (c : Cleanup)
  deriving DecidableEq, Repr

/-- A `pthread_cleanup_pop` without its push. -/
def Event.isFault : Event → Bool
  | .pop paired found => found ≠ some paired
  | _ => false

/-- A test thread: its argument record, its status node, its cleanup stack and its trace. -/
structure Worker where
  data : ThreadArgs
  status_group : Option StatusGroup
  cleanups : List Cleanup
  events : List Event
  deriving DecidableEq, Repr

def Worker.start (data : ThreadArgs) : Worker := ⟨data, none, [], []⟩

namespace Worker

def emit (e : Event) (w : Worker) : Worker := { w with events := w.events ++ [e] }

@[simp] theorem emit_data (e : Event) (w : Worker) : (w.emit e).data = w.data := rfl

/-- Assign to fields of the status node. -/
def onStatus (f : StatusGroup → StatusGroup) (w : Worker) : Worker :=
  { w with status_group := w.status_group.map f }

@[simp] theorem onStatus_data (f : StatusGroup → StatusGroup) (w : Worker) :
    (w.onStatus f).data = w.data := rfl

/-- The node is there, and its cleanup routine is pushed. -/
def register (g : StatusGroup) (w : Worker) : Worker :=
  { w with status_group := some g, cleanups := .status_group_cleanup :: w.cleanups }

/-- `handler_thread_cleanup` and `status_group_cleanup`. -/
def cleanup (T : TestBox) : Cleanup → Worker → Worker
  | .handler_thread_cleanup, w => w.emit (.cleaned .handler_thread_cleanup)
  | .status_group_cleanup, w =>
    (w.onStatus fun g =>
      if g.action ≠ .done ∧ g.action ≠ .stopped then
        { g with thread := -1, action := .stopped, endTimeStamp := T.getTimeStamp 2 }
      else { g with thread := -1 }).emit (.cleaned .status_group_cleanup)

/-- A pop was reached whose push had been jumped over; it calls a routine that was never set. -/
def faulted (w : Worker) : Bool := w.events.any Event.isFault

/-- `pthread_cleanup_pop(1)`, which is paired with the push of `paired` by its place in the text.
Without that push it is a fault, and the thread goes no further. -/
def pop (T : TestBox) (paired : Cleanup) (w : Worker) : Worker :=
  if w.faulted then w
  else
    match w.cleanups with
    | [] => w.emit (.pop paired none)
    | c :: cs =>
      if c = paired then ({ w with cleanups := cs }.emit (.pop paired (some c))).cleanup T c
      else w.emit (.pop paired (some c))

/-- A cancelled thread executes its cleanup routines, the last one pushed first. -/
def unwind (T : TestBox) (w : Worker) : Worker :=
  w.cleanups.foldl (fun w c => w.cleanup T c) { w with cleanups := [] }

/-- The values that the test runner has returned so far. -/
def outcomes (w : Worker) : List ℤ :=
  w.events.filterMap fun
    | .run _ r => some r
    | _ => none

end Worker

/-! ## Steps of a test thread -/

/-- A call where a cancellation may act. -/
abbrev call : Thread Worker Unit := point

def emit (e : Event) : Thread Worker Unit := modify (Worker.emit e)

def onStatus (f : StatusGroup → StatusGroup) : Thread Worker Unit := modify (Worker.onStatus f)

/-- A call of the test runner, the `i`-th of this thread. -/
def runTest (T : TestBox) (command : Option (List Char)) (i : ℕ) : Thread Worker ℤ := do
  call
  onStatus (T.runnerEffect i)
  emit (.run command (T.runner i))
  pure (T.runner i)

/-- `finalize_thread`: the status of the `thread_return_t`, `none` for `NULL`. -/
def finalizeThread (result : ℤ) : Thread Worker (Option ℤ) := do
  let w ← get
  if w.data.wait_for_response then do
    call -- TB_LOG
    call
    emit .clientRemove
    emit .freeArgs
    pure (some result)
  else do
    emit .freeArgs
    pure none

/-- The frame of the handlers: `body` returns the `result` it has at `wrapup_thread`. -/
def withCleanup (T : TestBox) (body : Thread Worker ℤ) : Thread Worker (Option ℤ) := do
  modify fun w => { w with cleanups := .handler_thread_cleanup :: w.cleanups }
  let w ← get
  if w.data.wait_for_response then do
    call
    emit (.clientAdd w.data.socket)
  let result ← body
  let thread_return ← finalizeThread result
  modify (Worker.pop T .status_group_cleanup)
  modify (Worker.pop T .handler_thread_cleanup)
  pure thread_return

/-- `TB_LOG` of an error, and `goto wrapup_thread`. -/
def abort (result : ℤ) : Thread Worker ℤ := do
  call
  pure result

/-- `tb_status_add_group_node`; when it succeeds, `status_group_cleanup` is pushed. -/
def withStatusGroup (T : TestBox) (name : List Char) (size : ℤ) (body : Thread Worker ℤ) :
    Thread Worker ℤ := do
  call
  let w ← get
  match T.tb_status_add_group_node name size w.data.loops with
  | none => abort (-1)
  | some g => do
    modify (Worker.register g)
    body

/-- The status node says that the run has started. -/
def startRun (T : TestBox) : Thread Worker Unit := do
  let w ← get
  onStatus fun g => { g with verbose_level := w.data.verbose_level, action := .running }
  call -- getTimeStamp
  onStatus fun g => { g with startTimeStamp := T.getTimeStamp 0 }

/-! ## Cases and executables -/

/-- The label `exit`: `endTimeStamp` is set. -/
def exitRun (T : TestBox) (action : TestAction) (result : ℤ) : Thread Worker ℤ := do
  onStatus fun g => { g with action := action }
  call -- getTimeStamp
  onStatus fun g => { g with endTimeStamp := T.getTimeStamp 1 }
  pure result

/-- The loop over `executions`, with `n` of them left; `pace` is what it does between two. -/
def executions (T : TestBox) (command : Option (List Char)) (pace : Thread Worker Unit) :
    ℕ → ℕ → ℤ → Thread Worker ℤ
  | 0, _, result => do
    let w ← get
    if w.data.gen_xml_file then do
      call
      emit .suiteEnd
    exitRun T .done result
  | n + 1, i, result => do
    let outcome ← runTest T command i
    let w ← get
    let result := if outcome ≠ 0 then -1 else result
    if result ≠ 0 ∧ w.data.stop_on_fail then exitRun T .stopped result
    else if w.data.execution_time ≠ 0 ∧ w.data.execution_time < T.clock_gettime (i + 1) then
      exitRun T .done result
    else do
      pace
      executions T command pace n (i + 1) result

/-- Before the loop: `suite_start_message_handler`, and the deadline. -/
def beginLoop (T : TestBox) : Thread Worker Unit := do
  let w ← get
  if w.data.gen_xml_file then do
    call
    emit (.suiteStart w.data.node_name)
  if w.data.execution_time ≠ 0 then
    modify fun w => { w with data := { w.data with
      execution_time := T.narrow (w.data.execution_time + T.clock_gettime 0) } }

/-- The run of a case or of an executable: one suite with one case in it, and the loop. -/
def runCounted (T : TestBox) (command : Option (List Char)) (pace : Thread Worker Unit) :
    Thread Worker ℤ := do
  let w ← get
  withStatusGroup T w.data.node_name 1 do
    call
    if ¬ T.tb_status_add_suite_bucket 0 then abort (-1)
    else do
      call
      if ¬ T.tb_status_add_testcase_bucket then abort (-1)
      else do
        startRun T
        beginLoop T
        executions T command pace w.data.loops.toNat 0 0

/-- `sleep(data->execution_dly_time);`. -/
def sleepBetween : Thread Worker Unit := do
  let w ← get
  call
  emit (.sleep w.data.execution_dly_time)

def caseBody (T : TestBox) : Thread Worker ℤ := do
  let w ← get
  call
  if ¬ T.tb_case_lookupnode w.data.node_name then abort (-1)
  else runCounted T none sleepBetween

def tbThreadHandlerCase (T : TestBox) : Thread Worker (Option ℤ) := withCleanup T (caseBody T)

/-- The command line of an executable: `argv` joined by blanks. -/
def commandLine : List (List Char) → List Char
  | [] => []
  | arg :: args => args.foldl (fun cmd a => cmd ++ [' '] ++ a) arg

/-- The body of `tb_thread_handler_executable`: no `sleep` between two executions. -/
def executableBody (T : TestBox) : Thread Worker ℤ := do
  let w ← get
  runCounted T (some (commandLine w.data.argv)) (pure ())

def tbThreadHandlerExecutable (T : TestBox) : Thread Worker (Option ℤ) :=
  withCleanup T (executableBody T)

/-! ## Suites and groups -/

def suiteBody (T : TestBox) : Thread Worker ℤ := do
  let w ← get
  call
  if ¬ T.tb_suite_lookupnode w.data.node_name then abort (-1)
  else withStatusGroup T w.data.node_name 1 do
    call
    if ¬ T.tb_status_add_suite_bucket 0 then abort (-1)
    else do
      call
      if T.tb_status_add_n_testcase_buckets 0 ≠ 0 then
        abort (T.tb_status_add_n_testcase_buckets 0)
      else do
        startRun T
        let result ← runTest T none 0
        call -- getTimeStamp
        onStatus fun g => { g with
          endTimeStamp := T.getTimeStamp 1
          action := if g.action ≠ .stopped then .done else g.action }
        pure result

def tbThreadHandlerSuite (T : TestBox) : Thread Worker (Option ℤ) := withCleanup T (suiteBody T)

/-- The loop of the group handler over the remaining suites: the `result` of a `goto
wrapup_thread`, or its end. -/
def suiteBuckets (T : TestBox) : List (List Char) → ℕ → ℤ → Thread Worker (Except ℤ Unit)
  | [], _, _ => do
    call -- tb_group_lookupsuite
    pure (.ok ())
  | _ :: suites, s_cnt, result => do
    call -- tb_group_lookupsuite
    call
    if ¬ T.tb_status_add_suite_bucket s_cnt then do
      let result ← abort result
      pure (.error result)
    else do
      call
      if T.tb_status_add_n_testcase_buckets s_cnt ≠ 0 then do
        let result ← abort (T.tb_status_add_n_testcase_buckets s_cnt)
        pure (.error result)
      else suiteBuckets T suites (s_cnt + 1) (T.tb_status_add_n_testcase_buckets s_cnt)

def groupBody (T : TestBox) : Thread Worker ℤ := do
  let w ← get
  call
  match T.tb_group_lookupnode w.data.node_name with
  | none => abort (-1)
  | some group =>
    withStatusGroup T group.name group.size do
      match ← suiteBuckets T group.suites 0 (-1) with
      | .error result => pure result
      | .ok () => runTest T none 0

def tbThreadHandlerGroup (T : TestBox) : Thread Worker (Option ℤ) := withCleanup T (groupBody T)

/-! ## Waiting for the thread -/

inductive HandlerKind where
  | case
  | suite
  | group
  | executable
  deriving DecidableEq, Repr

/-- The function `cmd_parse` passes to `exec_test_thread`. -/
def handler (T : TestBox) : HandlerKind → Thread Worker (Option ℤ)
  | .case => tbThreadHandlerCase T
  | .suite => tbThreadHandlerSuite T
  | .group => tbThreadHandlerGroup T
  | .executable => tbThreadHandlerExecutable T

def body (T : TestBox) : HandlerKind → Thread Worker ℤ
  | .case => caseBody T
  | .suite => suiteBody T
  | .group => groupBody T
  | .executable => executableBody T

theorem handler_eq (T : TestBox) (kind : HandlerKind) :
    handler T kind = withCleanup T (body T kind) := by
  cases kind <;> rfl

/-- `BOLDRED "TESTBOX_FAIL" RESET_COLOR`. -/
def TESTBOX_FAIL : List Char := "\x1b[1m\x1b[31mTESTBOX_FAIL\x1b[0m".toList

def TESTBOX_PASS : List Char := "TESTBOX_PASS".toList

/-- `sprintf(resp, "%s :: %s", name, text)`. -/
def verdict (name text : List Char) : List Char := name ++ " :: ".toList ++ text

/-- What `exec_test_thread` leaves: the answer and its return value, neither of which is there when
the test thread has taken the daemon down, and the test thread at its end. -/
structure Executed where
  resp : Option (List Char)
  status : Option ℤ
  worker : Worker
  deriving DecidableEq, Repr

/-- `exec_test_thread`, once admitted, for a thread that is or is not `created` and on which a
cancellation request, of `--kill` or after the time-out, acts at `cancelAt`. `none` where the status
of a `NULL` response is read. -/
def execTestThread (T : TestBox) (kind : HandlerKind) (created : Bool) (cancelAt : Option ℕ)
    (wait : Bool) (args : ThreadArgs) (name : List Char) : Option Executed :=
  if ¬ created then
    some ⟨some "TESTBOX_ERROR".toList, some (-1), (Worker.start args).emit .freeArgs⟩
  else
    match run (handler T kind) cancelAt (Worker.start args), wait with
    | .cancelled w, false => some ⟨some "TESTBOX_OK".toList, some 0, w.unwind T⟩
    | .cancelled w, true => some ⟨some (verdict name TESTBOX_FAIL), some (-1),
        if args.gen_xml_file then (w.unwind T).emit .suiteEnd else w.unwind T⟩
    | .returned thread_return w, wait =>
      if w.faulted then some ⟨none, none, w⟩
      else if wait then thread_return.map fun status =>
        ⟨some (verdict name (if status ≠ 0 then TESTBOX_FAIL else TESTBOX_PASS)),
          some (if status ≠ 0 then -1 else 0), w⟩
      else some ⟨some "TESTBOX_OK".toList, some 0, w⟩

end Dib
