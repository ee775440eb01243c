import Dib.Args.WellFormed

/-!
# The utilities

`cmd_parse` first looks for a utility. It runs the one it finds, and answers with the text for
`status`, which each utility has to set from the result of what it did.

* `UtilOp`, `UtilBox`: what a utility does, and how that ends;
* `Utility`, `Utility.run`: the utilities; a `NULL` that is followed ends in `none`;
* `utilityAt`, `cmdUtility`: the loop that looks for one;
* `Utility.Rejects`, `Faithful`: when the answer has to be an error;
* **`faithful_iff`**: the answer is right but for five utilities that do not look at the result.
-/

set_option autoImplicit false

namespace Dib

open CString

/-! ## Operations -/

/-- What a utility does beyond printing. -/
inductive UtilOp where
  | tb_status_deleteall
  | tb_status_delete_group_node (index : ℤ)
  | pthread_cancel (thread : ℤ)
  | stepmode (suite : List Char)
  | add_group_from_file (filename : List Char)
  | load_testcase_from_lib (lib : List Char)
  | unload_lib (lib : List Char)
  | list_libs
  | logLevel (level : ℤ)
  /-- The line of the log with this number. -/
  | tb_socket_send_data (line : ℕ)
  | system
  | set_verbose_level (level : ℤ)
  | set_output_filename
  | initialize_result_file
  | uninitialize_result_file
  deriving DecidableEq, Repr

/-- What libtestbox and the system answer while one utility runs. -/
structure UtilBox extends CmdBox where
  /-- The operation fails. -/
  fails : UtilOp → Bool
  /-- It returns nothing. -/
  stepmode_void : ∀ suite, fails (.stepmode suite) = false
  tb_case_lookupnode : List Char → Bool
  tb_suite_lookupnode : List Char → Bool
  tb_status_getsize_group_reg : ℤ
  /-- The thread of a status node, -1 when it has ended; `none` for `NULL`. -/
  tb_status_lookup_group_node_by_idx : ℤ → Option ℤ
  /-- The number of lines in the log, if it can be opened. -/
  log : Option ℕ

/-- What a utility did, and whether `status` is not `TB_OK`. -/
structure UtilRun where
  ops : List UtilOp
  status : Bool
  deriving DecidableEq, Repr

def UtilRun.resp (r : UtilRun) : String := if r.status then "TESTBOX_ERROR" else "TESTBOX_OK"

/-- `strncmp(s, t, n) == 0`. -/
def strncmpEq (s t : List Char) (n : ℕ) : Bool := s.take n = t.take n

def tbThreadsKillThread (U : UtilBox) (index : ℤ) : Option UtilRun :=
  match U.tb_status_lookup_group_node_by_idx index with
  | none => none
  | some thread =>
    if thread ≠ -1 then some ⟨[.pthread_cancel thread], U.fails (.pthread_cancel thread)⟩
    else some ⟨[], false⟩

/-! ## Utilities -/

/-- The utilities, in the order in which the loop compares them. -/
inductive Utility where
  | clear
  | help
  | descr
  | kill
  | status
  | list
  | examples
  | step
  | group_from_file
  | loadlib
  | unloadlib
  | listlib
  | find
  | log_level
  | log_read
  | log_clear
  | verbose_level
  | xml_file
  deriving DecidableEq, Repr

namespace Utility

def all : List Utility :=
  [clear, help, descr, kill, status, list, examples, step, group_from_file, loadlib, unloadlib,
    listlib, find, log_level, log_read, log_clear, verbose_level, xml_file]

def text : Utility → List Char
  | clear => "--clear".toList
  | help => "--help".toList
  | descr => "--descr".toList
  | kill => "--kill".toList
  | status => "--status".toList
  | list => "--list".toList
  | examples => "--examples".toList
  | step => "--step".toList
  | group_from_file => "--group_from_file".toList
  | loadlib => "--loadlib".toList
  | unloadlib => "--unloadlib".toList
  | listlib => "--listlib".toList
  | find => "--find".toList
  | log_level => "--log_level".toList
  | log_read => "--log_read".toList
  | log_clear => "--log_clear".toList
  | verbose_level => "--verbose_level".toList
  | xml_file => "--xml_file".toList

variable (U : UtilBox) (argc : ℕ) (value : List Char)

/-- **The branch of a utility**, up to the label `exit`; `value` is the string behind it. -/
def run : Utility → Option UtilRun
  | clear =>
    if strncmpEq "all".toList value U.TB_STR_LEN then some ⟨[.tb_status_deleteall], false⟩
    else if 0 ≤ atoi value ∧ atoi value < U.tb_status_getsize_group_reg then
      some ⟨[.tb_status_delete_group_node (atoi value)], false⟩
    else some ⟨[], false⟩
  | help | status | list | examples => some ⟨[], false⟩
  | descr => some ⟨[], ! (U.tb_case_lookupnode value || U.tb_suite_lookupnode value)⟩
  | kill =>
    -- `if (result) status = TB_OK`, which it is already
    (tbThreadsKillThread U (atoi value)).map fun result => { result with status := false }
  | step =>
    if argc = 3 then
      if U.tb_suite_lookupnode value then some ⟨[.stepmode value], false⟩ else some ⟨[], true⟩
    else some ⟨[], true⟩
  | group_from_file => some ⟨[.add_group_from_file value], U.fails (.add_group_from_file value)⟩
  | loadlib => some ⟨[.load_testcase_from_lib value], U.fails (.load_testcase_from_lib value)⟩
  | unloadlib => some ⟨[.unload_lib value], U.fails (.unload_lib value)⟩
  | listlib => some ⟨[.list_libs], U.fails .list_libs⟩
  | find => if 2 < argc then some ⟨[], false⟩ else some ⟨[], true⟩
  | log_level => if argc = 3 then some ⟨[.logLevel (atoi value)], false⟩ else some ⟨[], false⟩
  | log_read =>
    match U.log with
    | none => some ⟨[], false⟩
    | some n => some ⟨(List.range n).map .tb_socket_send_data,
        (List.range n).foldl
          (fun status line => if U.fails (.tb_socket_send_data line) then true else status) false⟩
  | log_clear => some ⟨[.system], false⟩
  | verbose_level =>
    if argc = 3 then
      let level := toInt (strtol value)
      if U.TB_VERB_OFF ≤ level ∧ level ≤ U.TB_VERB_OFF_LOG then
        some ⟨[.set_verbose_level level], U.fails (.set_verbose_level level)⟩
      else some ⟨[], true⟩
    else some ⟨[], false⟩
  | xml_file =>
    if strncmpEq "open".toList value 4 then
      some ⟨[.set_output_filename, .initialize_result_file], false⟩
    else if strncmpEq "close".toList value 5 then
      some ⟨[.uninitialize_result_file], U.fails .uninitialize_result_file⟩
    else some ⟨[], true⟩

end Utility

/-- The utility that an argument is. -/
def utilityOf (arg : List Char) : Option Utility := Utility.all.find? fun u => u.text = arg

/-- The first utility of a command, with the argument behind it if there is one. -/
def utilityAt : List (List Char) → Option (Utility × Option (List Char))
  | [] => none
  | arg :: rest =>
    match utilityOf arg with
    | some u => some (u, rest.head?)
    | none => utilityAt rest

/-- The first loop of `cmd_parse`; the inner `none` is a `NULL` that is followed. -/
def cmdUtility (U : UtilBox) (argv : List (List Char)) (beyond : List Char) :
    Option (Option UtilRun) :=
  if argv.length = 1 then some (some ⟨[], false⟩)
  else (utilityAt argv).map fun x => x.1.run U argv.length (x.2.getD beyond)

/-! ## Statement -/

namespace Utility

variable (U : UtilBox) (argc : ℕ) (value : List Char)

/-- The argument is to be rejected: an index without a status node, a name without a case or suite,
a level out of range, an unknown word, or the wrong number of arguments. -/
def Rejects : Utility → Prop
  | clear => strncmpEq "all".toList value U.TB_STR_LEN = false ∧
      ¬ (0 ≤ atoi value ∧ atoi value < U.tb_status_getsize_group_reg)
  | descr => U.tb_case_lookupnode value = false ∧ U.tb_suite_lookupnode value = false
  | kill => U.tb_status_lookup_group_node_by_idx (atoi value) = none
  | step => argc = 3 → U.tb_suite_lookupnode value = false
  | find => argc ≤ 2
  | verbose_level => argc = 3 ∧
      ¬ (U.TB_VERB_OFF ≤ atoi value ∧ atoi value ≤ U.TB_VERB_OFF_LOG)
  | xml_file => strncmpEq "open".toList value 4 = false ∧ strncmpEq "close".toList value 5 = false
  | _ => False

/-- Where the utility does not look at it, the argument is accepted and the operation succeeds. -/
def GoesWell : Utility → Prop
  | clear =>
    if strncmpEq "all".toList value U.TB_STR_LEN then U.fails .tb_status_deleteall = false
    else (0 ≤ atoi value ∧ atoi value < U.tb_status_getsize_group_reg) ∧
      U.fails (.tb_status_delete_group_node (atoi value)) = false
  | kill => ∃ thread, U.tb_status_lookup_group_node_by_idx (atoi value) = some thread ∧
      (thread ≠ -1 → U.fails (.pthread_cancel thread) = false)
  | log_level => argc = 3 → U.fails (.logLevel (atoi value)) = false
  | log_clear => U.fails .system = false
  | xml_file => strncmpEq "open".toList value 4 = true →
      U.fails .set_output_filename = false ∧ U.fails .initialize_result_file = false
  | _ => True

/-- The utility answers with an error exactly when its argument is rejected or what it does fails;
a rejected argument leads to nothing. -/
def Answers (u : Utility) : Prop :=
  ∃ r, u.run U argc value = some r ∧
    (r.resp = "TESTBOX_ERROR" ↔ u.Rejects U argc value ∨ ∃ op ∈ r.ops, U.fails op = true) ∧
    (u.Rejects U argc value → r.ops = [])

end Utility

/-- **The outcome of a command** is reported as it is, and no test is launched. -/
structure Faithful (U : UtilBox) (argv : List (List Char)) (beyond : List Char) (fd : ℤ)
    (u : Utility) (value : List Char) : Prop where
  ran : cmdUtility U argv beyond = some (u.run U argv.length value)
  answers : u.Answers U argv.length value
  not_launched : ∀ wait kind a str,
    cmdParse U.toCmdBox argv beyond fd ≠ .launched wait kind a str

/-! ## Answers -/

variable {U : UtilBox} {argc : ℕ} {value : List Char}

@[simp] theorem UtilRun.resp_eq_error_iff {r : UtilRun} :
    r.resp = "TESTBOX_ERROR" ↔ r.status = true := by
  unfold resp
  split_ifs with h <;> simp [h]

theorem answers_of_run {u : Utility} {r : UtilRun} (h : u.run U argc value = some r) :
    u.Answers U argc value ↔
      (r.status = true ↔ u.Rejects U argc value ∨ ∃ op ∈ r.ops, U.fails op = true) ∧
        (u.Rejects U argc value → r.ops = []) := by
  simp [Utility.Answers, h]

theorem answers_of_checked {u : Utility} {op : UtilOp}
    (h : u.run U argc value = some ⟨[op], U.fails op⟩) (hrej : ¬ u.Rejects U argc value) :
    u.Answers U argc value := by
  rw [answers_of_run h]
  simp [hrej]

theorem answers_of_rejected {u : Utility} (h : u.run U argc value = some ⟨[], true⟩)
    (hrej : u.Rejects U argc value) : u.Answers U argc value := by
  rw [answers_of_run h]
  simp [hrej]

theorem answers_unchecked_iff {u : Utility} {ops : List UtilOp}
    (h : u.run U argc value = some ⟨ops, false⟩) :
    u.Answers U argc value ↔
      ¬ u.Rejects U argc value ∧ ∀ op ∈ ops, U.fails op = false := by
  rw [answers_of_run h]
  simp only [Bool.false_eq_true, false_iff, not_or, not_exists, not_and, Bool.not_eq_true]
  exact ⟨fun h => h.1, fun h => ⟨h, fun hrej => absurd hrej h.1⟩⟩

theorem answers_clear_iff :
    Utility.clear.Answers U argc value ↔ Utility.clear.GoesWell U argc value := by
  by_cases hall : strncmpEq "all".toList value U.TB_STR_LEN = true
  · have hrun : Utility.clear.run U argc value = some ⟨[.tb_status_deleteall], false⟩ := if_pos hall
    have hrej : ¬ Utility.clear.Rejects U argc value := fun h =>
      absurd hall (Bool.eq_false_iff.mp h.1)
    rw [answers_unchecked_iff hrun, Utility.GoesWell, if_pos hall, and_iff_right hrej,
      List.forall_mem_singleton]
  by_cases hidx : 0 ≤ atoi value ∧ atoi value < U.tb_status_getsize_group_reg
  · have hrun : Utility.clear.run U argc value =
        some ⟨[.tb_status_delete_group_node (atoi value)], false⟩ := by
      rw [Utility.run, if_neg hall, if_pos hidx]
    have hrej : ¬ Utility.clear.Rejects U argc value := fun h => h.2 hidx
    rw [answers_unchecked_iff hrun, Utility.GoesWell, if_neg hall, and_iff_right hrej,
      and_iff_right hidx, List.forall_mem_singleton]
  · have hrun : Utility.clear.run U argc value = some ⟨[], false⟩ := by
      rw [Utility.run, if_neg hall, if_neg hidx]
    have hrej : Utility.clear.Rejects U argc value := ⟨Bool.eq_false_iff.mpr hall, hidx⟩
    rw [answers_unchecked_iff hrun, Utility.GoesWell, if_neg hall]
    exact iff_of_false (fun h => h.1 hrej) (fun h => hidx h.1)

theorem answers_kill_iff :
    Utility.kill.Answers U argc value ↔ Utility.kill.GoesWell U argc value := by
  cases hnode : U.tb_status_lookup_group_node_by_idx (atoi value) with
  | none => simp [Utility.Answers, Utility.run, Utility.GoesWell, tbThreadsKillThread, hnode]
  | some thread =>
    by_cases hthread : thread = -1
    · have hrun : Utility.kill.run U argc value = some ⟨[], false⟩ := by
        simp [Utility.run, tbThreadsKillThread, hnode, hthread]
      rw [answers_unchecked_iff hrun]
      simp [Utility.Rejects, Utility.GoesWell, hnode, hthread]
    · have hrun : Utility.kill.run U argc value = some ⟨[.pthread_cancel thread], false⟩ := by
        simp [Utility.run, tbThreadsKillThread, hnode, hthread]
      rw [answers_unchecked_iff hrun]
      simp [Utility.Rejects, Utility.GoesWell, hnode, hthread]

theorem answers_log_level_iff :
    Utility.log_level.Answers U argc value ↔ Utility.log_level.GoesWell U argc value := by
  have hrej : ¬ Utility.log_level.Rejects U argc value := id
  by_cases hargc : argc = 3
  · have hrun : Utility.log_level.run U argc value = some ⟨[.logLevel (atoi value)], false⟩ :=
      if_pos hargc
    rw [answers_unchecked_iff hrun, Utility.GoesWell, and_iff_right hrej,
      List.forall_mem_singleton]
    exact ⟨fun h _ => h, fun h => h hargc⟩
  · have hrun : Utility.log_level.run U argc value = some ⟨[], false⟩ := if_neg hargc
    rw [answers_unchecked_iff hrun, Utility.GoesWell, and_iff_right hrej]
    exact iff_of_true (List.forall_mem_nil _) (fun h => absurd h hargc)

theorem answers_log_clear_iff :
    Utility.log_clear.Answers U argc value ↔ Utility.log_clear.GoesWell U argc value := by
  have hrej : ¬ Utility.log_clear.Rejects U argc value := id
  rw [answers_unchecked_iff (u := .log_clear) rfl, Utility.GoesWell, and_iff_right hrej,
    List.forall_mem_singleton]

theorem answers_xml_file_iff :
    Utility.xml_file.Answers U argc value ↔ Utility.xml_file.GoesWell U argc value := by
  by_cases hopen : strncmpEq "open".toList value 4 = true
  · have hrun : Utility.xml_file.run U argc value =
        some ⟨[.set_output_filename, .initialize_result_file], false⟩ := if_pos hopen
    have hrej : ¬ Utility.xml_file.Rejects U argc value := fun h =>
      absurd hopen (Bool.eq_false_iff.mp h.1)
    rw [answers_unchecked_iff hrun, Utility.GoesWell, and_iff_right hrej,
      forall_prop_of_true hopen, List.forall_mem_cons, List.forall_mem_singleton]
  refine iff_of_true ?_ (fun h => absurd h hopen)
  by_cases hclose : strncmpEq "close".toList value 5 = true
  · have hrun : Utility.xml_file.run U argc value =
        some ⟨[.uninitialize_result_file], U.fails .uninitialize_result_file⟩ := by
      rw [Utility.run, if_neg hopen, if_pos hclose]
    exact answers_of_checked hrun fun h => absurd hclose (Bool.eq_false_iff.mp h.2)
  · refine answers_of_rejected ?_ ⟨Bool.eq_false_iff.mpr hopen, Bool.eq_false_iff.mpr hclose⟩
    rw [Utility.run, if_neg hopen, if_neg hclose]

theorem foldl_status_iff (p : ℕ → Bool) (l : List ℕ) (status : Bool) :
    l.foldl (fun status k => if p k then true else status) status = true ↔
      status = true ∨ ∃ k ∈ l, p k = true := by
  induction l generalizing status with
  | nil => simp
  | cons k l ih =>
    rw [List.foldl_cons, ih]
    by_cases hk : p k = true <;> simp [hk]

theorem answers_log_read : Utility.log_read.Answers U argc value := by
  have hrej : ¬ Utility.log_read.Rejects U argc value := id
  cases hlog : U.log with
  | none =>
    have hrun : Utility.log_read.run U argc value = some ⟨[], false⟩ := by
      rw [Utility.run, hlog]
    exact (answers_unchecked_iff hrun).mpr ⟨hrej, List.forall_mem_nil _⟩
  | some n =>
    have hrun : Utility.log_read.run U argc value =
        some ⟨(List.range n).map .tb_socket_send_data, (List.range n).foldl
          (fun status line => if U.fails (.tb_socket_send_data line) then true else status)
          false⟩ := by
      rw [Utility.run, hlog]
    rw [answers_of_run hrun, foldl_status_iff fun line => U.fails (.tb_socket_send_data line)]
    simp [hrej]

theorem answers_verbose_level : Utility.verbose_level.Answers U argc value := by
  by_cases hargc : argc = 3
  · by_cases hlevel : U.TB_VERB_OFF ≤ atoi value ∧ atoi value ≤ U.TB_VERB_OFF_LOG
    · have hrun : Utility.verbose_level.run U argc value =
          some ⟨[.set_verbose_level (atoi value)], U.fails (.set_verbose_level (atoi value))⟩ := by
        rw [Utility.run, if_pos hargc]
        exact if_pos hlevel
      exact answers_of_checked hrun fun h => h.2 hlevel
    · refine answers_of_rejected ?_ ⟨hargc, hlevel⟩
      rw [Utility.run, if_pos hargc]
      exact if_neg hlevel
  · have hrun : Utility.verbose_level.run U argc value = some ⟨[], false⟩ := if_neg hargc
    exact (answers_unchecked_iff hrun).mpr ⟨fun h => hargc h.1, List.forall_mem_nil _⟩

theorem answers_step : Utility.step.Answers U argc value := by
  by_cases hstep : argc = 3 ∧ U.tb_suite_lookupnode value = true
  · have hrun : Utility.step.run U argc value = some ⟨[.stepmode value], false⟩ := by
      rw [Utility.run, if_pos hstep.1, if_pos hstep.2]
    refine (answers_unchecked_iff hrun).mpr ⟨fun h => ?_, ?_⟩
    · exact absurd hstep.2 (Bool.eq_false_iff.mp (h hstep.1))
    · exact List.forall_mem_singleton.mpr (U.stepmode_void value)
  · refine answers_of_rejected ?_ fun hargc => ?_
    · rw [Utility.run]
      split_ifs with h1 h2
      · exact absurd ⟨h1, h2⟩ hstep
      · rfl
      · rfl
    · exact Bool.eq_false_iff.mpr fun h => hstep ⟨hargc, h⟩

theorem answers_descr : Utility.descr.Answers U argc value := by
  rw [answers_of_run (u := .descr) rfl]
  simp [Utility.Rejects]

theorem answers_find : Utility.find.Answers U argc value := by
  by_cases hargc : 2 < argc
  · have hrun : Utility.find.run U argc value = some ⟨[], false⟩ := if_pos hargc
    exact (answers_unchecked_iff hrun).mpr
      ⟨fun h => absurd hargc (Nat.not_lt.mpr h), List.forall_mem_nil _⟩
  · have hrun : Utility.find.run U argc value = some ⟨[], true⟩ := if_neg hargc
    exact answers_of_rejected hrun (Nat.le_of_not_lt hargc)

/-- **Each utility** answers as it should, five of them only if all goes well. -/
theorem answers_iff (u : Utility) : u.Answers U argc value ↔ u.GoesWell U argc value := by
  cases u with
  | clear => exact answers_clear_iff
  | kill => exact answers_kill_iff
  | log_level => exact answers_log_level_iff
  | log_clear => exact answers_log_clear_iff
  | xml_file => exact answers_xml_file_iff
  | log_read => exact iff_of_true answers_log_read trivial
  | verbose_level => exact iff_of_true answers_verbose_level trivial
  | step => exact iff_of_true answers_step trivial
  | descr => exact iff_of_true answers_descr trivial
  | find => exact iff_of_true answers_find trivial
  | group_from_file | loadlib | unloadlib | listlib =>
    exact iff_of_true (answers_of_checked rfl id) trivial
  | help | status | list | examples =>
    exact iff_of_true ((answers_unchecked_iff rfl).mpr ⟨id, List.forall_mem_nil _⟩) trivial

/-! ## The loop that looks for a utility -/

variable {argv : List (List Char)} {beyond : List Char} {fd : ℤ}

theorem utilities_eq : utilities = Utility.all.map Utility.text := rfl

theorem utilityOf_eq_none_iff {arg : List Char} : utilityOf arg = none ↔ arg ∉ utilities := by
  rw [utilityOf, List.find?_eq_none, utilities_eq, List.mem_map]
  simp

theorem utilityAt_eq_none_iff : utilityAt argv = none ↔ argv.find? (· ∈ utilities) = none := by
  induction argv with
  | nil => simp [utilityAt]
  | cons arg rest ih =>
    by_cases harg : arg ∈ utilities
    · obtain ⟨u, hu⟩ : ∃ u, utilityOf arg = some u := by
        rw [← Option.ne_none_iff_exists', ne_eq, utilityOf_eq_none_iff]
        exact fun h => h harg
      rw [utilityAt, hu, List.find?_cons_of_pos (by simpa using harg)]
      simp
    · rw [utilityAt, utilityOf_eq_none_iff.mpr harg, List.find?_cons_of_neg (by simpa using harg)]
      exact ih

/-- **A command that is a utility**, with its value or whatever string is behind it, is answered
faithfully if and only if it is not one of the five utilities that do not look at the result, or all
goes well. -/
theorem faithful_iff {u : Utility} {v : Option (List Char)} (hat : utilityAt argv = some (u, v))
    (hargc : argv.length ≠ 1) :
    Faithful U argv beyond fd u (v.getD beyond) ↔
      u.GoesWell U argv.length (v.getD beyond) := by
  rw [← answers_iff]
  refine ⟨fun h => h.answers, fun h => ⟨?_, h, fun wait kind a str hlaunched => ?_⟩⟩
  · rw [cmdUtility, if_neg hargc, hat]
    rfl
  · cases hname : argv.find? (· ∈ utilities) with
    | none =>
      rw [← utilityAt_eq_none_iff, hat] at hname
      cases hname
    | some name =>
      rw [cmdParse, if_neg hargc, hname] at hlaunched
      cases hlaunched

/-- A daemon without status nodes, in which nothing fails. -/
def idleBox : UtilBox where
  toCmdBox := caseBox
  fails _ := false
  stepmode_void _ := rfl
  tb_case_lookupnode name := name = ['t']
  tb_suite_lookupnode _ := false
  tb_status_getsize_group_reg := 0
  tb_status_lookup_group_node_by_idx _ := none
  log := none

/-- `dibc --loadlib l`. -/
theorem faithful_iff_loadlib :
    Faithful idleBox (["dibc", "--loadlib", "l"].map String.toList) [] 4 .loadlib ['l'] := by
  have hwell : Utility.loadlib.GoesWell idleBox 3 ['l'] := trivial
  exact (faithful_iff (v := some ['l']) rfl (by decide)).mpr hwell

/-- `dibc --clear 7`: there is no such status node, and nothing is said about it. -/
theorem clearCommand_unfaithful :
    ¬ Faithful idleBox (["dibc", "--clear", "7"].map String.toList) [] 4 .clear ['7'] := by
  rintro ⟨-, ⟨r, hr, hresp, -⟩, -⟩
  obtain rfl := Option.some.inj hr
  have herror := hresp.mpr (.inl ⟨rfl, by decide⟩)
  exact absurd herror (by decide)

end Dib
