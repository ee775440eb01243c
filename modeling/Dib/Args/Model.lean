import Dib.Handlers.Model
import Dib.Lib.CString

/-!
# The command line of a test

`cmd_parse` looks for a utility in the whole command; without one it allocates a `thread_args_t`,
goes through the options and launches a test.

* `strtol`, `atoi`, `timeStrToSec`: numbers and times in arguments;
* `CmdArgs`, `CmdBox`: the record, and what libtestbox answers;
* `creatDefaultThreadArgs`, `parseOption`, `parseOptions`: the record before, during and after the
  loop; an option may abort the command, or leave the array `argv` of the record;
* `cmdParse`: the whole, up to the call of `exec_test_thread`.
-/

set_option autoImplicit false

namespace Dib

open CString

/-! ## Numbers -/

def isSpace (c : Char) : Bool :=
  c = ' ' ∨ c = '\t' ∨ c = '\n' ∨ c = '\x0b' ∨ c = '\x0c' ∨ c = '\x0d'

/-- The number that the leading digits make. -/
def decimal (s : List Char) : ℤ :=
  (s.takeWhile Char.isDigit).foldl (fun n c => 10 * n + (c.toNat - '0'.toNat : ℕ)) 0

/-- `strtol(s, NULL, 10)`, which stays within the range of a `long`. -/
def strtol (s : List Char) : ℤ :=
  match s.dropWhile isSpace with
  | '-' :: s => max (-2 ^ 63) (-decimal s)
  | '+' :: s => min (2 ^ 63 - 1) (decimal s)
  | s => min (2 ^ 63 - 1) (decimal s)

/-- The conversion to `int`. -/
def toInt (n : ℤ) : ℤ := n.bmod (2 ^ 32)

def atoi (s : List Char) : ℤ := toInt (strtol s)

/-! ## Times -/

/-- The positions of the first three colons that the loop of `time_str_to_sec` finds. -/
structure Colons where
  d : ℤ
  h : ℤ
  m : ℤ
  deriving DecidableEq, Repr

/-- The loop, in at most `n` rounds, from `i`. -/
def findColons (time_str : List Char) : ℕ → ℕ → Colons → Colons
  | 0, _, c => c
  | n + 1, i, c =>
    if time_str.length ≤ i then c
    else
      let (i, c) := if time_str[i]? = some ':' ∧ c.d = -1 then (i + 1, { c with d := i }) else (i, c)
      let (i, c) := if time_str[i]? = some ':' ∧ c.h = -1 then (i + 1, { c with h := i }) else (i, c)
      let (i, c) := if time_str[i]? = some ':' ∧ c.m = -1 then (i + 1, { c with m := i }) else (i, c)
      findColons time_str n (i + 1) c

/-- The one or two characters before position `e` are printed to `tmp`; a field of another width
leaves it as it is. -/
def printField (time_str : List Char) (e width : ℤ) (tmp : List Char) : List Char :=
  if width = 2 then (time_str.drop (e - 2).toNat).take 2
  else if width = 1 then (time_str.drop (e - 1).toNat).take 1
  else tmp

/-- `time_str_to_sec`: the seconds of a text such as `dd:hh:mm:ss`; `tmp` is what the local array
holds before anything is printed to it. -/
def timeStrToSec (tmp time_str : List Char) : Option ℤ :=
  let len : ℤ := time_str.length
  if len < 3 then none
  else
    let c := findColons time_str time_str.length 0 ⟨-1, -1, -1⟩
    let tmp := if 0 < c.d then printField time_str c.d c.d tmp else tmp
    let dd := if 0 < c.d then 86400 * atoi tmp else 0
    let tmp := if 1 < c.h - c.d then printField time_str c.h (c.h - c.d - 1) tmp else tmp
    let hh := if 1 < c.h - c.d then 3600 * atoi tmp else 0
    let tmp := if 1 < c.m - c.h then printField time_str c.m (c.m - c.h - 1) tmp else tmp
    let mm := if 1 < c.m - c.h then 60 * atoi tmp else 0
    let ss := if 3 < len then atoi (printField time_str len (len - c.m - 1) tmp) else 0
    some (toInt (dd + hh + mm + ss))

example : timeStrToSec [] "00:00:01:30".toList = some 90 := by decide

example : timeStrToSec [] "1:02:03:4".toList = some 93784 := by decide

/-! ## Data -/

inductive TestType where
  | group
  | suite
  | testcase
  | exec
  | unknown
  deriving DecidableEq, Repr

/-- The constants of libtestbox and its answers while one command is parsed; `i` is the index of the
argument that is asked about. -/
structure CmdBox where
  TB_STR_LEN : ℕ
  TB_MAX_ARGS : ℕ
  TB_VERB_OFF : ℤ
  TB_VERB_RESP : ℤ
  TB_VERB_OFF_LOG : ℤ
  get_verbose_level : ℤ
  tb_exec_find_group_suite_or_case : ℕ → List Char → TestType
  tb_exec_check_executable : ℕ → List Char → TestType
  /-- Whether `calloc` finds memory for the record. -/
  calloc : Bool
  /-- What `tmp` of `time_str_to_sec` holds at first: what earlier calls have left on the stack. -/
  tmp : ℕ → List Char
  level_range : TB_VERB_OFF ≤ get_verbose_level ∧ get_verbose_level ≤ TB_VERB_OFF_LOG
  resp_range : TB_VERB_OFF ≤ TB_VERB_RESP ∧ TB_VERB_RESP ≤ TB_VERB_OFF_LOG
  resp_ne : TB_VERB_RESP ≠ TB_VERB_OFF ∧ TB_VERB_RESP ≠ TB_VERB_OFF_LOG

/-- `thread_args_t` as `cmd_parse` fills it; its strings are arrays of `TB_STR_LEN` characters. -/
structure CmdArgs where
  socket : ℤ
  verbose_level : ℤ
  wait_for_response : Bool
  extended : Bool
  gen_xml_file : Bool
  stop_on_fail : Bool
  loops : ℤ
  max_timeout : ℤ
  execution_time : ℤ
  execution_dly_time : ℤ
  node_name : List Char
  argc : ℕ
  argv : List (List Char)
  deriving DecidableEq, Repr

/-- What a handler reads of the record. -/
def CmdArgs.toThreadArgs (a : CmdArgs) : ThreadArgs where
  socket := a.socket
  verbose_level := a.verbose_level
  wait_for_response := a.wait_for_response
  loops := a.loops
  gen_xml_file := a.gen_xml_file
  stop_on_fail := a.stop_on_fail
  execution_time := a.execution_time
  execution_dly_time := a.execution_dly_time
  node_name := cstr a.node_name
  argv := (a.argv.take a.argc).map cstr

/-- Why a command is not launched. -/
inductive CmdError where
  | verbose (level : ℤ)
  | loop (n : ℤ)
  | maxtmo (n : ℤ)
  | exe_time_usage
  | exe_time (n : ℤ)
  | exe_dly_time_usage
  | exe_dly_time (n : ℤ)
  | exe_dly_time_zero (level : ℤ)
  | no_test
  deriving DecidableEq, Repr

/-- The text printed to the client. -/
def CmdError.text : CmdError → String
  | .verbose level => "--verbose level [" ++ toString level ++ "] is out of range\n"
  | .loop n => "--loop [" ++ toString n ++ "] is out of range\n"
  | .maxtmo n => "--maxtmo [" ++ toString n ++ "] is out of range\n"
  | .exe_time_usage => "usage: --exe_time 00:00:00:00\n"
  | .exe_time n => "--exe_time [" ++ toString n ++ "] is out of range\n"
  | .exe_dly_time_usage => "usage: --exe_dly_time 00:00:00:00\n"
  | .exe_dly_time n => "--exe_dly_time [" ++ toString n ++ "] is out of range\n"
  | .exe_dly_time_zero level => "The --exe_dly_time is not allowed to be 0 in verbose level " ++
      toString level ++ ", aborting\n"
  | .no_test => "Valid executable, group, suite or case not found in input string, aborting\n"

/-! ## The options -/

/-- `thread_args` and `threadfunc`; `str` gets the same name as `node_name`. -/
structure ParseState where
  args : CmdArgs
  threadfunc : Option HandlerKind
  str : List Char
  deriving DecidableEq, Repr

/-- What an argument leads to: the next one is looked at, or skipped; the command is aborted; `argv`
of the record is left. -/
inductive OptionResult where
  | next (s : ParseState)
  | skip (s : ParseState)
  | abort (e : CmdError)
  | fault

/-- Levels at which nobody waits for the response. -/
def CmdBox.Detached (B : CmdBox) (level : ℤ) : Prop :=
  level = B.TB_VERB_OFF ∨ level = B.TB_VERB_OFF_LOG

instance (B : CmdBox) (level : ℤ) : Decidable (B.Detached level) :=
  inferInstanceAs (Decidable (_ ∨ _))

/-- A zeroed string. -/
def CmdBox.zeros (B : CmdBox) : List Char := List.replicate B.TB_STR_LEN NUL

def creatDefaultThreadArgs (B : CmdBox) : Option CmdArgs :=
  if B.calloc then
    some {
      socket := 0
      verbose_level := B.get_verbose_level
      wait_for_response := ¬ B.Detached B.get_verbose_level
      extended := false
      gen_xml_file := false
      stop_on_fail := false
      loops := 1
      max_timeout := 0
      execution_time := 0
      execution_dly_time := 0
      node_name := B.zeros
      argc := 0
      argv := List.replicate B.TB_MAX_ARGS B.zeros }
  else none

/-- `strncpy(thread_args->argv[row], arg, TB_STR_LEN - 1)`. -/
def writeArg (B : CmdBox) (row : ℕ) (arg : List Char) (a : CmdArgs) : Option CmdArgs :=
  if row < a.argv.length then
    some { a with argv := a.argv.modify row fun dst => strncpy dst arg (B.TB_STR_LEN - 1) }
  else none

/-- The argument names what is to be run, by the handler `kind` if there is one for it. -/
def selectTest (B : CmdBox) (arg : List Char) (kind : Option HandlerKind) (s : ParseState) :
    OptionResult :=
  match writeArg B 0 arg
      { s.args with node_name := strncpy s.args.node_name arg (B.TB_STR_LEN - 1) } with
  | none => .fault
  | some a => .next
      { args := { a with argc := a.argc + 1 }
        threadfunc := kind
        str := strncpy s.str arg (B.TB_STR_LEN - 1) }

/-- The handler for what `tb_exec_find_group_suite_or_case` finds. -/
def TestType.handler : TestType → Option HandlerKind
  | .group => some .group
  | .suite => some .suite
  | .testcase => some .case
  | _ => none

/-- The arguments that are not options: the name of a test, a file to execute, or an argument of the
test. -/
def parseWord (B : CmdBox) (i : ℕ) (arg : List Char) (s : ParseState) : OptionResult :=
  if s.threadfunc = none ∧ B.tb_exec_find_group_suite_or_case i arg ≠ .unknown then
    selectTest B arg (B.tb_exec_find_group_suite_or_case i arg).handler s
  else if s.threadfunc = none ∧ B.tb_exec_check_executable i arg ≠ .unknown then
    selectTest B arg
      (if B.tb_exec_check_executable i arg = .exec then some .executable else none) s
  else
    match writeArg B s.args.argc arg s.args with
    | none => .fault
    | some a => .next { s with args := { a with argc := a.argc + 1 } }

/-- The body of the loop over the arguments; `value` is the string behind `arg`. -/
def parseOption (B : CmdBox) (i : ℕ) (arg value : List Char) (s : ParseState) : OptionResult :=
  if arg = "--verbose".toList then
    let level := atoi value
    if level < B.TB_VERB_OFF ∨ B.TB_VERB_OFF_LOG < level then .abort (.verbose level)
    else .skip { s with args := { s.args with
      verbose_level := level, wait_for_response := ¬ B.Detached level } }
  else if arg = "--extend".toList ∨ arg = "--extended".toList then
    .next { s with args := { s.args with extended := true } }
  else if arg = "--xml".toList then
    .next { s with args := { s.args with gen_xml_file := true } }
  else if arg = "--loop".toList then
    let loops := atoi value
    if loops ≤ 0 then .abort (.loop loops)
    else .skip { s with args := { s.args with loops := loops } }
  else if arg = "--stoponfail".toList then
    .next { s with args := { s.args with stop_on_fail := true } }
  else if arg = "--wait".toList then
    .next { s with args := { s.args with
      wait_for_response := true
      verbose_level :=
        if B.Detached s.args.verbose_level then B.TB_VERB_RESP else s.args.verbose_level } }
  else if arg = "--maxtmo".toList then
    -- no `i++` here: the value is looked at as an argument again
    let max_timeout := atoi value
    if max_timeout ≤ 0 then .abort (.maxtmo max_timeout)
    else .next { s with args := { s.args with max_timeout := max_timeout } }
  else if arg = "--exe_time".toList then
    match timeStrToSec (B.tmp i) value with
    | none => .abort .exe_time_usage
    | some sec =>
      if sec ≤ 0 then .abort (.exe_time sec)
      else .skip { s with args := { s.args with execution_time := sec, loops := 0x7fffffff } }
  else if arg = "--exe_dly_time".toList then
    match timeStrToSec (B.tmp i) value with
    | none => .abort .exe_dly_time_usage
    | some sec =>
      if sec ≤ 0 then .abort (.exe_dly_time sec)
      else .skip { s with args := { s.args with execution_dly_time := sec } }
  else parseWord B i arg s

inductive Parsed where
  | done (s : ParseState)
  | abort (e : CmdError)
  | fault

/-- The loop over the arguments from the `i`-th; `beyond` is the string in `argv[argc]`. -/
def parseOptions (B : CmdBox) (beyond : List Char) : List (List Char) → ℕ → ParseState → Parsed
  | [], _, s => .done s
  | arg :: rest, i, s =>
    match parseOption B i arg (rest.head?.getD beyond) s with
    | .next s => parseOptions B beyond rest (i + 1) s
    | .skip s =>
      match rest with
      | [] => .done s
      | _ :: rest => parseOptions B beyond rest (i + 2) s
    | .abort e => .abort e
    | .fault => .fault

/-! ## The command -/

/-- The words that make a command a utility. -/
def utilities : List (List Char) :=
  ["--clear", "--help", "--descr", "--kill", "--status", "--list", "--examples", "--step",
    "--group_from_file", "--loadlib", "--unloadlib", "--listlib", "--find", "--log_level",
    "--log_read", "--log_clear", "--verbose_level", "--xml_file"].map String.toList

/-- What `cmd_parse` does with a command. -/
inductive CmdOutcome where
  | help
  | utility (name : List Char)
  /-- `goto exit` behind the allocation of the record, which is freed there. -/
  | failed (e : CmdError)
  /-- The call of `exec_test_thread`. -/
  | launched (wait : Bool) (threadfunc : HandlerKind) (thread_args : CmdArgs) (name : List Char)
  /-- Memory is used that is not there. -/
  | fault

def cmdParse (B : CmdBox) (argv : List (List Char)) (beyond : List Char) (client_sock_fd : ℤ) :
    CmdOutcome :=
  if argv.length = 1 then .help
  else
    match argv.find? (· ∈ utilities) with
    | some name => .utility name
    | none =>
      match creatDefaultThreadArgs B with
      | none => .fault
      | some a =>
        match parseOptions B beyond argv.tail 1 ⟨{ a with socket := client_sock_fd }, none, B.zeros⟩
            with
        | .abort e => .failed e
        | .fault => .fault
        | .done s =>
          if s.args.verbose_level = B.TB_VERB_OFF_LOG ∧ s.args.execution_dly_time = 0 ∧
              (s.args.execution_time ≠ 0 ∨ s.args.loops ≠ 1) then
            .failed (.exe_dly_time_zero B.TB_VERB_OFF_LOG)
          else
            match s.threadfunc with
            | none => .failed .no_test
            | some threadfunc =>
              .launched s.args.wait_for_response threadfunc s.args (cstr s.str)

end Dib
