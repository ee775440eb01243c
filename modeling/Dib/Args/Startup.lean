import Dib.Args.Model
import Dib.Wire.Client

/-!
# The command line of the daemon

* `StartupBox`, `Startup`, `startupArgs`: `startup_args`, with the indices of the arguments that it
  looks at;
* `StartupDangles`: the last argument that is read is an option whose value is not checked for;
* **`startup_looked_iff`**: only then it looks behind the arguments.
-/

set_option autoImplicit false

namespace Dib

/-- What `startup_args` asks others. -/
structure StartupBox where
  /-- `logLevel` accepts the level. -/
  logLevel : ℤ → Bool
  /-- The file can be executed and is a directory. -/
  isDir : List Char → Bool

/-- What it sets. -/
structure Startup where
  socket_type : Option SocketType
  log_level : Option ℤ
  testbox_cfg_dir : Option (List Char)
  run_as_daemon : Bool
  deriving DecidableEq, Repr

/-- How it ends: the second when a string is expected behind the arguments. -/
inductive StartupEnd where
  | returned (status : ℤ)
  | nullArg
  deriving DecidableEq, Repr

/-- A run, with the indices of the arguments that are compared, converted, copied or passed on. -/
structure StartupRun where
  looked : List ℕ
  startup : Startup
  result : StartupEnd
  deriving DecidableEq, Repr

/-- Arguments that are looked at first. -/
def StartupRun.after (looked : List ℕ) (r : StartupRun) : StartupRun :=
  { r with looked := looked ++ r.looked }

def optLogLevel : List Char := "--log_level".toList
def optConfig : List Char := "--config".toList
def optInhibitDaemonize : List Char := "--inhibit_daemonize".toList

/-- `startup_args` from the `i`-th argument on. -/
def startupArgs (S : StartupBox) : List (List Char) → ℕ → Startup → StartupRun
  | [], _, s => ⟨[], s, .returned 0⟩
  | [arg], i, s =>
    if arg = optSocketType ∨ arg = optLogLevel then ⟨[i, i + 1], s, .nullArg⟩
    else if arg = optConfig then ⟨[i], s, .returned 0⟩
    else if arg = optInhibitDaemonize then ⟨[i], { s with run_as_daemon := false }, .returned 0⟩
    else ⟨[i], s, .returned 0⟩
  | arg :: value :: rest, i, s =>
    if arg = optSocketType then
      if value = valLocal then
        (startupArgs S rest (i + 2) { s with socket_type := some .unix }).after [i, i + 1]
      else if value = valInet then
        (startupArgs S rest (i + 2) { s with socket_type := some .inet }).after [i, i + 1]
      else ⟨[i, i + 1], s, .returned (-1)⟩
    else if arg = optLogLevel then
      if S.logLevel (atoi value) then
        (startupArgs S rest (i + 2) { s with log_level := some (atoi value) }).after [i, i + 1]
      else (startupArgs S rest (i + 2) s).after [i, i + 1]
    else if arg = optConfig then
      if S.isDir value then
        (startupArgs S rest (i + 2) { s with testbox_cfg_dir := some value }).after [i, i + 1]
      else
        -- no `i++` behind the label `bad_arg`
        (startupArgs S (value :: rest) (i + 1) s).after [i, i + 1]
    else if arg = optInhibitDaemonize then
      (startupArgs S (value :: rest) (i + 1) { s with run_as_daemon := false }).after [i]
    else (startupArgs S (value :: rest) (i + 1) s).after [i]

/-- The walk comes to `--socket_type` or `--log_level` as the last argument. -/
def StartupDangles (S : StartupBox) : List (List Char) → Prop
  | [] => False
  | [arg] => arg = optSocketType ∨ arg = optLogLevel
  | arg :: value :: rest =>
    if arg = optSocketType then (value = valLocal ∨ value = valInet) ∧ StartupDangles S rest
    else if arg = optLogLevel then StartupDangles S rest
    else if arg = optConfig ∧ S.isDir value then StartupDangles S rest
    else StartupDangles S (value :: rest)

variable {S : StartupBox}

theorem end_after_one (i : ℕ) (arg : List Char) (rest : List (List Char)) :
    i + (arg :: rest).length = i + 1 + rest.length := by
  rw [List.length_cons]
  omega

theorem end_after_two (i : ℕ) (arg value : List Char) (rest : List (List Char)) :
    i + (arg :: value :: rest).length = i + 2 + rest.length := by
  rw [end_after_one, end_after_one]

theorem after_two_iff {r : StartupRun} {i : ℕ} {arg value : List Char} {rest : List (List Char)}
    {P : Prop} (h : (∀ j ∈ r.looked, j < i + 2 + rest.length) ↔ P) :
    (∀ j ∈ (r.after [i, i + 1]).looked, j < i + (arg :: value :: rest).length) ↔ P := by
  rw [StartupRun.after, end_after_two, List.forall_mem_append, h]
  refine and_iff_right fun j hj => ?_
  rcases List.mem_pair.mp hj with rfl | rfl <;> omega

theorem after_one_iff {r : StartupRun} {i : ℕ} {arg value : List Char} {rest : List (List Char)}
    {looked : List ℕ} {P : Prop} (hlooked : looked ⊆ [i, i + 1])
    (h : (∀ j ∈ r.looked, j < i + 1 + (value :: rest).length) ↔ P) :
    (∀ j ∈ (r.after looked).looked, j < i + (arg :: value :: rest).length) ↔ P := by
  rw [StartupRun.after, end_after_one, List.forall_mem_append, h]
  refine and_iff_right fun j hj => ?_
  rcases List.mem_pair.mp (hlooked hj) with rfl | rfl <;> simp only [List.length_cons] <;> omega

/-- **`startup_args`** looks only at arguments that are there, unless the last one that it reads is
`--socket_type` or `--log_level`. -/
theorem startup_looked_iff (argv : List (List Char)) (i : ℕ) (s : Startup) :
    (∀ j ∈ (startupArgs S argv i s).looked, j < i + argv.length) ↔ ¬ StartupDangles S argv := by
  have hone : ∀ (i : ℕ), [i] ⊆ [i, i + 1] := fun i => List.cons_subset_cons i (List.nil_subset _)
  fun_induction startupArgs S argv i s with
  | case1 i s => simp [StartupDangles]
  | case2 arg i s h => simp [StartupDangles, h]
  | case3 i s h | case4 i s h _ | case5 arg i s h _ _ => simp [StartupDangles, h]
  | case6 rest i s ih =>
    rw [StartupDangles, if_pos rfl, and_iff_right (.inl rfl)]
    exact after_two_iff ih
  | case7 rest i s _ ih =>
    rw [StartupDangles, if_pos rfl, and_iff_right (.inr rfl)]
    exact after_two_iff ih
  | case8 value rest i s h1 h2 =>
    rw [StartupDangles, if_pos rfl]
    refine iff_of_true (fun j hj => ?_) fun h => h.1.elim h1 h2
    simp only [List.length_cons]
    rcases List.mem_pair.mp hj with rfl | rfl <;> omega
  | case9 value rest i s _ h1 ih | case10 value rest i s _ h1 ih =>
    rw [StartupDangles, if_neg h1, if_pos rfl]
    exact after_two_iff ih
  | case11 value rest i s hdir h1 h2 ih =>
    rw [StartupDangles, if_neg h1, if_neg h2, if_pos ⟨rfl, hdir⟩]
    exact after_two_iff ih
  | case12 value rest i s hdir h1 h2 ih =>
    rw [StartupDangles, if_neg h1, if_neg h2, if_neg fun h => hdir h.2]
    exact after_one_iff (List.Subset.refl _) ih
  | case13 value rest i s h1 h2 h3 ih =>
    rw [StartupDangles, if_neg h1, if_neg h2, if_neg fun h => h3 h.1]
    exact after_one_iff (hone i) ih
  | case14 arg value rest i s h1 h2 h3 h4 ih =>
    rw [StartupDangles, if_neg h1, if_neg h2, if_neg fun h => h3 h.1]
    exact after_one_iff (hone i) ih

end Dib
