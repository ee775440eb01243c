import Dib.Args.Startup
import Dib.Registry.Calls
import Dib.Registry.Dangling
import Dib.Registry.Paths
import Mathlib.Data.PNat.Notation

/-!
# The daemon starts

* `ProcessBox`, `exitStatus`: where `main` exits before it loads anything; `Continues`: where not;
* `Surroundings`: what start-up finds; `loadLibraries`, `loadGroupFromFile`, `startUp`: `main` up to
  the sockets;
* `confPaths`, `startCalls`: the paths in a configuration file, and the calls that start-up makes
  for those in both;
* `nullArg_iff`: `startup_args` faults if the walk ends at an option whose value it expects;
* **`startUp_eq`**, **`startUp_iff`**: start-up ends in a state if and only if these calls are those
  of a run of the daemon to it;
* `loadedNodes`, **`startUp_loaded`**: then no function is without its library, and `libs` has the
  libraries that could be loaded, the last first.
-/

set_option autoImplicit false

namespace Dib

open CString Lines Lts

/-! ## The process -/

inductive Signal where
  | SIGUSR1
  | SIGUSR2
  | SIGPIPE

/-- What the system answers `main`; a `sigaction` that fails sets `errno`. -/
structure ProcessBox where
  getppid : ℤ
  fork : ℤ
  setsid : ℤ
  chdir : ℤ
  sigaction : Signal → Option ℕ+

def EXIT_SUCCESS : ℤ := 0
def EXIT_FAILURE : ℤ := 1

/-- `__daemonize`: the status with which it exits, if it does. The parent exits, too. -/
def daemonize (P : ProcessBox) : Option ℤ :=
  if P.getppid = 1 then some EXIT_SUCCESS
  else if P.fork < 0 then some EXIT_FAILURE
  else if 0 < P.fork then some EXIT_SUCCESS
  else if P.setsid < 0 then some EXIT_FAILURE
  else if P.chdir < 0 then some EXIT_FAILURE
  else none

def noDaemonSignalSetup (P : ProcessBox) : ℤ :=
  match P.sigaction .SIGUSR1 with
  | some errno => -errno
  | none =>
    match P.sigaction .SIGUSR2 with
    | some errno => -errno
    | none =>
      match P.sigaction .SIGPIPE with
      | some errno => -errno
      | none => 0

/-- The status with which `main` exits before it loads anything, if it does. -/
def exitStatus (P : ProcessBox) (run_as_daemon : Bool) : Option ℤ :=
  if run_as_daemon then daemonize P
  else if noDaemonSignalSetup P = 0 then none
  else some (noDaemonSignalSetup P)

/-- A daemon is the child, with a session of its own and `/` as its directory; a process that is
none has handlers for the signals. -/
def ProcessBox.Continues (P : ProcessBox) (run_as_daemon : Bool) : Prop :=
  if run_as_daemon then P.getppid ≠ 1 ∧ P.fork = 0 ∧ 0 ≤ P.setsid ∧ 0 ≤ P.chdir
  else ∀ signal, P.sigaction signal = none

theorem daemonize_eq_none_iff (P : ProcessBox) :
    daemonize P = none ↔ P.getppid ≠ 1 ∧ P.fork = 0 ∧ 0 ≤ P.setsid ∧ 0 ≤ P.chdir := by
  unfold daemonize
  split_ifs <;> simp <;> omega

theorem noDaemonSignalSetup_eq_zero_iff (P : ProcessBox) :
    noDaemonSignalSetup P = 0 ↔ ∀ signal, P.sigaction signal = none := by
  have hall : (∀ signal, P.sigaction signal = none) ↔ P.sigaction .SIGUSR1 = none ∧
      P.sigaction .SIGUSR2 = none ∧ P.sigaction .SIGPIPE = none :=
    ⟨fun h => ⟨h _, h _, h _⟩, fun h signal => by cases signal <;> simp [h]⟩
  rw [hall, noDaemonSignalSetup]
  -- an `errno` is positive
  cases P.sigaction .SIGUSR1 with
  | some errno => simp
  | none =>
    cases P.sigaction .SIGUSR2 with
    | some errno => simp
    | none => cases P.sigaction .SIGPIPE <;> simp

theorem exitStatus_eq_none_iff (P : ProcessBox) (run_as_daemon : Bool) :
    exitStatus P run_as_daemon = none ↔ P.Continues run_as_daemon := by
  unfold exitStatus ProcessBox.Continues
  cases run_as_daemon with
  | true => exact daemonize_eq_none_iff P
  | false =>
    rw [if_neg Bool.false_ne_true, if_neg Bool.false_ne_true, ← noDaemonSignalSetup_eq_zero_iff]
    split_ifs <;> simp [*]

/-! ## Start-up -/

/-- What start-up finds: its process, what `startup_args` asks, the answers to the loads with what
is in their `testcase_info` before, the configuration files by their paths, and the group files. -/
structure Surroundings where
  process : ProcessBox
  startup : StartupBox
  answers : ℕ → LoadAnswers × TestcaseNod
  conf : List Char → Option (List Char)
  files : ℕ → List Char → Option (List Char)

section Model

variable (H : Host) (rounds : ℕ) (E : Surroundings)

/-- `load_libraries`, whose status is only logged. -/
def loadLibraries (testbox_cfg_dir : Option (List Char)) (s : Daemon) : Option Daemon :=
  (confFile H testbox_cfg_dir TEST_LIBS_CONF).bind fun path =>
    (findLibsFromConfFile H rounds E.answers (E.conf path) s).map (·.state)

/-- `load_group_from_file`, whose status is only logged. -/
def loadGroupFromFile (testbox_cfg_dir : Option (List Char)) (r : Registry) : Option Registry :=
  (confFile H testbox_cfg_dir GROUP_FROM_FILE_CONF).bind fun path =>
    (findGroupsFromConfFile H rounds E.files (E.conf path) r).map (·.state)

/-- `startup_args` on the globals as they are initialised. -/
def Surroundings.args (argv : List (List Char)) : StartupRun :=
  startupArgs E.startup argv 0 ⟨none, none, none, true⟩

/-- `main`, if it comes to `tb_socket_handling`; what `startup_args` returns is not looked at. -/
def startUp (argv : List (List Char)) : Option Daemon :=
  match (E.args argv).result, exitStatus E.process (E.args argv).startup.run_as_daemon with
  | .nullArg, _ => none
  | .returned _, some _ => none
  | .returned _, none =>
    (loadLibraries H rounds E (E.args argv).startup.testbox_cfg_dir .start).bind fun s =>
      (loadGroupFromFile H rounds E (E.args argv).startup.testbox_cfg_dir s.registry).map fun r =>
        ⟨s.libs, r⟩

/-! ## Its calls -/

/-- The paths in a configuration file; none if there is no such file. -/
def confPaths (conf : Option (List Char)) : Option (List (List Char)) :=
  (conf.elim [] (entriesOf H.testbox H.loader.TB_MAX_PATH_LEN)).mapM (confPath H.testbox rounds)

def Surroundings.load (k : ℕ) (lib : List Char) : DaemonCall :=
  .load lib (E.answers k).1 (E.answers k).2

/-- **The calls of start-up**: the loads for one file, then the group files for the other. -/
def startCalls (testbox_cfg_dir : Option (List Char)) : Option (List DaemonCall) :=
  (confFile H testbox_cfg_dir TEST_LIBS_CONF).bind fun libs_conf =>
    (confPaths H rounds (E.conf libs_conf)).bind fun libs =>
      (confFile H testbox_cfg_dir GROUP_FROM_FILE_CONF).bind fun group_conf =>
        (confPaths H rounds (E.conf group_conf)).map fun groups =>
          libs.mapIdx E.load ++ (groups.mapIdx E.files).map .groupFile

end Model

variable {H : Host} {rounds n m : ℕ} {E : Surroundings} {T : LibTestbox} {σ : Type}

theorem mapM_cons_eq {α β : Type} (g : α → Option β) (a : α) (l : List α) :
    (a :: l).mapM g = (g a).bind fun b => (l.mapM g).map (b :: ·) := by
  rw [List.mapM_cons]
  cases g a with
  | none => rfl
  | some b => cases l.mapM g <;> rfl

theorem callEach_eq {L : Type} {call : ℕ → List Char → σ → Option (σ × Bool)}
    {f : σ → L → Option σ} {lab : ℕ → List Char → L}
    (hcall : ∀ k path s, (call k path s).map Prod.fst = f s (lab k path))
    (entries : List (List Char)) (x : σ × List (List Char × Bool)) :
    (callEach T rounds call entries x).map Prod.fst =
      (entries.mapM (confPath T rounds)).bind fun paths =>
        (paths.mapIdx fun k => lab (k + x.2.length)).foldlM f x.1 := by
  rw [callEach]
  induction entries generalizing x with
  | nil => rfl
  | cons lib_path entries ih =>
    rw [List.foldlM_cons, mapM_cons_eq, callEntry]
    cases confPath T rounds lib_path with
    | none => rfl
    | some path =>
      have hfirst := hcall x.2.length path x.1
      rw [Option.bind_some, Option.bind_some, Option.bind_map]
      have hcons : ∀ paths : List (List Char),
          ((path :: paths).mapIdx fun k => lab (k + x.2.length)).foldlM f x.1 =
            (f x.1 (lab x.2.length path)).bind fun s =>
              (paths.mapIdx fun k => lab (k + (x.2.length + 1))).foldlM f s := fun paths => by
        rw [List.mapIdx_cons, List.foldlM_cons, Nat.zero_add]
        simp only [Nat.add_assoc, Nat.add_comm 1]
        rfl
      simp only [Function.comp_def, hcons, ← hfirst]
      cases call x.2.length path x.1 with
      | none => exact (Option.bind_fun_none _).symm
      | some y =>
        have hrest := ih (y.1, x.2 ++ [(path, y.2)])
        rw [List.length_append, List.length_singleton] at hrest
        exact hrest

theorem state_fromConfFile {L : Type} {call : ℕ → List Char → σ → Option (σ × Bool)}
    {set : Bool → Bool → Bool} {f : σ → L → Option σ} {lab : ℕ → List Char → L}
    (hsize : 1 < H.loader.TB_MAX_PATH_LEN)
    (hcall : ∀ k path s, (call k path s).map Prod.fst = f s (lab k path))
    (conf : Option (List Char)) (s : σ) :
    (fromConfFile H.testbox rounds call set H.loader.TB_MAX_PATH_LEN conf s).map (·.state) =
      (confPaths H rounds conf).bind fun paths => (paths.mapIdx lab).foldlM f s := by
  cases conf with
  | none => rfl
  | some file =>
    rw [fromConfFile_eq hsize, Option.map_map]
    exact callEach_eq hcall _ (s, [])

theorem loadLibraries_eq (hsize : 1 < H.loader.TB_MAX_PATH_LEN) (E : Surroundings)
    (testbox_cfg_dir : Option (List Char)) (s : Daemon) :
    loadLibraries H rounds E testbox_cfg_dir s =
      (confFile H testbox_cfg_dir TEST_LIBS_CONF).bind fun path =>
        (confPaths H rounds (E.conf path)).bind fun libs =>
          (libs.mapIdx E.load).foldlM (Daemon.call H rounds) s := by
  rw [loadLibraries]
  congr 1
  funext path
  have hcall : ∀ k lib s, (loadEntry H E.answers k lib s).map Prod.fst =
      Daemon.call H rounds s (E.load k lib) := fun _ _ _ => rfl
  exact state_fromConfFile hsize hcall _ s

theorem loadGroupFromFile_eq (hsize : 1 < H.loader.TB_MAX_PATH_LEN) (E : Surroundings)
    (testbox_cfg_dir : Option (List Char)) (r : Registry) :
    loadGroupFromFile H rounds E testbox_cfg_dir r =
      (confFile H testbox_cfg_dir GROUP_FROM_FILE_CONF).bind fun path =>
        (confPaths H rounds (E.conf path)).bind fun groups =>
          (groups.mapIdx E.files).foldlM
            (fun r file => (addGroupFromFile H.testbox rounds r file).map Prod.fst) r := by
  rw [loadGroupFromFile]
  congr 1
  funext path
  have hcall : ∀ k path r, (groupEntry H rounds E.files k path r).map Prod.fst =
      (addGroupFromFile H.testbox rounds r (E.files k path)).map Prod.fst := fun _ _ _ => rfl
  exact state_fromConfFile hsize hcall _ r

theorem foldlM_groupFile (files : List (Option (List Char))) (s : Daemon) :
    (files.map .groupFile).foldlM (Daemon.call H rounds) s =
      (files.foldlM (fun r file => (addGroupFromFile H.testbox rounds r file).map Prod.fst)
        s.registry).map fun r => ⟨s.libs, r⟩ := by
  induction files generalizing s with
  | nil => rfl
  | cons file files ih =>
    rw [List.map_cons, List.foldlM_cons, List.foldlM_cons, Daemon.call]
    cases addGroupFromFile H.testbox rounds s.registry file with
    | none => rfl
    | some x => exact ih ⟨s.libs, x.1⟩

/-- **Start-up computes its calls** one after the other. -/
theorem startUp_eq (hsize : 1 < H.loader.TB_MAX_PATH_LEN) (E : Surroundings)
    (argv : List (List Char)) :
    startUp H rounds E argv =
      if (E.args argv).result = .nullArg ∨
        exitStatus E.process (E.args argv).startup.run_as_daemon ≠ none then none
      else (startCalls H rounds E (E.args argv).startup.testbox_cfg_dir).bind fun calls =>
        calls.foldlM (Daemon.call H rounds) .start := by
  rw [startUp]
  cases (E.args argv).result with
  | nullArg => rw [if_pos (.inl rfl)]
  | returned status =>
    cases exitStatus E.process (E.args argv).startup.run_as_daemon with
    | some code => rw [if_pos (.inr (by rintro ⟨⟩))]
    | none =>
      rw [if_neg (by simp)]
      dsimp only
      generalize (E.args argv).startup.testbox_cfg_dir = cfg
      rw [loadLibraries_eq hsize, startCalls]
      simp only [loadGroupFromFile_eq hsize]
      cases confFile H cfg TEST_LIBS_CONF with
      | none => rfl
      | some libs_conf =>
        rw [Option.bind_some, Option.bind_some]
        cases confPaths H rounds (E.conf libs_conf) with
        | none => rfl
        | some libs =>
          rw [Option.bind_some, Option.bind_some]
          cases confFile H cfg GROUP_FROM_FILE_CONF with
          | none => exact Option.bind_fun_none _
          | some group_conf =>
            simp only [Option.bind_some]
            cases confPaths H rounds (E.conf group_conf) with
            | none => exact Option.bind_fun_none _
            | some groups =>
              simp only [Option.bind_some, Option.map_some, List.foldlM_append, foldlM_groupFile]
              rfl

/-! ## Its runs -/

theorem nullArg_iff {S : StartupBox} (argv : List (List Char)) (i : ℕ) (s : Startup) :
    (startupArgs S argv i s).result = .nullArg ↔ StartupDangles S argv := by
  fun_induction startupArgs S argv i s with
  | case1 i s => simp [StartupDangles]
  | case2 arg i s h => simp [StartupDangles, h]
  | case3 i s h | case4 i s h _ | case5 arg i s h _ _ => simp [StartupDangles, h]
  | case6 rest i s ih => rw [StartupDangles, if_pos rfl, and_iff_right (.inl rfl)]; exact ih
  | case7 rest i s _ ih => rw [StartupDangles, if_pos rfl, and_iff_right (.inr rfl)]; exact ih
  | case8 value rest i s h1 h2 =>
    rw [StartupDangles, if_pos rfl]
    exact iff_of_false (by rintro ⟨⟩) fun h => h.1.elim h1 h2
  | case9 value rest i s _ h1 ih | case10 value rest i s _ h1 ih =>
    rw [StartupDangles, if_neg h1, if_pos rfl]
    exact ih
  | case11 value rest i s hdir h1 h2 ih =>
    rw [StartupDangles, if_neg h1, if_neg h2, if_pos ⟨rfl, hdir⟩]
    exact ih
  | case12 value rest i s hdir h1 h2 ih =>
    rw [StartupDangles, if_neg h1, if_neg h2, if_neg fun h => hdir h.2]
    exact ih
  | case13 value rest i s h1 h2 h3 ih =>
    rw [StartupDangles, if_neg h1, if_neg h2, if_neg fun h => h3 h.1]
    exact ih
  | case14 arg value rest i s h1 h2 h3 h4 ih =>
    rw [StartupDangles, if_neg h1, if_neg h2, if_neg fun h => h3 h.1]
    exact ih

theorem confPath_mono {lib_path path : List Char} (hnm : n ≤ m)
    (h : confPath T n lib_path = some path) : confPath T m lib_path = some path := by
  obtain ⟨x, hx, rfl⟩ := Option.map_eq_some_iff.mp h
  exact Option.map_eq_some_iff.mpr ⟨x, createPathFromEnv_mono hnm hx, rfl⟩

theorem confPaths_mono {conf : Option (List Char)} {paths : List (List Char)} (hnm : n ≤ m)
    (h : confPaths H n conf = some paths) : confPaths H m conf = some paths := by
  rw [confPaths] at h ⊢
  generalize conf.elim [] (entriesOf H.testbox H.loader.TB_MAX_PATH_LEN) = entries at h
  induction entries generalizing paths with
  | nil => exact h
  | cons lib_path entries ih =>
    rw [mapM_cons_eq] at h ⊢
    obtain ⟨path, hpath, h⟩ := Option.bind_eq_some_iff.mp h
    obtain ⟨rest, hrest, rfl⟩ := Option.map_eq_some_iff.mp h
    exact Option.bind_eq_some_iff.mpr
      ⟨path, confPath_mono hnm hpath, Option.map_eq_some_iff.mpr ⟨rest, ih hrest, rfl⟩⟩

theorem startCalls_mono {testbox_cfg_dir : Option (List Char)} {calls : List DaemonCall}
    (hnm : n ≤ m) (h : startCalls H n E testbox_cfg_dir = some calls) :
    startCalls H m E testbox_cfg_dir = some calls := by
  obtain ⟨libs_conf, hlibs_conf, h⟩ := Option.bind_eq_some_iff.mp h
  obtain ⟨libs, hlibs, h⟩ := Option.bind_eq_some_iff.mp h
  obtain ⟨group_conf, hgroup_conf, h⟩ := Option.bind_eq_some_iff.mp h
  obtain ⟨groups, hgroups, rfl⟩ := Option.map_eq_some_iff.mp h
  rw [startCalls, hlibs_conf, Option.bind_some, confPaths_mono hnm hlibs, Option.bind_some,
    hgroup_conf, Option.bind_some, confPaths_mono hnm hgroups, Option.map_some]

/-- **Start-up** ends in a state, for some number of replacements, if and only if `startup_args`
does not fault, `main` does not exit, the paths of the two files can be built and those in them
expanded, and a run of the daemon that makes just these calls ends there. -/
theorem startUp_iff (hsize : 1 < H.loader.TB_MAX_PATH_LEN) (E : Surroundings)
    (argv : List (List Char)) (d : Daemon) :
    (∃ rounds, startUp H rounds E argv = some d) ↔
      ¬ StartupDangles E.startup argv ∧
        E.process.Continues (E.args argv).startup.run_as_daemon ∧ ∃ calls,
          (∃ rounds, startCalls H rounds E (E.args argv).startup.testbox_cfg_dir = some calls) ∧
            ∃ tr, (daemon H).Run tr d ∧ tr.map Prod.snd = calls := by
  have hends : ((E.args argv).result = .nullArg ∨
      exitStatus E.process (E.args argv).startup.run_as_daemon ≠ none) ↔
        ¬ (¬ StartupDangles E.startup argv ∧
          E.process.Continues (E.args argv).startup.run_as_daemon) := by
    have hnull : (E.args argv).result = .nullArg ↔ StartupDangles E.startup argv :=
      nullArg_iff argv 0 _
    rw [hnull, Ne, exitStatus_eq_none_iff, not_and_or, not_not]
  simp only [startUp_eq hsize, run_iff_calls]
  rw [← and_assoc]
  by_cases hend : (E.args argv).result = .nullArg ∨
      exitStatus E.process (E.args argv).startup.run_as_daemon ≠ none
  · simp only [if_pos hend]
    exact iff_of_false (by rintro ⟨_, ⟨⟩⟩) fun h => hends.mp hend h.1
  · simp only [if_neg hend, Option.bind_eq_some_iff]
    rw [and_iff_right (not_not.mp (mt hends.mpr hend))]
    constructor
    · rintro ⟨rounds, calls, hcalls, hd⟩
      exact ⟨calls, ⟨rounds, hcalls⟩, rounds, hd⟩
    · rintro ⟨calls, ⟨n, hcalls⟩, m, hd⟩
      exact ⟨max n m, calls, startCalls_mono (Nat.le_max_left n m) hcalls,
        foldlM_mono (fun _ _ _ => call_mono (Nat.le_max_right n m)) hd⟩

/-- Only the directory `/etc` has a configuration file, with the library `a`, and all loads
succeed. -/
def oneConf : Surroundings where
  process := ⟨100, 0, 101, 0, fun _ => none⟩
  startup := ⟨fun _ => true, fun _ => true⟩
  answers _ := (⟨true, true, true⟩, plainTestbox.zeroInfo)
  conf path := if path = "/etc/test_libs.conf".toList then some ['a', '\n'] else none
  files _ _ := none

/-- `testboxd --config /etc`. -/
def etcArgv : List (List Char) := ["testboxd".toList, optConfig, "/etc".toList]

theorem startCalls_etc :
    startCalls oneLibrary 0 oneConf (oneConf.args etcArgv).startup.testbox_cfg_dir =
      some [.load ['a'] ⟨true, true, true⟩ plainTestbox.zeroInfo] := by
  decide +kernel

/-- The library is loaded, and there are no group files. -/
theorem startUp_etc : ∃ d, (∃ rounds, startUp oneLibrary rounds oneConf etcArgv = some d) ∧
    d.libs.nodes = [oneLibrary.loader.node ['a']] := by
  have h0 : (daemon oneLibrary).Run [] .start := .start rfl
  have h1 := h0.snoc (.load ['a'] ⟨true, true, true⟩ plainTestbox.zeroInfo rfl)
  have hdangles : ¬ StartupDangles oneConf.startup etcArgv := by
    rw [← nullArg_iff etcArgv 0 ⟨none, none, none, true⟩]
    decide
  have hcontinues : oneConf.process.Continues (oneConf.args etcArgv).startup.run_as_daemon := by
    rw [← exitStatus_eq_none_iff]
    decide
  exact ⟨_, (startUp_iff (by decide) oneConf etcArgv _).mpr
    ⟨hdangles, hcontinues, _, ⟨0, startCalls_etc⟩, _, h1, rfl⟩, rfl⟩

/-! ## What is loaded -/

/-- The node of a load that finds its library. -/
def loadedNode (H : Host) : DaemonCall → Option TestLib
  | .load lib o _ => if o.calloc && o.dlopen && o.dlsym then some (H.loader.node lib) else none
  | _ => none

/-- The nodes of the loads that find their library, the last first. -/
def loadedNodes (H : Host) (calls : List DaemonCall) : List TestLib :=
  calls.reverse.filterMap (loadedNode H)

/-- Not an unload. -/
def DaemonCall.Keeps : DaemonCall → Prop
  | .unload _ _ => False
  | _ => True

theorem libs_load {s s' : Daemon} {lib : List Char} {o : LoadAnswers} {info : TestcaseNod}
    (hs : s.libs.WF) (h : s.call H rounds (.load lib o info) = some s') :
    s'.libs.nodes = (loadedNode H (.load lib o info)).toList ++ s.libs.nodes := by
  obtain ⟨libs, hload, -, hnodes, -⟩ := loadLib_spec (L := H.loader) hs lib o
  have hlibs : s'.libs = libs := by
    rw [Daemon.call, loadTestcaseFromLib, hload] at h
    cases hok : o.calloc && o.dlopen && o.dlsym <;> rw [hok] at h <;> cases h <;> rfl
  rw [hlibs, hnodes, loadedNode]
  cases o.calloc && o.dlopen && o.dlsym <;> rfl

theorem sound_call {s s' : Daemon} {c : DaemonCall} (hs : s.Sound) (hc : c.Keeps)
    (h : s.call H rounds c = some s') :
    s'.Sound ∧ s'.libs.nodes = (loadedNode H c).toList ++ s.libs.nodes := by
  have hst := step_iff_call.mpr ⟨rounds, h⟩
  cases c with
  | load lib o info =>
    have hC : UnloadsCovered H s (.load lib o info) := trivial
    exact ⟨sound_step hs hC hst, libs_load hs.1 h⟩
  | unload lib o => exact hc.elim
  | groupFile file =>
    have hC : UnloadsCovered H s (.groupFile file) := trivial
    refine ⟨sound_step hs hC hst, ?_⟩
    obtain ⟨x, -, rfl⟩ := Option.map_eq_some_iff.mp h
    rfl

theorem sound_calls {calls : List DaemonCall} {d : Daemon} (hcalls : ∀ c ∈ calls, c.Keeps)
    (h : calls.foldlM (Daemon.call H rounds) .start = some d) :
    d.Sound ∧ d.libs.nodes = loadedNodes H calls := by
  induction calls using List.reverseRecOn generalizing d with
  | nil =>
    cases h
    exact ⟨sound_start, rfl⟩
  | append_singleton calls c ih =>
    obtain ⟨s, hs, hc⟩ := foldlM_concat_iff.mp h
    obtain ⟨hsound, hnodes⟩ := ih (fun c hc => hcalls c (List.mem_append_left _ hc)) hs
    obtain ⟨hsound', hnodes'⟩ := sound_call hsound (hcalls c List.mem_concat_self) hc
    have hone : [c].filterMap (loadedNode H) = (loadedNode H c).toList := by
      cases hnode : loadedNode H c <;> simp [hnode]
    refine ⟨hsound', ?_⟩
    rw [hnodes', hnodes, loadedNodes, loadedNodes, List.reverse_append, List.filterMap_append,
      List.reverse_singleton, hone]

theorem keeps_startCalls {testbox_cfg_dir : Option (List Char)} {calls : List DaemonCall}
    (h : startCalls H rounds E testbox_cfg_dir = some calls) : ∀ c ∈ calls, c.Keeps := by
  obtain ⟨libs_conf, -, h⟩ := Option.bind_eq_some_iff.mp h
  obtain ⟨libs, -, h⟩ := Option.bind_eq_some_iff.mp h
  obtain ⟨group_conf, -, h⟩ := Option.bind_eq_some_iff.mp h
  obtain ⟨groups, -, rfl⟩ := Option.map_eq_some_iff.mp h
  intro c hc
  rcases List.mem_append.mp hc with hc | hc
  · obtain ⟨k, hk, rfl⟩ := List.mem_mapIdx.mp hc
    trivial
  · obtain ⟨file, -, rfl⟩ := List.mem_map.mp hc
    trivial

/-- **After start-up** every registered function is one of a loaded library, and `libs` has just the
libraries that could be loaded, the last one first. -/
theorem startUp_loaded (hsize : 1 < H.loader.TB_MAX_PATH_LEN) {argv : List (List Char)} {d : Daemon}
    (h : startUp H rounds E argv = some d) :
    d.Sound ∧ ∃ calls,
      startCalls H rounds E (E.args argv).startup.testbox_cfg_dir = some calls ∧
        d.libs.nodes = loadedNodes H calls := by
  rw [startUp_eq hsize] at h
  obtain ⟨-, h⟩ := Option.ite_none_left_eq_some.mp h
  obtain ⟨calls, hcalls, hd⟩ := Option.bind_eq_some_iff.mp h
  obtain ⟨hsound, hnodes⟩ := sound_calls (keeps_startCalls hcalls) hd
  exact ⟨hsound, calls, hcalls, hnodes⟩

/-- The only library of `/etc` is loaded. -/
theorem startUp_loaded_etc : ∃ d, startUp oneLibrary 0 oneConf etcArgv = some d ∧ d.Sound ∧
    d.libs.nodes = [oneLibrary.loader.node ['a']] := by
  obtain ⟨d, hd⟩ : ∃ d, startUp oneLibrary 0 oneConf etcArgv = some d := by
    rw [startUp_eq (by decide), if_neg (by decide), startCalls_etc]
    exact ⟨_, rfl⟩
  obtain ⟨hsound, calls, hcalls, hnodes⟩ := startUp_loaded (by decide) hd
  obtain rfl := Option.some.inj (startCalls_etc.symm.trans hcalls)
  exact ⟨d, hd, hsound, hnodes⟩

end Dib
