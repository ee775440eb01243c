import Dib.Lib.Run
import Dib.Libs.Model
import Dib.Registry.GroupFile

/-!
# Loads, unloads and group files

* `Host`: the libraries, libtestbox and the system;
* `Daemon`, `Daemon.Step`, `daemon`: runs of `load_testcase_from_lib`, `unload_lib` and
  `add_group_from_file`, one after the other;
* **`nodes_unloadLib`**: the nodes after an unload;
* `oneLibrary`: a host to run examples on.
-/

set_option autoImplicit false

namespace Dib

open CString Lts

/-! ## Runs -/

/-- What does not change while the daemon runs. -/
structure Host where
  loader : Loader
  testbox : LibTestbox
  /-- The symbol `lib_group` of a library. -/
  lib_group : ℕ → List TestboxTestgroup

/-- The library of a file name. -/
def Host.groupsOf (H : Host) (lib : List Char) : List TestboxTestgroup :=
  H.lib_group (H.loader.handle lib)

structure Daemon where
  libs : LibState
  registry : Registry

/-- `load_testcase_from_lib`, `unload_lib` and `add_group_from_file`, with what they find. -/
inductive DaemonCall where
  | load (lib : List Char) (o : LoadAnswers) (testcase_info : TestcaseNod)
  | unload (lib : List Char) (o : UnloadAnswers)
  | groupFile (file : Option (List Char))
  deriving DecidableEq, Repr

/-- A call that returns and does not fault. -/
inductive Daemon.Step (H : Host) : Daemon → DaemonCall → Daemon → Prop
  | load {s : Daemon} (lib : List Char) (o : LoadAnswers) (info : TestcaseNod) {libs : LibState} :
      loadLib H.loader lib o s.libs = some (libs, true) →
      Step H s (.load lib o info) ⟨libs, (registerLib H.testbox (H.loader.handle lib)
        (H.groupsOf lib) info s.registry).registry⟩
  | loadFails {s : Daemon} (lib : List Char) (o : LoadAnswers) (info : TestcaseNod)
      {libs : LibState} : loadLib H.loader lib o s.libs = some (libs, false) →
      Step H s (.load lib o info) ⟨libs, s.registry⟩
  | unload {s : Daemon} (lib : List Char) (o : UnloadAnswers) {libs : LibState} {e : UnloadEnd} :
      unloadLib H.loader lib o s.libs = some (libs, e) →
      Step H s (.unload lib o)
        ⟨libs, if e = .refused then s.registry else unregisterLib (H.groupsOf lib) s.registry⟩
  | groupFile {s : Daemon} (file : Option (List Char)) (rounds : ℕ) {r : Registry} {ok : Bool} :
      addGroupFromFile H.testbox rounds s.registry file = some (r, ok) →
      Step H s (.groupFile file) ⟨s.libs, r⟩

def Daemon.start : Daemon := ⟨.start, .start⟩

/-- The daemon that loads and unloads libraries and reads group files. -/
def daemon (H : Host) : Lts Daemon DaemonCall := ⟨fun s => s = .start, Daemon.Step H⟩

/-- The library has a node in `libs`. -/
def LibState.Loaded (s : LibState) (h : ℕ) : Prop := ∃ v ∈ s.nodes, v.lib_handle = h

/-! ## The nodes -/

/-- The unload gets the handle and the symbol. -/
def UnloadAnswers.ok (o : UnloadAnswers) : Bool := o.calloc && o.dlopen && o.dlsym

variable {L : Loader} {lib : List Char} {ls ls' : LibState} {h : ℕ}

theorem nodes_loadLib {o : LoadAnswers} {imported : Bool} (hs : ls.WF)
    (hl : loadLib L lib o ls = some (ls', imported)) :
    ls'.WF ∧ ls'.nodes = if imported then L.node lib :: ls.nodes else ls.nodes := by
  obtain ⟨ls₁, h1, hwf, hnodes, -⟩ := loadLib_spec (L := L) hs lib o
  obtain ⟨rfl, rfl⟩ := Prod.mk.inj (Option.some.inj (h1.symm.trans hl))
  exact ⟨hwf, hnodes⟩

/-- **An unload** that gets its library takes the first node with its handle away. -/
theorem nodes_unloadLib {o : UnloadAnswers} {e : UnloadEnd} (hs : ls.WF)
    (hu : unloadLib L lib o ls = some (ls', e)) :
    ls'.WF ∧ (e = .refused ↔ o.ok = false) ∧
      ls'.nodes =
        if o.ok then ls.nodes.eraseP fun v => v.lib_handle = L.handle lib else ls.nodes := by
  obtain ⟨hwf, heff⟩ := unloadLib_spec hs hu
  refine ⟨hwf, ?_⟩
  change UnloadEffect (L.handle lib) ls ls' o.ok e at heff
  cases hok : o.ok <;> rw [hok] at heff
  · cases heff with
    | refused h1 _ => exact ⟨by simp, h1⟩
  · cases heff with
    | absent h1 h2 _ =>
      refine ⟨by simp, ?_⟩
      rw [if_pos rfl, List.eraseP_of_forall_not (by simpa using h2), h1]
    | removed l₁ v l₂ h1 h2 h3 h4 _ =>
      refine ⟨by simp, ?_⟩
      rw [if_pos rfl, h1, List.eraseP_append_right _ (by simpa using h4),
        List.eraseP_cons_of_pos (by simpa using h3), h2]

theorem exists_mem_eraseP_of_ne {l : List TestLib} {k : ℕ} (hk : k ≠ h) :
    (∃ v ∈ l.eraseP fun v => v.lib_handle = h, v.lib_handle = k) ↔ ∃ v ∈ l, v.lib_handle = k := by
  refine exists_congr fun v => and_congr_left fun hv => List.mem_eraseP_of_neg ?_
  simpa [hv] using hk

theorem exists_mem_eraseP_iff {l : List TestLib} :
    (∃ v ∈ l.eraseP fun v => v.lib_handle = h, v.lib_handle = h) ↔
      1 < l.countP (·.lib_handle = h) := by
  induction l with
  | nil => simp
  | cons v l ih =>
    by_cases hv : v.lib_handle = h
    · rw [List.eraseP_cons_of_pos (by simpa using hv), List.countP_cons_of_pos (by simpa using hv),
        Nat.lt_add_left_iff_pos, List.countP_pos_iff]
      simp
    · rw [List.eraseP_cons_of_neg (by simpa using hv), List.countP_cons_of_neg (by simpa using hv),
        ← ih]
      simp [hv]

/-! ## A host -/

/-- The group `A` with the suite `U`, whose only test is `t`. -/
def oneTest : List TestboxTestgroup :=
  [⟨['A'], [⟨['U'], [], [⟨['t'], [], 1, false, 0, by decide⟩]⟩]⟩]

/-- A libtestbox that refuses nothing and makes a new node for every name. -/
def plainTestbox : LibTestbox where
  TB_STR_LEN := 16
  TB_MAX_ARGS := 2
  TB_BOARD_ALL := 1
  tb_getboardtype := 1
  tb_group_addnode _ _ := none
  tb_suite_addnode _ _ := none
  tb_case_addnode _ _ := true
  tb_suite_addtest _ _ _ := true
  tb_group_addsuite _ _ _ := true
  tb_exec_check_executable _ := false
  strip_newline line := if line.getLast? = some '\n' then line.dropLast else line
  getenv _ := none
  strLen_gt := by decide

/-- All libraries have handle `1` and one test. -/
def oneLibrary : Host where
  loader := ⟨fun _ => 1, fun _ _ => False, 256⟩
  testbox := plainTestbox
  lib_group _ := oneTest

end Dib
