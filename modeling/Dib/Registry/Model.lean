import Dib.Lib.CString
import Mathlib.Data.Nat.Bitwise

/-!
# The registries of groups, suites and cases

The registries are libtestbox's; what a library imports comes from its `lib_group`.

* `TestcaseNod`, `TestsuiteNod`, `TestgroupNod`, `Registry`: the nodes; a suite or a group is
  referred to by its address;
* `LibTestbox`: what the code leaves to libtestbox; `tbCaseLookupnode`, … are its operations;
* `registerLib`, `unregisterLib`: the loops of `load_testcase_from_lib` and of `unload_lib`;
* `Registry.Holds`, `ImportInv`, **`importInv_holds`**: what is true of all test functions that are
  held, and what an import keeps;
* **`mem_cases_unregisterLib`**, **`mem_suites_unregisterLib`**: what an unload leaves.
-/

set_option autoImplicit false

namespace Dib

open CString

/-! ## Data -/

/-- A pointer to a function of the library with this handle. -/
structure TestFunction where
  lib : ℕ
  symbol : ℕ
  deriving DecidableEq, Repr

/-- `tb_testcase_nod_t`; its strings are arrays of `TB_STR_LEN` characters. -/
structure TestcaseNod where
  name : List Char
  description : List Char
  valid_board : ℕ
  is_extended : Bool
  is_executable : Bool
  function : Option TestFunction
  argc : ℕ
  args : List (List Char)
  deriving DecidableEq, Repr

structure TestsuiteNod where
  addr : ℕ
  name : List Char
  descr : List Char
  tests : List TestcaseNod
  deriving DecidableEq, Repr

/-- `tb_testgroup_nod_t`, with the addresses of its suites. -/
structure TestgroupNod where
  addr : ℕ
  name : List Char
  suites : List ℕ
  deriving DecidableEq, Repr

/-- The three registries, and the next address for a node. -/
structure Registry where
  cases : List TestcaseNod
  suites : List TestsuiteNod
  groups : List TestgroupNod
  next : ℕ
  deriving DecidableEq, Repr

def Registry.start : Registry := ⟨[], [], [], 0⟩

/-- `testbox_testcase_t`, an entry of a library. -/
structure TestboxTestcase where
  test_name : List Char
  test_description : List Char
  valid_board : ℕ
  is_extended : Bool
  /-- The symbol of its test function. -/
  function : ℕ
  name_ok : NUL ∉ test_name

structure TestboxTestsuite where
  suite_name : List Char
  suite_descr : List Char
  testcases : List TestboxTestcase

structure TestboxTestgroup where
  group_name : List Char
  suites : List TestboxTestsuite

/-- What libtestbox and the system decide. -/
structure LibTestbox where
  TB_STR_LEN : ℕ
  TB_MAX_ARGS : ℕ
  TB_BOARD_ALL : ℕ
  tb_getboardtype : ℕ
  /-- The group that `tb_group_addnode` returns for a name, if it does not make a new one. -/
  tb_group_addnode : Registry → List Char → Option ℕ
  /-- The same for `tb_suite_addnode`. -/
  tb_suite_addnode : Registry → List Char → Option ℕ
  /-- Whether these three do not return `NULL`. -/
  tb_case_addnode : Registry → TestcaseNod → Bool
  tb_suite_addtest : Registry → ℕ → TestcaseNod → Bool
  tb_group_addsuite : Registry → ℕ → ℕ → Bool
  tb_exec_check_executable : List Char → Bool
  strip_newline : List Char → List Char
  getenv : List Char → Option (List Char)
  strLen_gt : 1 < TB_STR_LEN

/-! ## The operations of libtestbox -/

def tbCaseLookupnode (r : Registry) (name : List Char) : Option TestcaseNod :=
  r.cases.find? fun c => cstr c.name = name

def tbCaseAddnode (T : LibTestbox) (r : Registry) (c : TestcaseNod) : Option Registry :=
  if T.tb_case_addnode r c then some { r with cases := r.cases ++ [c] } else none

def tbCaseDeletenodeByName (r : Registry) (name : List Char) : Registry :=
  { r with cases := r.cases.filter fun c => cstr c.name ≠ name }

/-- The registry, and the address of the suite. -/
def tbSuiteAddnode (T : LibTestbox) (r : Registry) (name : List Char) : Registry × ℕ :=
  match T.tb_suite_addnode r name with
  | some p => (r, p)
  | none =>
    ({ r with
      suites := r.suites ++ [⟨r.next, name, List.replicate T.TB_STR_LEN NUL, []⟩]
      next := r.next + 1 }, r.next)

/-- A change of the suite at an address. -/
def Registry.onSuite (r : Registry) (p : ℕ) (f : TestsuiteNod → TestsuiteNod) : Registry :=
  { r with suites := r.suites.map fun s => if s.addr = p then f s else s }

/-- `strncpy(suite_info->descr, descr, TB_STR_LEN - 1)`. -/
def setDescr (T : LibTestbox) (r : Registry) (p : ℕ) (descr : List Char) : Registry :=
  r.onSuite p fun s => { s with descr := strncpy s.descr descr (T.TB_STR_LEN - 1) }

/-- The suite gets a copy of the entry. -/
def tbSuiteAddtest (T : LibTestbox) (r : Registry) (p : ℕ) (t : TestcaseNod) : Option Registry :=
  if T.tb_suite_addtest r p t then some (r.onSuite p fun s => { s with tests := s.tests ++ [t] })
  else none

/-- The registry, and the address of the group. -/
def tbGroupAddnode (T : LibTestbox) (r : Registry) (name : List Char) : Registry × ℕ :=
  match T.tb_group_addnode r name with
  | some p => (r, p)
  | none => ({ r with groups := r.groups ++ [⟨r.next, name, []⟩], next := r.next + 1 }, r.next)

/-- The group gets the suite, whose address is also what is returned. -/
def tbGroupAddsuite (T : LibTestbox) (r : Registry) (g p : ℕ) : Option Registry :=
  if T.tb_group_addsuite r g p then
    some { r with
      groups := r.groups.map fun x =>
        if x.addr = g then { x with suites := x.suites ++ [p] } else x }
  else none

/-- The group goes, and its suites with it. -/
def tbGroupDeletenodeByName (r : Registry) (name : List Char) : Registry :=
  { r with
    suites := r.suites.filter fun s => ¬ ∃ g ∈ r.groups, g.name = name ∧ s.addr ∈ g.suites
    groups := r.groups.filter fun g => g.name ≠ name }

/-! ## The loops over `lib_group` -/

/-- What `load_testcase_from_lib` keeps from one entry to the next. -/
structure LibImport where
  registry : Registry
  testcase_info : TestcaseNod
  status : ℕ
  deriving DecidableEq, Repr

/-- The fields of `testcase_info` that an entry sets. -/
def fillTestcaseInfo (T : LibTestbox) (handle : ℕ) (tc : TestboxTestcase) (info : TestcaseNod) :
    TestcaseNod :=
  let name := strncpy info.name tc.test_name (T.TB_STR_LEN - 1)
  { name := name
    description := strncpy info.description tc.test_description (T.TB_STR_LEN - 1)
    valid_board := tc.valid_board
    is_extended := tc.is_extended
    function := some ⟨handle, tc.function⟩
    is_executable := false
    argc := 1
    args := info.args.modify 0 fun arg => strncpy arg (cstr name) (T.TB_STR_LEN - 1) }

/-- The test is valid for this board. -/
def TestboxTestcase.Valid (T : LibTestbox) (tc : TestboxTestcase) : Prop :=
  tc.valid_board &&& T.tb_getboardtype ≠ 0

instance (T : LibTestbox) (tc : TestboxTestcase) : Decidable (tc.Valid T) :=
  inferInstanceAs (Decidable (_ ≠ _))

/-- `testcase_info` is added to the suite. -/
def addToSuite (T : LibTestbox) (suite_info : ℕ) (st : LibImport) : LibImport :=
  match tbSuiteAddtest T st.registry suite_info st.testcase_info with
  | some r => { st with registry := r }
  | none => { st with status := st.status + 1 }

/-- It is added to the case registry, unless its name is taken. -/
def addToCases (T : LibTestbox) (test_name : List Char) (st : LibImport) : LibImport :=
  match tbCaseLookupnode st.registry test_name with
  | some _ => st
  | none =>
    match tbCaseAddnode T st.registry st.testcase_info with
    | some r => { st with registry := r }
    | none => { st with status := st.status + 1 }

/-- The body of the loop over `j`. -/
def loadTestcase (T : LibTestbox) (handle suite_info : ℕ) (st : LibImport) (tc : TestboxTestcase) :
    LibImport :=
  if tc.Valid T then
    addToCases T tc.test_name (addToSuite T suite_info
      { st with testcase_info := fillTestcaseInfo T handle tc st.testcase_info })
  else st

/-- The body of the loop over `i`. -/
def loadTestsuite (T : LibTestbox) (handle group_info : ℕ) (st : LibImport)
    (suite : TestboxTestsuite) : LibImport :=
  let (r, suite_info) := tbSuiteAddnode T st.registry suite.suite_name
  let r := setDescr T r suite_info suite.suite_descr
  let st := suite.testcases.foldl (loadTestcase T handle suite_info) { st with registry := r }
  match tbGroupAddsuite T st.registry group_info suite_info with
  | some r => { st with registry := r }
  | none => { st with status := st.status + 1 }

/-- The body of the loop over `k`. -/
def loadTestgroup (T : LibTestbox) (handle : ℕ) (st : LibImport) (group : TestboxTestgroup) :
    LibImport :=
  let (r, group_info) := tbGroupAddnode T st.registry group.group_name
  group.suites.foldl (loadTestsuite T handle group_info) { st with registry := r }

/-- The registration of a library; its `testcase_info` is not initialised. -/
def registerLib (T : LibTestbox) (handle : ℕ) (lib_group : List TestboxTestgroup)
    (testcase_info : TestcaseNod) (r : Registry) : LibImport :=
  lib_group.foldl (loadTestgroup T handle) ⟨r, testcase_info, 0⟩

def unloadTestsuite (r : Registry) (usuite : TestboxTestsuite) : Registry :=
  usuite.testcases.foldl (fun r utc => tbCaseDeletenodeByName r utc.test_name) r

def unloadTestgroup (r : Registry) (ugroup : TestboxTestgroup) : Registry :=
  tbGroupDeletenodeByName (ugroup.suites.foldl unloadTestsuite r) ugroup.group_name

/-- What `unload_lib` does to the registries. -/
def unregisterLib (lib_group : List TestboxTestgroup) (r : Registry) : Registry :=
  lib_group.foldl unloadTestgroup r

/-! ## What a library declares -/

/-- The tests of a group, in order. -/
def TestboxTestgroup.tests (group : TestboxTestgroup) : List TestboxTestcase :=
  group.suites.flatMap (·.testcases)

def testsOf (lib_group : List TestboxTestgroup) : List TestboxTestcase :=
  lib_group.flatMap (·.tests)

/-- The names of all tests, valid for this board or not. -/
def testNames (lib_group : List TestboxTestgroup) : List (List Char) :=
  (testsOf lib_group).map (·.test_name)

def groupNames (lib_group : List TestboxTestgroup) : List (List Char) :=
  lib_group.map (·.group_name)

/-! ## The functions held -/

/-- `Q` is true of the functions of all entries. -/
structure Registry.Holds (Q : TestFunction → Prop) (r : Registry) : Prop where
  cases : ∀ c ∈ r.cases, ∀ f ∈ c.function, Q f
  tests : ∀ s ∈ r.suites, ∀ t ∈ s.tests, ∀ f ∈ t.function, Q f

variable {T : LibTestbox} {Q : TestFunction → Prop} {r r' : Registry} {p g handle : ℕ}

theorem Registry.Holds.mono {Q' : TestFunction → Prop} (h : r.Holds Q) (hQ : ∀ f, Q f → Q' f) :
    r.Holds Q' :=
  ⟨fun c hc f hf => hQ f (h.cases c hc f hf), fun s hs t ht f hf => hQ f (h.tests s hs t ht f hf)⟩

theorem holds_start : Registry.start.Holds Q := ⟨by simp [Registry.start], by simp [Registry.start]⟩

theorem Registry.Holds.onSuite (h : r.Holds Q) {f : TestsuiteNod → TestsuiteNod}
    (hf : ∀ s ∈ r.suites, ∀ t ∈ (f s).tests, ∀ fn ∈ t.function, Q fn) :
    (r.onSuite p f).Holds Q := by
  refine ⟨h.cases, fun s hs => ?_⟩
  obtain ⟨s₀, hs₀, rfl⟩ := List.mem_map.mp hs
  split
  · exact hf s₀ hs₀
  · exact h.tests s₀ hs₀

theorem holds_setDescr (h : r.Holds Q) (descr : List Char) : (setDescr T r p descr).Holds Q :=
  h.onSuite h.tests

theorem holds_tbCaseAddnode (h : r.Holds Q) {c : TestcaseNod} (hc : ∀ f ∈ c.function, Q f)
    (hr : tbCaseAddnode T r c = some r') : r'.Holds Q := by
  obtain ⟨-, ⟨⟩⟩ := Option.ite_none_right_eq_some.mp hr
  refine ⟨fun d hd => ?_, h.tests⟩
  rcases List.mem_append.mp hd with hd | hd
  · exact h.cases d hd
  · obtain rfl := List.mem_singleton.mp hd
    exact hc

theorem holds_tbSuiteAddtest (h : r.Holds Q) {t : TestcaseNod} (ht : ∀ f ∈ t.function, Q f)
    (hr : tbSuiteAddtest T r p t = some r') : r'.Holds Q := by
  obtain ⟨-, ⟨⟩⟩ := Option.ite_none_right_eq_some.mp hr
  refine h.onSuite fun s hs u hu => ?_
  rcases List.mem_append.mp hu with hu | hu
  · exact h.tests s hs u hu
  · obtain rfl := List.mem_singleton.mp hu
    exact ht

theorem holds_tbSuiteAddnode (h : r.Holds Q) (name : List Char) :
    (tbSuiteAddnode T r name).1.Holds Q := by
  unfold tbSuiteAddnode
  split
  · exact h
  · refine ⟨h.cases, fun s hs => ?_⟩
    rcases List.mem_append.mp hs with hs | hs
    · exact h.tests s hs
    · obtain rfl := List.mem_singleton.mp hs
      simp

theorem holds_tbGroupAddnode (h : r.Holds Q) (name : List Char) :
    (tbGroupAddnode T r name).1.Holds Q := by
  unfold tbGroupAddnode
  split
  · exact h
  · exact ⟨h.cases, h.tests⟩

theorem holds_tbGroupAddsuite (h : r.Holds Q) (hr : tbGroupAddsuite T r g p = some r') :
    r'.Holds Q := by
  obtain ⟨-, ⟨⟩⟩ := Option.ite_none_right_eq_some.mp hr
  exact ⟨h.cases, h.tests⟩

/-! ## Imports -/

/-- `P` is kept by everything that an import of the library with this handle does. -/
structure ImportInv (T : LibTestbox) (handle : ℕ) (P : Registry → Prop) : Prop where
  suiteAddnode : ∀ r name, P r → P (tbSuiteAddnode T r name).1
  setDescr : ∀ r p descr, P r → P (setDescr T r p descr)
  groupAddnode : ∀ r name, P r → P (tbGroupAddnode T r name).1
  groupAddsuite : ∀ r g p r', P r → tbGroupAddsuite T r g p = some r' → P r'
  testcase : ∀ p st tc, P st.registry → P (loadTestcase T handle p st tc).registry

variable {P : Registry → Prop} {st : LibImport}

theorem registry_foldl {α : Type} {f : LibImport → α → LibImport}
    (hf : ∀ st a, P st.registry → P (f st a).registry) (l : List α) (h : P st.registry) :
    P (l.foldl f st).registry :=
  List.foldlRecOn (motive := fun st : LibImport => P st.registry) l f h
    fun st hst a _ => hf st a hst

theorem ImportInv.testsuite (hP : ImportInv T handle P) (suite : TestboxTestsuite)
    (h : P st.registry) : P (loadTestsuite T handle g st suite).registry := by
  have h1 := hP.setDescr _ (tbSuiteAddnode T st.registry suite.suite_name).2 suite.suite_descr
    (hP.suiteAddnode _ suite.suite_name h)
  unfold loadTestsuite
  dsimp only
  split
  · next h2 =>
    apply hP.groupAddsuite _ _ _ _ _ h2
    exact registry_foldl (hP.testcase _) _ h1
  · exact registry_foldl (hP.testcase _) _ h1

theorem ImportInv.testgroup (hP : ImportInv T handle P) (group : TestboxTestgroup)
    (h : P st.registry) : P (loadTestgroup T handle st group).registry :=
  registry_foldl (fun _ suite hst => hP.testsuite suite hst) group.suites
    (hP.groupAddnode _ group.group_name h)

/-- **What the steps of an import keep, the import keeps.** -/
theorem ImportInv.registerLib (hP : ImportInv T handle P) (lib_group : List TestboxTestgroup)
    (info : TestcaseNod) (h : P r) : P (registerLib T handle lib_group info r).registry :=
  registry_foldl (fun _ group hst => hP.testgroup group hst) lib_group h

@[simp] theorem testcase_info_addToSuite :
    (addToSuite T p st).testcase_info = st.testcase_info := by
  unfold addToSuite
  split <;> rfl

theorem holds_addToSuite (h : st.registry.Holds Q) (ht : ∀ f ∈ st.testcase_info.function, Q f) :
    (addToSuite T p st).registry.Holds Q := by
  unfold addToSuite
  split
  · next hr => exact holds_tbSuiteAddtest h ht hr
  · exact h

theorem holds_addToCases (h : st.registry.Holds Q) (ht : ∀ f ∈ st.testcase_info.function, Q f)
    (name : List Char) : (addToCases T name st).registry.Holds Q := by
  unfold addToCases
  split
  · exact h
  · split
    · next hr => exact holds_tbCaseAddnode h ht hr
    · exact h

theorem holds_loadTestcase (h : st.registry.Holds Q) (hQ : ∀ k, Q ⟨handle, k⟩)
    (tc : TestboxTestcase) : (loadTestcase T handle p st tc).registry.Holds Q := by
  unfold loadTestcase
  split
  · have hinfo : ∀ f ∈ (fillTestcaseInfo T handle tc st.testcase_info).function, Q f := by
      rintro f ⟨⟩
      exact hQ _
    apply holds_addToCases
    · apply holds_addToSuite
      · exact h
      · exact hinfo
    · rwa [testcase_info_addToSuite]
  · exact h

/-- **An import** adds functions of its library only. -/
theorem importInv_holds (hQ : ∀ k, Q ⟨handle, k⟩) : ImportInv T handle (Registry.Holds Q) where
  suiteAddnode _ name h := holds_tbSuiteAddnode h name
  setDescr _ _ descr h := holds_setDescr h descr
  groupAddnode _ name h := holds_tbGroupAddnode h name
  groupAddsuite _ _ _ _ h hr := holds_tbGroupAddsuite h hr
  testcase _ _ tc h := holds_loadTestcase h hQ tc

/-! ## Unloads -/

theorem unloadTestsuite_eq (r : Registry) (usuite : TestboxTestsuite) :
    unloadTestsuite r usuite = { r with
      cases := r.cases.filter fun c => cstr c.name ∉ usuite.testcases.map (·.test_name) } := by
  unfold unloadTestsuite
  induction usuite.testcases generalizing r with
  | nil => simp
  | cons tc l ih =>
    rw [List.foldl_cons, ih, tbCaseDeletenodeByName, List.filter_filter]
    simp only [List.map_cons, List.mem_cons, not_or, ne_eq, Bool.decide_and, Bool.and_comm]

theorem unloadTestgroup_eq (r : Registry) (ugroup : TestboxTestgroup) :
    unloadTestgroup r ugroup = tbGroupDeletenodeByName { r with
      cases := r.cases.filter fun c => cstr c.name ∉ ugroup.tests.map (·.test_name) }
      ugroup.group_name := by
  rw [unloadTestgroup, TestboxTestgroup.tests]
  congr 1
  induction ugroup.suites generalizing r with
  | nil => simp
  | cons s l ih =>
    rw [List.foldl_cons, ih, unloadTestsuite_eq, List.filter_filter]
    simp only [List.flatMap_cons, List.map_append, List.mem_append, not_or, Bool.decide_and,
      Bool.and_comm]

/-- **The cases left by an unload** have names that the library does not declare. -/
theorem mem_cases_unregisterLib (lib_group : List TestboxTestgroup) (r : Registry)
    (c : TestcaseNod) :
    c ∈ (unregisterLib lib_group r).cases ↔ c ∈ r.cases ∧ cstr c.name ∉ testNames lib_group := by
  unfold unregisterLib
  induction lib_group generalizing r with
  | nil => simp [testNames, testsOf]
  | cons group l ih =>
    rw [List.foldl_cons, ih, unloadTestgroup_eq]
    simp only [tbGroupDeletenodeByName, testNames, testsOf, List.flatMap_cons, List.map_append,
      List.mem_append, not_or, List.mem_filter, decide_eq_true_eq, and_assoc]

/-- The suite is in a group with this name. -/
def Registry.InGroup (r : Registry) (name : List Char) (s : TestsuiteNod) : Prop :=
  ∃ g ∈ r.groups, g.name = name ∧ s.addr ∈ g.suites

theorem inGroup_tbGroupDeletenodeByName (r : Registry) (n name : List Char) (s : TestsuiteNod) :
    (tbGroupDeletenodeByName r n).InGroup name s ↔ r.InGroup name s ∧ name ≠ n := by
  simp only [Registry.InGroup, tbGroupDeletenodeByName, List.mem_filter, decide_eq_true_eq]
  constructor
  · rintro ⟨g, ⟨hg, hn⟩, rfl, hs⟩
    exact ⟨⟨g, hg, rfl, hs⟩, hn⟩
  · rintro ⟨⟨g, hg, rfl, hs⟩, hn⟩
    exact ⟨g, ⟨hg, hn⟩, rfl, hs⟩

theorem mem_suites_tbGroupDeletenodeByName (r : Registry) (n : List Char) (s : TestsuiteNod) :
    s ∈ (tbGroupDeletenodeByName r n).suites ↔ s ∈ r.suites ∧ ¬ r.InGroup n s := by
  simp [tbGroupDeletenodeByName, Registry.InGroup]

/-- **The suites left by an unload** are in no group that the library declares. -/
theorem mem_suites_unregisterLib (lib_group : List TestboxTestgroup) (r : Registry)
    (s : TestsuiteNod) :
    s ∈ (unregisterLib lib_group r).suites ↔
      s ∈ r.suites ∧ ∀ name ∈ groupNames lib_group, ¬ r.InGroup name s := by
  unfold unregisterLib
  induction lib_group generalizing r with
  | nil => simp [groupNames]
  | cons group l ih =>
    rw [List.foldl_cons, ih, unloadTestgroup_eq, mem_suites_tbGroupDeletenodeByName, and_assoc]
    refine and_congr_right fun _ => ?_
    simp only [inGroup_tbGroupDeletenodeByName, groupNames, List.map_cons, List.mem_cons]
    constructor
    · rintro ⟨h1, h2⟩ name (rfl | hname)
      · exact h1
      · exact fun h3 => h2 name hname ⟨h3, fun h4 => h1 (h4 ▸ h3)⟩
    · exact fun h => ⟨h _ (.inl rfl), fun name hname h1 => h name (.inr hname) h1.1⟩

end Dib
