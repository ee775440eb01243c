import Dib.Registry.Exec
import Dib.Registry.Format
import Dib.Registry.Places

/-!
# The operations of a group file

* `FileOp`, `FileOp.apply`: what the loops ask libtestbox for, and what that does to the registries;
* `lineOps`: the operations for one line;
* **`apply_lineOps`**: nothing else changes the registries;
* `readOps`, `fileOps`: the operations for all lines, up to the end or to a fault;
* **`addGroupFromFile_ops`**: what a file leaves is what its operations leave, and its status is
  `TB_OK` if the loops come to its end.
-/

set_option autoImplicit false

namespace Dib

open CString Lines

/-! ## One line -/

/-- An operation on the registries, or the copy of a description into a suite. -/
inductive FileOp where
  | groupAddnode (group_name : List Char)
  | suiteAddnode (suite_name : List Char)
  | groupAddsuite (group_info suite_info : ℕ)
  | setDescr (suite_info : ℕ) (descr : List Char)
  | suiteAddtest (suite_info : ℕ) (testcase_info : TestcaseNod)
  deriving DecidableEq, Repr

/-- The registries after an operation, which may be refused. -/
def FileOp.apply (T : LibTestbox) (r : Registry) : FileOp → Registry
  | .groupAddnode group_name => (tbGroupAddnode T r group_name).1
  | .suiteAddnode suite_name => (tbSuiteAddnode T r suite_name).1
  | .groupAddsuite group_info suite_info => (tbGroupAddsuite T r group_info suite_info).getD r
  | .setDescr suite_info descr => Dib.setDescr T r suite_info descr
  | .suiteAddtest suite_info testcase_info =>
    (tbSuiteAddtest T r suite_info testcase_info).getD r

section Lines

variable (T : LibTestbox) (rounds : ℕ)

/-- `TC(text)`: nothing if the function is not registered. -/
def testOps (suite_info : ℕ) (r : Registry) (text : List Char) : List FileOp :=
  match (strtok text ' ').head? with
  | none => []
  | some name =>
    match tbCaseLookupnode r name with
    | none => []
    | some tc => [.suiteAddtest suite_info (T.testInfo (strtok text ' ') tc)]

/-- `EXEC(text)`: nothing if the file cannot be executed. -/
def execOps (suite_info : ℕ) (text : List Char) : List FileOp :=
  match createPathFromEnv T rounds text with
  | none => []
  | some path =>
    let tc_name := path.getD text
    match strrchr tc_name '/', (strtok tc_name ' ').head? with
    | some slash, some file =>
      if T.tb_exec_check_executable file then
        match execName (tc_name.drop slash) with
        | none => []
        | some exec_name => [.suiteAddtest suite_info (T.execInfo (strtok tc_name ' ') exec_name)]
      else []
    | _, _ => []

/-- A keyword line, and what the text up to its last bracket asks for. -/
def bracketOps (ops : List Char → List FileOp) (text : List Char) : List FileOp :=
  (cutParen text).elim [] ops

/-- A line of a suite. -/
def tcOps (suite_info : ℕ) (r : Registry) (line : List Char) : List FileOp :=
  match after line ['D', 'E', 'S', 'C', 'R', '('] with
  | some text => bracketOps (fun descr => [.setDescr suite_info descr]) text
  | none =>
    match after line ['T', 'C', '('] with
    | some text => bracketOps (testOps T suite_info r) text
    | none =>
      match after line ['E', 'X', 'E', 'C', '('] with
      | some text => bracketOps (execOps T rounds suite_info) text
      | none => []

/-- A line of a group: the suite is added to it, under its name if it has one. -/
def suiteOps (group_info : ℕ) (s : Registry × Option ℕ) (line : List Char) : List FileOp :=
  match after line ['S', 'U', 'I', 'T', 'E', '('] with
  | some text => bracketOps (fun suite_name =>
      (if suite_name = [] then [] else [.suiteAddnode suite_name]) ++
        (suiteNamed T suite_name s).2.elim [] fun suite_info =>
          [.groupAddsuite group_info suite_info]) text
  | none => []

def groupOps (line : List Char) : List FileOp :=
  match after line ['G', 'R', 'O', 'U', 'P', '('] with
  | some text => bracketOps (fun group_name =>
      if group_name = [] then [] else [.groupAddnode group_name]) text
  | none => []

/-- The operations for the next line, unless it faults. -/
def lineOps (s : FileState) (line : List Char) : List FileOp :=
  match textLine T line with
  | none => []
  | some line =>
    match s.2 with
    | .outside => groupOps line
    | .inGroup group_info suite_info => suiteOps T group_info (s.1, suite_info) line
    | .inSuite _ suite_info => tcOps T rounds suite_info s.1 line

end Lines

/-! ## What they change -/

variable {T : LibTestbox} {rounds g p : ℕ} {r r' : Registry} {s s' : FileState}
  {line text : List Char} {ended : Bool}

/-- The registries after these operations. -/
def applyAll (T : LibTestbox) (r : Registry) (ops : List FileOp) : Registry :=
  ops.foldl (FileOp.apply T) r

theorem applyAll_append (r : Registry) (ops ops' : List FileOp) :
    applyAll T r (ops ++ ops') = applyAll T (applyAll T r ops) ops' :=
  List.foldl_append

theorem apply_testOps (h : addTestFunction T p text r = some r') :
    r' = applyAll T r (testOps T p r text) := by
  simp only [addTestFunction] at h
  rw [testOps]
  cases hname : (strtok text ' ').head? with
  | none =>
    rw [hname] at h
    cases h
  | some name =>
    rw [hname] at h
    dsimp only at h ⊢
    split at h
    · cases h
    cases htc : tbCaseLookupnode r name with
    | none =>
      rw [htc] at h
      exact (Option.some.inj h).symm
    | some tc =>
      rw [htc] at h
      dsimp only at h ⊢
      split at h
      · cases h
      · exact (Option.some.inj h).symm

theorem apply_execOps (h : addExecutable T rounds p text r = some r') :
    r' = applyAll T r (execOps T rounds p text) := by
  obtain ⟨path, hpath, h⟩ := Option.bind_eq_some_iff.mp h
  simp only [addExec] at h
  simp only [execOps, hpath]
  cases hslash : strrchr (path.getD text) '/' with
  | none =>
    rw [hslash] at h
    cases h
  | some slash =>
    rw [hslash] at h
    cases hfile : (strtok (path.getD text) ' ').head? with
    | none =>
      rw [hfile] at h
      cases h
    | some file =>
      rw [hfile] at h
      dsimp only at h ⊢
      split at h
      · cases h
      by_cases hexec : T.tb_exec_check_executable file = true
      · rw [if_pos hexec] at h ⊢
        cases hname : execName ((path.getD text).drop slash) with
        | none =>
          rw [hname] at h
          cases h
        | some exec_name =>
          rw [hname] at h
          dsimp only at h ⊢
          split at h
          · cases h
          · exact (Option.some.inj h).symm
      · rw [if_neg hexec] at h ⊢
        exact (Option.some.inj h).symm

theorem apply_tcOps (h : tcLine T rounds p line r = some (r', ended)) :
    r' = applyAll T r (tcOps T rounds p r line) := by
  rw [tcLine] at h
  rw [tcOps]
  cases hdescr : after line ['D', 'E', 'S', 'C', 'R', '('] with
  | some text =>
    rw [hdescr] at h
    obtain ⟨descr, hcut, h1⟩ := Option.map_eq_some_iff.mp h
    dsimp only
    rw [bracketOps, hcut]
    exact (Prod.mk.inj h1).1.symm
  | none =>
    rw [hdescr] at h
    dsimp only at h ⊢
    cases htc : after line ['T', 'C', '('] with
    | some text =>
      rw [htc] at h
      obtain ⟨name, hcut, h1⟩ := Option.bind_eq_some_iff.mp h
      obtain ⟨r₁, h2, h3⟩ := Option.map_eq_some_iff.mp h1
      dsimp only
      rw [bracketOps, hcut, ← (Prod.mk.inj h3).1]
      exact apply_testOps h2
    | none =>
      rw [htc] at h
      dsimp only at h ⊢
      cases hexec : after line ['E', 'X', 'E', 'C', '('] with
      | some text =>
        rw [hexec] at h
        obtain ⟨name, hcut, h1⟩ := Option.bind_eq_some_iff.mp h
        obtain ⟨r₁, h2, h3⟩ := Option.map_eq_some_iff.mp h1
        dsimp only
        rw [bracketOps, hcut, ← (Prod.mk.inj h3).1]
        exact apply_execOps h2
      | none =>
        rw [hexec] at h
        exact (Prod.mk.inj (Option.some.inj h)).1.symm

theorem apply_groupOps (h : groupLine T line r = some s') :
    s'.1 = applyAll T r (groupOps line) := by
  rw [groupLine] at h
  rw [groupOps]
  cases htext : after line ['G', 'R', 'O', 'U', 'P', '('] with
  | none =>
    rw [htext] at h
    exact congrArg Prod.fst (Option.some.inj h).symm
  | some text =>
    rw [htext] at h
    obtain ⟨name, hcut, rfl⟩ := Option.map_eq_some_iff.mp h
    dsimp only
    rw [bracketOps, hcut, Option.elim_some]
    by_cases hnil : name = []
    · rw [if_pos hnil, if_pos hnil]
      rfl
    · rw [if_neg hnil, if_neg hnil]
      rfl

theorem suiteNamed_fst (suite_name : List Char) (x : Registry × Option ℕ) :
    (suiteNamed T suite_name x).1 =
      applyAll T x.1 (if suite_name = [] then [] else [.suiteAddnode suite_name]) := by
  rw [suiteNamed]
  split_ifs <;> rfl

theorem apply_suiteOps {x : Registry × Option ℕ} (h : suiteLine T g line x = some s') :
    s'.1 = applyAll T x.1 (suiteOps T g x line) := by
  rw [suiteLine] at h
  rw [suiteOps]
  cases htext : after line ['S', 'U', 'I', 'T', 'E', '('] with
  | none =>
    rw [htext] at h
    dsimp only at h
    split at h
    · exact congrArg Prod.fst (Option.some.inj h).symm
    · exact congrArg Prod.fst (Option.some.inj h).symm
  | some text =>
    rw [htext] at h
    obtain ⟨name, hcut, h1⟩ := Option.bind_eq_some_iff.mp h
    obtain ⟨p, hp, rfl⟩ := Option.map_eq_some_iff.mp h1
    dsimp only
    rw [bracketOps, hcut, Option.elim_some, hp, Option.elim_some, applyAll_append,
      ← suiteNamed_fst]
    show _ = (tbGroupAddsuite T (suiteNamed T name x).1 g p).getD _
    cases tbGroupAddsuite T (suiteNamed T name x).1 g p with
    | none => rfl
    | some r => rfl

/-- **A line** changes the registries by its operations only. -/
theorem apply_lineOps (h : lineStep T rounds s line = some s') :
    s'.1 = applyAll T s.1 (lineOps T rounds s line) := by
  rw [lineStep] at h
  rw [lineOps]
  cases htext : textLine T line with
  | none =>
    rw [htext] at h
    exact congrArg Prod.fst (Option.some.inj h).symm
  | some text =>
    rw [htext] at h
    obtain ⟨r, place⟩ := s
    cases place with
    | outside => exact apply_groupOps h
    | inGroup g q => exact apply_suiteOps h
    | inSuite g p =>
      obtain ⟨⟨r', ended⟩, h1, rfl⟩ := Option.map_eq_some_iff.mp h
      exact apply_tcOps h1

/-! ## All lines -/

section Runs

variable (T : LibTestbox) (rounds : ℕ)

/-- **The operations for these lines**, and whether none of the lines faults. -/
def readOps : FileState → List (List Char) → List FileOp × Bool
  | _, [] => ([], true)
  | s, line :: lines =>
    match lineStep T rounds s line with
    | none => ([], false)
    | some s' => (lineOps T rounds s line ++ (readOps s' lines).1, (readOps s' lines).2)

/-- The operations for a group file, and whether the loops come to its end. -/
def fileOps (r : Registry) (file : List Char) : List FileOp × Bool :=
  readOps T rounds (r, .outside) (chunks T.TB_STR_LEN file)

end Runs

variable {lines lines' : List (List Char)}

theorem readOps_append (h : lines.foldlM (lineStep T rounds) s = some s') :
    readOps T rounds s (lines ++ lines') =
      ((readOps T rounds s lines).1 ++ (readOps T rounds s' lines').1,
        (readOps T rounds s' lines').2) := by
  induction lines generalizing s with
  | nil =>
    obtain rfl := Option.some.inj h
    rfl
  | cons line lines ih =>
    rw [List.foldlM_cons] at h
    obtain ⟨s₁, h1, h2⟩ := Option.bind_eq_some_iff.mp h
    rw [List.cons_append, readOps, readOps, h1]
    dsimp only
    rw [ih h2, List.append_assoc]

theorem readOps_of_fault (h : lines.foldlM (lineStep T rounds) s = none) :
    readOps T rounds s (lines ++ lines') = readOps T rounds s lines ∧
      (readOps T rounds s lines).2 = false := by
  induction lines generalizing s with
  | nil => cases h
  | cons line lines ih =>
    rw [List.cons_append, readOps, readOps]
    cases h1 : lineStep T rounds s line with
    | none => exact ⟨rfl, rfl⟩
    | some s₁ =>
      rw [List.foldlM_cons, h1] at h
      obtain ⟨h2, h3⟩ := ih h
      dsimp only
      rw [h2]
      exact ⟨rfl, h3⟩

theorem readLines_eq (s : FileState) (lines : List (List Char)) :
    readLines T rounds s lines = if (readOps T rounds s lines).2 then
      some (applyAll T s.1 (readOps T rounds s lines).1) else none := by
  induction lines generalizing s with
  | nil => rfl
  | cons line lines ih =>
    rw [readLines_cons, readOps]
    cases h1 : lineStep T rounds s line with
    | none => rfl
    | some s₁ =>
      dsimp only
      rw [Option.bind_some, ih, applyAll_append, apply_lineOps h1]

/-- **A group file** does its operations, and is accepted if the loops come to its end. -/
theorem addGroupFromFile_ops (T : LibTestbox) (rounds : ℕ) (r : Registry) (file : List Char) :
    addGroupFromFile T rounds r (some file) = if (fileOps T rounds r file).2 then
      some (applyAll T r (fileOps T rounds r file).1, true) else none := by
  have hread := addGroupFromFile_eq T rounds r file
  rw [readRest, readLines_eq, ← fileOps] at hread
  cases hrun : addGroupFromFile T rounds r (some file) with
  | none =>
    rw [hrun] at hread
    split_ifs at hread ⊢ with hok
    · cases hread
    · rfl
  | some x =>
    obtain ⟨r', ok⟩ := x
    obtain rfl := ok_addGroupFromFile hrun
    rw [hrun] at hread
    split_ifs at hread ⊢ with hok
    · rw [← Option.some.inj hread]
    · cases hread

end Dib
