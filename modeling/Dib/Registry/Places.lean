import Dib.Registry.GroupFile

/-!
# Places in a group file

The three nested loops read the lines of one file. They are one machine that takes line after line,
and the loop that it is in is its place.

* `Place`, `FileState`: outside a group, in a group, in a suite, with the pointers that are held;
* `lineStep`, `readLines`: what is done with one line, and with all;
* `addTcFromFile_bind`, `addSuiteFromFile_bind`, **`addGroupFromFile_eq`**: the loops are the
  machine.
-/

set_option autoImplicit false

namespace Dib

open CString Lines

/-! ## The machine -/

/-- The loop that reads the next line, and its `group_info` and `suite_info`. -/
inductive Place where
  | outside
  | inGroup (group_info : ℕ) (suite_info : Option ℕ)
  | inSuite (group_info suite_info : ℕ)
  deriving DecidableEq, Repr

abbrev FileState := Registry × Place

section Machine

variable (T : LibTestbox) (rounds : ℕ)

/-- The suite that a line `SUITE(suite_name)` is about: without a name, the one before. -/
def suiteNamed (suite_name : List Char) (s : Registry × Option ℕ) : Registry × Option ℕ :=
  if suite_name = [] then s
  else ((tbSuiteAddnode T s.1 suite_name).1, some (tbSuiteAddnode T s.1 suite_name).2)

/-- A line outside the groups. -/
def groupLine (line : List Char) (r : Registry) : Option FileState :=
  match after line ['G', 'R', 'O', 'U', 'P', '('] with
  | none => some (r, .outside)
  | some text => (cutParen text).map fun group_name =>
    if group_name = [] then (r, .outside)
    else ((tbGroupAddnode T r group_name).1, .inGroup (tbGroupAddnode T r group_name).2 none)

/-- A line of a group. -/
def suiteLine (group_info : ℕ) (line : List Char) (s : Registry × Option ℕ) : Option FileState :=
  match after line ['S', 'U', 'I', 'T', 'E', '('] with
  | some text => (cutParen text).bind fun suite_name =>
    (suiteNamed T suite_name s).2.map fun suite_info =>
      match tbGroupAddsuite T (suiteNamed T suite_name s).1 group_info suite_info with
      | none => ((suiteNamed T suite_name s).1, .outside)
      | some r => (r, .inSuite group_info suite_info)
  | none =>
    match strstr line ['E', 'N', 'D', '_', 'G', 'R', 'O', 'U', 'P'] with
    | some _ => some (s.1, .outside)
    | none => some (s.1, .inGroup group_info s.2)

/-- What the loop does with the next line. -/
def lineStep (s : FileState) (line : List Char) : Option FileState :=
  match textLine T line with
  | none => some s
  | some line =>
    match s.2 with
    | .outside => groupLine T line s.1
    | .inGroup group_info suite_info => suiteLine T group_info line (s.1, suite_info)
    | .inSuite group_info suite_info => (tcLine T rounds suite_info line s.1).map fun (r, ended) =>
      (r, if ended then .inGroup group_info (some suite_info) else .inSuite group_info suite_info)

/-- The registry after these lines. -/
def readLines (s : FileState) (lines : List (List Char)) : Option Registry :=
  (lines.foldlM (lineStep T rounds) s).map Prod.fst

/-- What the machine makes of the rest of a file. -/
def readRest (s : FileState) (file : List Char) : Option Registry :=
  readLines T rounds s (chunks T.TB_STR_LEN file)

end Machine

/-! ## The loops -/

variable {T : LibTestbox} {rounds g p : ℕ} {r : Registry} {s : FileState}
  {line file rest : List Char}

theorem readLines_cons (lines : List (List Char)) :
    readLines T rounds s (line :: lines) =
      (lineStep T rounds s line).bind fun s => readLines T rounds s lines := by
  rw [readLines, List.foldlM_cons]
  cases lineStep T rounds s line with
  | none => rfl
  | some s' => rfl

theorem readRest_of_fgets (h : fgets T.TB_STR_LEN file = some (line, rest)) :
    readRest T rounds s file =
      (lineStep T rounds s line).bind fun s => readRest T rounds s rest := by
  rw [readRest, chunks_of_fgets T.strLen_gt h, readLines_cons]
  rfl

section Loops

variable (T : LibTestbox) (rounds : ℕ)

theorem addTcFromFile_bind (g p : ℕ) (r : Registry) (file : List Char) :
    (addTcFromFile T rounds p r file).bind (fun x =>
        readRest T rounds (x.1, .inGroup g (some p)) x.2.1) =
      readRest T rounds (r, .inSuite g p) file := by
  refine loop_bind_eq (readRest T rounds) (fun r => (r, .inSuite g p)) _ T.strLen_gt
    (fun _ _ _ _ _ => shrinks_addTcBody) (fun _ => rfl) (fun line r file rest h => ?_) r file
  rw [readRest_of_fgets h, lineStep, addTcBody]
  cases textLine T line with
  | none => rfl
  | some line =>
    dsimp only
    cases tcLine T rounds p line r with
    | none => rfl
    | some x =>
      obtain ⟨r', ended⟩ := x
      cases ended with
      | true => rfl
      | false => rfl

theorem addSuiteFromFile_bind (g : ℕ) (r : Registry) (file : List Char) :
    (addSuiteFromFile T rounds g r file).bind (fun x =>
        readRest T rounds (x.1, .outside) x.2.1) =
      readRest T rounds (r, .inGroup g none) file := by
  refine loop_bind_eq (readRest T rounds) (fun s : Registry × Option ℕ => (s.1, .inGroup g s.2)) _
    T.strLen_gt (fun _ _ _ _ _ => shrinks_addSuiteBody) (fun _ => rfl)
    (fun line s file rest h => ?_) (r, none) file
  obtain ⟨r, suite_info⟩ := s
  rw [readRest_of_fgets h, lineStep, addSuiteBody]
  cases textLine T line with
  | none => rfl
  | some line =>
    dsimp only
    rw [suiteLine]
    cases after line ['S', 'U', 'I', 'T', 'E', '('] with
    | none =>
      dsimp only
      cases strstr line ['E', 'N', 'D', '_', 'G', 'R', 'O', 'U', 'P'] with
      | none => rfl
      | some _ => rfl
    | some text =>
      dsimp only
      cases cutParen text with
      | none => rfl
      | some suite_name =>
        dsimp only
        rw [← suiteNamed, Option.bind_some]
        cases (suiteNamed T suite_name (r, suite_info)).2 with
        | none => rfl
        | some p =>
          dsimp only
          rw [Option.map_some, Option.bind_some]
          cases tbGroupAddsuite T (suiteNamed T suite_name (r, suite_info)).1 g p with
          | none => rfl
          | some r' =>
            dsimp only
            rw [← addTcFromFile_bind]
            cases addTcFromFile T rounds p r' rest with
            | none => rfl
            | some x => rfl

/-- **The three loops are the machine.** -/
theorem addGroupFromFile_eq (r : Registry) (file : List Char) :
    (addGroupFromFile T rounds r (some file)).map Prod.fst =
      readRest T rounds (r, .outside) file := by
  rw [Option.map_eq_bind]
  refine loop_bind_eq (readRest T rounds) (fun r => (r, .outside)) (some ∘ Prod.fst) T.strLen_gt
    (fun _ _ _ _ _ => shrinks_addGroupBody) (fun _ => rfl) (fun line r file rest h => ?_) r file
  rw [readRest_of_fgets h, lineStep, addGroupBody]
  cases textLine T line with
  | none => rfl
  | some line =>
    dsimp only
    rw [groupLine]
    cases after line ['G', 'R', 'O', 'U', 'P', '('] with
    | none => rfl
    | some text =>
      dsimp only
      cases cutParen text with
      | none => rfl
      | some group_name =>
        dsimp only
        rw [Option.map_some, Option.bind_some]
        by_cases hname : group_name = []
        · rw [if_pos hname, if_pos hname]
          rfl
        · rw [if_neg hname, if_neg hname, ← addSuiteFromFile_bind]
          cases addSuiteFromFile T rounds (tbGroupAddnode T r group_name).2
              (tbGroupAddnode T r group_name).1 rest with
          | none => rfl
          | some x => rfl

end Loops

end Dib
