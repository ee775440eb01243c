import Dib.Lib.Lines
import Dib.Registry.Model

/-!
# Groups from a file

`add_group_from_file` and the two functions it calls are three nested loops over the lines of one
file.

* `replaceString`, `createPathFromEnv`: the path of an executable, in at most so many replacements;
* `addTestFunction`, `addExecutable`, `tcLine`: what a line of a suite adds to it; the functions are
  partial where a null pointer is followed or an array is left;
* `addTcFromFile`, `addSuiteFromFile`, `addGroupFromFile`: the loops, which return the registry, the
  rest of the file and whether the status is `TB_OK`;
* **`keeps_addGroupFromFile`**: a file changes no case, and adds functions of registered cases only.
-/

set_option autoImplicit false

namespace Dib

open CString Lines

/-! ## Lines -/

/-- The text behind `keyword`, which occurs in the line. -/
def after (line keyword : List Char) : Option (List Char) :=
  (strstr line keyword).map fun i => line.drop (i + keyword.length)

/-- `*strrchr(text, ')') = '\0'`. -/
def cutParen (text : List Char) : Option (List Char) :=
  (strrchr text ')').map fun i => text.take i

/-- The line that is looked at: not a comment, longer than one character, and stripped. -/
def textLine (T : LibTestbox) (line : List Char) : Option (List Char) :=
  if line.head? = some '#' ∨ line.length ≤ 1 then none else some (T.strip_newline line)

/-! ## Paths -/

/-- `replace_string`, if it ends within so many replacements. -/
def replaceString (search_str replace_str : List Char) : ℕ → List Char → Option (List Char)
  | 0, _ => none
  | n + 1, ostr =>
    match strstr ostr search_str with
    | none => some ostr
    | some length => replaceString search_str replace_str n
      (ostr.take length ++ replace_str ++ ostr.drop (length + search_str.length))

/-- `create_path_from_env`, which may return `NULL`; `none` if it does not return. -/
def createPathFromEnv (T : LibTestbox) (rounds : ℕ) (orig_path : List Char) :
    Option (Option (List Char)) :=
  match strstr orig_path ['$', '('] with
  | none => some none
  | some envstart =>
    let env := orig_path.drop envstart
    match strstr env [')'] with
    | none => some none
    | some envend =>
      match T.getenv ((env.drop 2).take (envend - 2)) with
      | none => some none
      | some envpath => (replaceString (env.take (envend + 1)) envpath rounds orig_path).map some

/-! ## The lines of a suite -/

/-- `memset(&testcase_info, 0, sizeof(testcase_info))`. -/
def LibTestbox.zeroInfo (T : LibTestbox) : TestcaseNod where
  name := List.replicate T.TB_STR_LEN NUL
  description := List.replicate T.TB_STR_LEN NUL
  valid_board := 0
  is_extended := false
  is_executable := false
  function := none
  argc := 0
  args := List.replicate T.TB_MAX_ARGS (List.replicate T.TB_STR_LEN NUL)

/-- The loop that copies `args` into `testcase_info.args`. -/
def LibTestbox.copyArgs (T : LibTestbox) (args : List (List Char)) : List (List Char) :=
  T.zeroInfo.args.mapIdx fun i row =>
    match args[i]? with
    | none => row
    | some arg => strncpy row arg (T.TB_STR_LEN - 1)

/-- The slots of `args`, whose last one in use is a null pointer. -/
def argSlots : ℕ := 32

/-- `testcase_info` for a registered test function. -/
def LibTestbox.testInfo (T : LibTestbox) (args : List (List Char)) (tc : TestcaseNod) :
    TestcaseNod :=
  { T.zeroInfo with
    name := strncpy T.zeroInfo.name (cstr tc.name) (T.TB_STR_LEN - 1)
    description := strncpy T.zeroInfo.description (cstr tc.description) (T.TB_STR_LEN - 1)
    valid_board := tc.valid_board
    is_extended := tc.is_extended
    function := tc.function
    argc := args.length
    args := T.copyArgs args }

/-- `TC(text)`. -/
def addTestFunction (T : LibTestbox) (suite_info : ℕ) (text : List Char) (r : Registry) :
    Option Registry :=
  let args := strtok text ' '
  match args.head? with
  | none => none
  | some name =>
    if argSlots ≤ args.length then none
    else
      match tbCaseLookupnode r name with
      | none => some r
      | some tc =>
        if T.TB_MAX_ARGS < args.length then none
        else some ((tbSuiteAddtest T r suite_info (T.testInfo args tc)).getD r)

def executableFile : List Char :=
  ['E', 'x', 'e', 'c', 'u', 't', 'a', 'b', 'l', 'e', ' ', 'f', 'i', 'l', 'e']

/-- `testcase_info` for an executable. -/
def LibTestbox.execInfo (T : LibTestbox) (args : List (List Char)) (exec_name : List Char) :
    TestcaseNod :=
  { T.zeroInfo with
    name := strncpy T.zeroInfo.name exec_name (T.TB_STR_LEN - 1)
    description := strncpy T.zeroInfo.description executableFile (T.TB_STR_LEN - 1)
    is_executable := true
    valid_board := T.TB_BOARD_ALL
    argc := args.length
    args := T.copyArgs args }

/-- `strtok(exec_name, "/")` of what begins with the last slash, and where the splitting at blanks
cuts it later. -/
def execName (exec_name : List Char) : Option (List Char) :=
  if exec_name.drop 1 = [] then none else some ((exec_name.drop 1).takeWhile (· ≠ ' '))

/-- `EXEC(text)`, when the path is `tc_name`. -/
def addExec (T : LibTestbox) (suite_info : ℕ) (tc_name : List Char) (r : Registry) :
    Option Registry :=
  match strrchr tc_name '/' with
  -- `strtok` takes the null pointer for the place where an earlier call stopped, in an array that
  -- holds other text by now, if there was such a call
  | none => none
  | some slash =>
    let args := strtok tc_name ' '
    match args.head? with
    | none => none
    | some file =>
      if argSlots ≤ args.length then none
      else if T.tb_exec_check_executable file then
        match execName (tc_name.drop slash) with
        | none => none
        | some exec_name =>
          if T.TB_MAX_ARGS < args.length then none
          else some ((tbSuiteAddtest T r suite_info (T.execInfo args exec_name)).getD r)
      else some r

/-- `EXEC(text)`. -/
def addExecutable (T : LibTestbox) (rounds suite_info : ℕ) (text : List Char) (r : Registry) :
    Option Registry :=
  (createPathFromEnv T rounds text).bind fun path => addExec T suite_info (path.getD text) r

/-- A line of a suite: the registry, and whether this was the end of the suite. -/
def tcLine (T : LibTestbox) (rounds suite_info : ℕ) (line : List Char) (r : Registry) :
    Option (Registry × Bool) :=
  match after line ['D', 'E', 'S', 'C', 'R', '('] with
  | some text => (cutParen text).map fun descr => (setDescr T r suite_info descr, false)
  | none =>
    match after line ['T', 'C', '('] with
    | some text => (cutParen text).bind fun text =>
      (addTestFunction T suite_info text r).map (·, false)
    | none =>
      match after line ['E', 'X', 'E', 'C', '('] with
      | some text => (cutParen text).bind fun text =>
        (addExecutable T rounds suite_info text r).map (·, false)
      | none =>
        some (r, (strstr line ['E', 'N', 'D', '_', 'S', 'U', 'I', 'T', 'E']).isSome)

/-! ## The loops -/

/-- What the inner loops return: the registry, the rest of the file, and whether it is `TB_OK`. -/
abbrev FileResult := Registry × List Char × Bool

/-- The body of the loop of `add_tc_from_file`. -/
def addTcBody (T : LibTestbox) (rounds suite_info : ℕ) (line : List Char) (r : Registry)
    (file : List Char) : Option (Round Registry FileResult) :=
  match textLine T line with
  | none => some (.next r file)
  | some line =>
    (tcLine T rounds suite_info line r).map fun (r, ended) =>
      if ended then .ret (r, file, true) else .next r file

def addTcFromFile (T : LibTestbox) (rounds suite_info : ℕ) (r : Registry) (file : List Char) :
    Option FileResult :=
  whileFgets T.TB_STR_LEN (addTcBody T rounds suite_info) (fun r file => (r, file, false))
    (file.length + 1) r file

/-- The body of the loop of `add_suite_from_file`; its state is the registry and `suite_info`. -/
def addSuiteBody (T : LibTestbox) (rounds group_info : ℕ) (line : List Char)
    (s : Registry × Option ℕ) (file : List Char) :
    Option (Round (Registry × Option ℕ) FileResult) :=
  match textLine T line with
  | none => some (.next s file)
  | some line =>
    match after line ['S', 'U', 'I', 'T', 'E', '('] with
    | some text =>
      match cutParen text with
      | none => none
      | some suite_name =>
        let (r, suite_info) :=
          if suite_name = [] then s
          else ((tbSuiteAddnode T s.1 suite_name).1, some (tbSuiteAddnode T s.1 suite_name).2)
        match suite_info with
        | none => none
        | some suite_info =>
          match tbGroupAddsuite T r group_info suite_info with
          | none => some (.ret (r, file, false))
          | some r =>
            (addTcFromFile T rounds suite_info r file).map fun (r, file, _) =>
              .next (r, some suite_info) file
    | none =>
      match strstr line ['E', 'N', 'D', '_', 'G', 'R', 'O', 'U', 'P'] with
      | some _ => some (.ret (s.1, file, true))
      | none => some (.next s file)

def addSuiteFromFile (T : LibTestbox) (rounds group_info : ℕ) (r : Registry) (file : List Char) :
    Option FileResult :=
  whileFgets T.TB_STR_LEN (addSuiteBody T rounds group_info) (fun s file => (s.1, file, false))
    (file.length + 1) (r, none) file

/-- The body of the loop of `add_group_from_file`. -/
def addGroupBody (T : LibTestbox) (rounds : ℕ) (line : List Char) (r : Registry)
    (file : List Char) : Option (Round Registry (Registry × Bool)) :=
  match textLine T line with
  | none => some (.next r file)
  | some line =>
    match after line ['G', 'R', 'O', 'U', 'P', '('] with
    | none => some (.next r file)
    | some text =>
      match cutParen text with
      | none => none
      | some group_name =>
        if group_name = [] then some (.next r file)
        else
          (addSuiteFromFile T rounds (tbGroupAddnode T r group_name).2
            (tbGroupAddnode T r group_name).1 file).map fun (r, file, _) => .next r file

/-- `add_group_from_file`; there may be no such file. -/
def addGroupFromFile (T : LibTestbox) (rounds : ℕ) (r : Registry) (file : Option (List Char)) :
    Option (Registry × Bool) :=
  match file with
  | none => some (r, false)
  | some file =>
    whileFgets T.TB_STR_LEN (addGroupBody T rounds) (fun r _ => (r, true)) (file.length + 1) r file

/-! ## What a file does to the registry -/

/-- The cases are these, and `Q` is true of all functions. -/
def Registry.Keeps (cases : List TestcaseNod) (Q : TestFunction → Prop) (r : Registry) : Prop :=
  r.cases = cases ∧ r.Holds Q

variable {T : LibTestbox} {cases : List TestcaseNod} {Q : TestFunction → Prop} {r r' : Registry}
  {rounds p g : ℕ} {line text file file' : List Char} {ok : Bool}

theorem cases_tbSuiteAddnode (T : LibTestbox) (r : Registry) (name : List Char) :
    (tbSuiteAddnode T r name).1.cases = r.cases := by
  unfold tbSuiteAddnode
  split <;> rfl

theorem cases_tbGroupAddnode (T : LibTestbox) (r : Registry) (name : List Char) :
    (tbGroupAddnode T r name).1.cases = r.cases := by
  unfold tbGroupAddnode
  split <;> rfl

theorem cases_tbSuiteAddtest {t : TestcaseNod} (h : tbSuiteAddtest T r p t = some r') :
    r'.cases = r.cases := by
  obtain ⟨-, ⟨⟩⟩ := Option.ite_none_right_eq_some.mp h
  rfl

theorem cases_tbGroupAddsuite (h : tbGroupAddsuite T r g p = some r') : r'.cases = r.cases := by
  obtain ⟨-, ⟨⟩⟩ := Option.ite_none_right_eq_some.mp h
  rfl

theorem Registry.Keeps.addtest (h : r.Keeps cases Q) {t : TestcaseNod}
    (ht : ∀ f ∈ t.function, Q f) : ((tbSuiteAddtest T r p t).getD r).Keeps cases Q := by
  cases hr : tbSuiteAddtest T r p t with
  | none => exact h
  | some r' => exact ⟨(cases_tbSuiteAddtest hr).trans h.1, holds_tbSuiteAddtest h.2 ht hr⟩

theorem keeps_addTestFunction (h : r.Keeps cases Q)
    (hr : addTestFunction T p text r = some r') : r'.Keeps cases Q := by
  simp only [addTestFunction] at hr
  split at hr
  · cases hr
  split at hr
  · cases hr
  split at hr
  · obtain rfl := Option.some.inj hr
    exact h
  next tc htc =>
  split at hr
  · cases hr
  obtain rfl := Option.some.inj hr
  exact h.addtest (h.2.cases tc (List.mem_of_find?_eq_some htc))

theorem keeps_addExecutable (h : r.Keeps cases Q)
    (hr : addExecutable T rounds p text r = some r') : r'.Keeps cases Q := by
  obtain ⟨path, -, hr⟩ := Option.bind_eq_some_iff.mp hr
  simp only [addExec] at hr
  split at hr
  · cases hr
  split at hr
  · cases hr
  split at hr
  · cases hr
  split at hr
  · split at hr
    · cases hr
    split at hr
    · cases hr
    obtain rfl := Option.some.inj hr
    exact h.addtest (by simp [LibTestbox.execInfo, LibTestbox.zeroInfo])
  · obtain rfl := Option.some.inj hr
    exact h

theorem keeps_tcLine (h : r.Keeps cases Q) (hr : tcLine T rounds p line r = some (r', ok)) :
    r'.Keeps cases Q := by
  unfold tcLine at hr
  split at hr
  · obtain ⟨descr, -, h1⟩ := Option.map_eq_some_iff.mp hr
    obtain ⟨rfl, -⟩ := Prod.mk.inj h1
    exact ⟨h.1, holds_setDescr h.2 descr⟩
  split at hr
  · obtain ⟨text, -, h1⟩ := Option.bind_eq_some_iff.mp hr
    obtain ⟨r₁, h2, h3⟩ := Option.map_eq_some_iff.mp h1
    obtain ⟨rfl, -⟩ := Prod.mk.inj h3
    exact keeps_addTestFunction h h2
  split at hr
  · obtain ⟨text, -, h1⟩ := Option.bind_eq_some_iff.mp hr
    obtain ⟨r₁, h2, h3⟩ := Option.map_eq_some_iff.mp h1
    obtain ⟨rfl, -⟩ := Prod.mk.inj h3
    exact keeps_addExecutable h h2
  · obtain ⟨rfl, -⟩ := Prod.mk.inj (Option.some.inj hr)
    exact h

theorem addTcBody_cases {x : Round Registry FileResult}
    (h : addTcBody T rounds p line r file = some x) :
    x = .next r file ∨ ∃ line r' ended, tcLine T rounds p line r = some (r', ended) ∧
      x = if ended then .ret (r', file, true) else .next r' file := by
  unfold addTcBody at h
  split at h
  · exact .inl (Option.some.inj h).symm
  · next l _ =>
    obtain ⟨⟨r', ended⟩, h1, rfl⟩ := Option.map_eq_some_iff.mp h
    exact .inr ⟨l, r', ended, h1, rfl⟩

/-- A round of `add_suite_from_file`: nothing, the end of the group, or a suite that is refused by
the group or read from the file. -/
theorem addSuiteBody_cases {s : Registry × Option ℕ} {x : Round (Registry × Option ℕ) FileResult}
    (h : addSuiteBody T rounds g line s file = some x) :
    x = .next s file ∨ x = .ret (s.1, file, true) ∨
      ∃ r q, (r = s.1 ∨ ∃ name, r = (tbSuiteAddnode T s.1 name).1) ∧
        (x = .ret (r, file, false) ∨ ∃ r₁ r₂ file₂ ok, tbGroupAddsuite T r g q = some r₁ ∧
          addTcFromFile T rounds q r₁ file = some (r₂, file₂, ok) ∧
          x = .next (r₂, some q) file₂) := by
  unfold addSuiteBody at h
  split at h
  · exact .inl (Option.some.inj h).symm
  split at h
  · split at h
    · cases h
    next name _ =>
    obtain ⟨r, q, hrq, hr⟩ : ∃ r q, (if name = [] then s else
        ((tbSuiteAddnode T s.1 name).1, some (tbSuiteAddnode T s.1 name).2)) = (r, q) ∧
        (r = s.1 ∨ ∃ name, r = (tbSuiteAddnode T s.1 name).1) := by
      split
      · exact ⟨_, _, rfl, .inl rfl⟩
      · exact ⟨_, _, rfl, .inr ⟨name, rfl⟩⟩
    rw [hrq] at h
    dsimp only at h
    split at h
    · cases h
    next q =>
    refine .inr (.inr ⟨r, q, hr, ?_⟩)
    split at h
    · exact .inl (Option.some.inj h).symm
    · next r₁ h1 =>
      obtain ⟨⟨r₂, file₂, ok⟩, h2, rfl⟩ := Option.map_eq_some_iff.mp h
      exact .inr ⟨r₁, r₂, file₂, ok, h1, h2, rfl⟩
  · split at h
    · exact .inr (.inl (Option.some.inj h).symm)
    · exact .inl (Option.some.inj h).symm

theorem addGroupBody_cases {x : Round Registry (Registry × Bool)}
    (h : addGroupBody T rounds line r file = some x) :
    x = .next r file ∨ ∃ name r' file' ok, addSuiteFromFile T rounds (tbGroupAddnode T r name).2
      (tbGroupAddnode T r name).1 file = some (r', file', ok) ∧ x = .next r' file' := by
  unfold addGroupBody at h
  split at h
  · exact .inl (Option.some.inj h).symm
  split at h
  · exact .inl (Option.some.inj h).symm
  split at h
  · cases h
  split at h
  · exact .inl (Option.some.inj h).symm
  · next name _ _ =>
    obtain ⟨⟨r', file', ok⟩, h1, rfl⟩ := Option.map_eq_some_iff.mp h
    exact .inr ⟨name, r', file', ok, h1, rfl⟩

theorem keeps_addTcFromFile (h : r.Keeps cases Q)
    (hr : addTcFromFile T rounds p r file = some (r', file', ok)) : r'.Keeps cases Q := by
  refine whileFgets_inv (I := fun r _ => r.Keeps cases Q) (R := fun x => x.1.Keeps cases Q) h
    (fun line r file rest x hs _ hx => ?_) (fun _ _ hs => hs) hr
  rcases addTcBody_cases hx with rfl | ⟨line, r', ended, h1, rfl⟩
  · exact hs
  · split <;> exact keeps_tcLine hs h1

theorem keeps_addSuiteFromFile (h : r.Keeps cases Q)
    (hr : addSuiteFromFile T rounds g r file = some (r', file', ok)) : r'.Keeps cases Q := by
  refine whileFgets_inv (I := fun s _ => s.1.Keeps cases Q) (R := fun x => x.1.Keeps cases Q) h
    (fun line s file rest x hs _ hx => ?_) (fun _ _ hs => hs) hr
  rcases addSuiteBody_cases hx with rfl | rfl | ⟨r, q, hr, hx⟩
  · exact hs
  · exact hs
  · have hkeep : r.Keeps cases Q := by
      rcases hr with rfl | ⟨name, rfl⟩
      · exact hs
      · exact ⟨(cases_tbSuiteAddnode T s.1 name).trans hs.1, holds_tbSuiteAddnode hs.2 name⟩
    rcases hx with rfl | ⟨r₁, r₂, file₂, ok, h1, h2, rfl⟩
    · exact hkeep
    · exact keeps_addTcFromFile
        ⟨(cases_tbGroupAddsuite h1).trans hkeep.1, holds_tbGroupAddsuite hkeep.2 h1⟩ h2

/-- **A file** changes no case and adds functions of registered cases only. -/
theorem keeps_addGroupFromFile (h : r.Keeps cases Q) {file : Option (List Char)}
    (hr : addGroupFromFile T rounds r file = some (r', ok)) : r'.Keeps cases Q := by
  cases file with
  | none =>
    obtain ⟨rfl, -⟩ := Prod.mk.inj (Option.some.inj hr)
    exact h
  | some file =>
    refine whileFgets_inv (I := fun r _ => r.Keeps cases Q) (R := fun x => x.1.Keeps cases Q) h
      (fun line r file rest x hs _ hx => ?_) (fun _ _ hs => hs) hr
    rcases addGroupBody_cases hx with rfl | ⟨name, r', file', ok, h1, rfl⟩
    · exact hs
    · exact keeps_addSuiteFromFile
        ⟨(cases_tbGroupAddnode T r name).trans hs.1, holds_tbGroupAddnode hs.2 name⟩ h1

/-! ## The loops end -/

theorem length_addTcFromFile (h : addTcFromFile T rounds p r file = some (r', file', ok)) :
    file'.length ≤ file.length := by
  refine whileFgets_inv (I := fun _ f => f.length ≤ file.length)
    (R := fun x => x.2.1.length ≤ file.length) le_rfl (fun line r f rest x hs hget hx => ?_)
    (fun _ _ hs => hs) h
  have h1 : rest.length ≤ file.length := (length_lt_of_fgets T.strLen_gt hget).le.trans hs
  rcases addTcBody_cases hx with rfl | ⟨line, r', ended, -, rfl⟩
  · exact h1
  · split <;> exact h1

theorem length_addSuiteFromFile (h : addSuiteFromFile T rounds g r file = some (r', file', ok)) :
    file'.length ≤ file.length := by
  refine whileFgets_inv (I := fun _ f => f.length ≤ file.length)
    (R := fun x => x.2.1.length ≤ file.length) le_rfl (fun line s f rest x hs hget hx => ?_)
    (fun _ _ hs => hs) h
  have h1 : rest.length ≤ file.length := (length_lt_of_fgets T.strLen_gt hget).le.trans hs
  rcases addSuiteBody_cases hx with rfl | rfl | ⟨r, q, -, rfl | ⟨r₁, r₂, file₂, ok, -, h2, rfl⟩⟩
  · exact h1
  · exact h1
  · exact h1
  · exact (length_addTcFromFile h2).trans h1

theorem shrinks_addTcBody {r' : Registry}
    (h : addTcBody T rounds p line r file = some (.next r' file')) :
    file'.length ≤ file.length := by
  rcases addTcBody_cases h with hx | ⟨l, r₁, ended, -, hx⟩
  · cases hx
    exact le_rfl
  · split at hx <;> cases hx
    exact le_rfl

theorem shrinks_addSuiteBody {s s' : Registry × Option ℕ}
    (h : addSuiteBody T rounds g line s file = some (.next s' file')) :
    file'.length ≤ file.length := by
  rcases addSuiteBody_cases h with hx | hx | ⟨r, q, -, hx | ⟨r₁, r₂, file₂, ok, -, h2, hx⟩⟩ <;>
    cases hx
  · exact le_rfl
  · exact length_addTcFromFile h2

theorem shrinks_addGroupBody {r' : Registry}
    (h : addGroupBody T rounds line r file = some (.next r' file')) :
    file'.length ≤ file.length := by
  rcases addGroupBody_cases h with hx | ⟨name, r₁, f₁, ok, h1, hx⟩
  · cases hx
    exact le_rfl
  · cases hx
    exact length_addSuiteFromFile h1

end Dib
