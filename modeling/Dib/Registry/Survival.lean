import Dib.Registry.Daemon
import Dib.Registry.Places

/-!
# Null pointers and array bounds in a group file

The parser of group files follows what `strrchr` and `strtok` return, and writes to two arrays.

* `Use`, `lineUses`: the pointers and indices that are used for a line, in the order of the source;
* `Survives`: none of them is null or out of range, in any line that is come to;
* `SoundLine`: what a line must have, in the place where it is read;
* `forall_tcUses`, **`survives_iff`**: this is what decides it;
* **`addGroupFromFile_ne_none`**: the loops then come to the end of the file, if the expansions of
  paths end.
-/

set_option autoImplicit false

namespace Dib

open CString Lines

/-! ## Uses -/

/-- A pointer that is followed or passed on as a string or a suite, or an index. -/
inductive Use where
  | string (s : Option (List Char))
  | suite (suite_info : Option ℕ)
  | args (i : ℕ)
  | infoArgs (i : ℕ)
  deriving DecidableEq, Repr

/-- It is not null, or not out of range. -/
def Use.Ok (T : LibTestbox) : Use → Prop
  | .string s => s ≠ none
  | .suite suite_info => suite_info ≠ none
  | .args i => i < argSlots
  | .infoArgs i => i < T.TB_MAX_ARGS

/-- `*strrchr(text, ')') = '\0'`. -/
def parenUse (text : List Char) : Use := .string ((strrchr text ')').map text.drop)

/-- `args[0]`, and `args[i]` until `strtok` returns a null pointer, which is stored as well. -/
def splitUses (args : List (List Char)) : List Use :=
  (List.range (max args.length 1 + 1)).map .args

/-- `strncpy(testcase_info.args[i], args[i], TB_STR_LEN - 1)`. -/
def copyUses (args : List (List Char)) : List Use :=
  (List.range args.length).flatMap fun i => [.args i, .string args[i]?, .infoArgs i]

/-- `TC(text)`: the first word is looked up, and copied with the others if it is registered. -/
def testUses (r : Registry) (text : List Char) : List Use :=
  let args := strtok text ' '
  splitUses args ++ .string args.head? ::
    match args.head? with
    | none => []
    | some name =>
      match tbCaseLookupnode r name with
      | none => []
      | some _ => copyUses args

section Lines

variable (T : LibTestbox) (rounds : ℕ)

/-- `EXEC(text)`; an expansion that does not end uses nothing more. What it finds with `strstr` is
tested there. -/
def execUses (text : List Char) : List Use :=
  match createPathFromEnv T rounds text with
  | none => []
  | some path =>
    let tc_name := path.getD text
    let slash := (strrchr tc_name '/').map tc_name.drop
    let exec_name := slash.bind fun s => (strtok s '/').head?
    let args := strtok tc_name ' '
    .string slash :: (splitUses args ++ .string args.head? ::
      match args.head? with
      | none => []
      | some file =>
        if T.tb_exec_check_executable file then .string exec_name :: copyUses args else [])

/-- A keyword line, and what is done with the text up to its last bracket. -/
def bracketUses (uses : List Char → List Use) (text : List Char) : List Use :=
  parenUse text :: (cutParen text).elim [] uses

/-- A line of a suite. -/
def tcUses (r : Registry) (line : List Char) : List Use :=
  match after line ['D', 'E', 'S', 'C', 'R', '('] with
  | some text => bracketUses (fun _ => []) text
  | none =>
    match after line ['T', 'C', '('] with
    | some text => bracketUses (testUses r) text
    | none =>
      match after line ['E', 'X', 'E', 'C', '('] with
      | some text => bracketUses (execUses T rounds) text
      | none => []

/-- A line of a group: the suite is passed to `tb_group_addsuite`. -/
def suiteUses (line : List Char) (s : Registry × Option ℕ) : List Use :=
  match after line ['S', 'U', 'I', 'T', 'E', '('] with
  | some text => bracketUses (fun suite_name => [.suite (suiteNamed T suite_name s).2]) text
  | none => []

def groupUses (line : List Char) : List Use :=
  match after line ['G', 'R', 'O', 'U', 'P', '('] with
  | some text => bracketUses (fun _ => []) text
  | none => []

/-- What is used for the next line. -/
def lineUses (s : FileState) (line : List Char) : List Use :=
  match textLine T line with
  | none => []
  | some line =>
    match s.2 with
    | .outside => groupUses line
    | .inGroup _ suite_info => suiteUses T line (s.1, suite_info)
    | .inSuite _ _ => tcUses T rounds s.1 line

/-- The machine comes to this line of the file in this state. -/
def ComesTo (r : Registry) (file : List Char) (s : FileState) (line : List Char) : Prop :=
  ∃ before behind, chunks T.TB_STR_LEN file = before ++ line :: behind ∧
    before.foldlM (lineStep T rounds) (r, .outside) = some s

end Lines

/-- **The parser survives the file**: whatever it uses is not null, and in range. -/
def Survives (T : LibTestbox) (r : Registry) (file : List Char) : Prop :=
  ∀ rounds s line, ComesTo T rounds r file s line → ∀ u ∈ lineUses T rounds s line, u.Ok T

/-! ## What a line must have -/

section Sound

variable (T : LibTestbox) (rounds : ℕ)

/-- There are words, `args` has a place for them and for the null pointer behind them, and the entry
has one for each if it gets them. -/
structure SoundWords (args : List (List Char)) (copied : Prop) : Prop where
  pos : args ≠ []
  slots : args.length < argSlots
  room : copied → args.length ≤ T.TB_MAX_ARGS

/-- `TC(text)`, with the first word a registered case or not. -/
def SoundTest (r : Registry) (text : List Char) : Prop :=
  SoundWords T (strtok text ' ') (∃ name ∈ (strtok text ' ').head?, tbCaseLookupnode r name ≠ none)

/-- `EXEC(text)`: the path has a `/`, and something behind the last one if it is executable. -/
def SoundExec (text : List Char) : Prop :=
  ∀ path, createPathFromEnv T rounds text = some path →
    let tc_name := path.getD text
    let executable := ∃ file ∈ (strtok tc_name ' ').head?, T.tb_exec_check_executable file = true
    '/' ∈ tc_name ∧ SoundWords T (strtok tc_name ' ') executable ∧
      (executable → tc_name.getLast? ≠ some '/')

/-- There is a bracket, and the text up to the last one is sound. -/
def SoundBracket (sound : List Char → Prop) (text : List Char) : Prop :=
  ')' ∈ text ∧ ∀ t ∈ cutParen text, sound t

def SoundTc (r : Registry) (line : List Char) : Prop :=
  match after line ['D', 'E', 'S', 'C', 'R', '('] with
  | some text => SoundBracket (fun _ => True) text
  | none =>
    match after line ['T', 'C', '('] with
    | some text => SoundBracket (SoundTest T r) text
    | none => ∀ text ∈ after line ['E', 'X', 'E', 'C', '('], SoundBracket (SoundExec T rounds) text

/-- A line and the place where it is read: brackets are closed, and a suite without a name comes
after one. -/
def SoundText (s : FileState) (line : List Char) : Prop :=
  match s.2 with
  | .outside => ∀ text ∈ after line ['G', 'R', 'O', 'U', 'P', '('],
      SoundBracket (fun _ => True) text
  | .inGroup _ suite_info => ∀ text ∈ after line ['S', 'U', 'I', 'T', 'E', '('],
      SoundBracket (fun suite_name => suite_name = [] → suite_info ≠ none) text
  | .inSuite _ _ => SoundTc T rounds s.1 line

def SoundLine (s : FileState) (line : List Char) : Prop :=
  ∀ text ∈ textLine T line, SoundText T rounds s text

end Sound

/-! ## Uses of a line -/

variable {T : LibTestbox} {rounds : ℕ} {r : Registry} {args : List (List Char)}
  {text line file : List Char} {s : FileState}

theorem forall_splitUses :
    (∀ u ∈ splitUses args, u.Ok T) ↔ args.length < argSlots := by
  rw [splitUses, List.forall_mem_map]
  constructor
  · intro h
    have hmax : max args.length 1 < argSlots := h _ (List.mem_range.mpr (Nat.lt_succ_self _))
    exact lt_of_le_of_lt (le_max_left _ _) hmax
  · intro h i hi
    have hmax : max args.length 1 < argSlots := max_lt h (by decide)
    exact lt_of_le_of_lt (Nat.le_of_lt_succ (List.mem_range.mp hi)) hmax

theorem forall_copyUses (hslots : args.length < argSlots) :
    (∀ u ∈ copyUses args, u.Ok T) ↔ args.length ≤ T.TB_MAX_ARGS := by
  have hround (i : ℕ) : (∀ u ∈ [Use.args i, .string args[i]?, .infoArgs i], u.Ok T) ↔
      i < argSlots ∧ args[i]? ≠ none ∧ i < T.TB_MAX_ARGS := by
    simp [Use.Ok]
  rw [copyUses, List.forall_mem_flatMap]
  simp only [hround, List.mem_range]
  constructor
  · intro h
    by_contra hlt
    have hlt' := h T.TB_MAX_ARGS (Nat.lt_of_not_le hlt)
    exact absurd hlt'.2.2 (Nat.lt_irrefl _)
  · intro h i hi
    exact ⟨hi.trans hslots, by simpa using hi, lt_of_lt_of_le hi h⟩

/-- The words of a line: they are split, the first one is passed on, and the rest is done if they
are copied. -/
theorem forall_words {tail : List Use} {copied P : Prop}
    (htail : args ≠ [] → args.length < argSlots →
      ((∀ u ∈ tail, u.Ok T) ↔ (copied → P ∧ args.length ≤ T.TB_MAX_ARGS))) :
    (∀ u ∈ splitUses args ++ .string args.head? :: tail, u.Ok T) ↔
      SoundWords T args copied ∧ (copied → P) := by
  have hhead : (Use.string args.head?).Ok T ↔ args ≠ [] := by simp [Use.Ok]
  rw [List.forall_mem_append, List.forall_mem_cons, forall_splitUses, hhead]
  constructor
  · rintro ⟨hslots, hne, h⟩
    have htail' := (htail hne hslots).mp h
    exact ⟨⟨hne, hslots, fun hc => (htail' hc).2⟩, fun hc => (htail' hc).1⟩
  · rintro ⟨⟨hne, hslots, hroom⟩, hP⟩
    exact ⟨hslots, hne, (htail hne hslots).mpr fun hc => ⟨hP hc, hroom hc⟩⟩

theorem forall_testUses : (∀ u ∈ testUses r text, u.Ok T) ↔ SoundTest T r text := by
  rw [testUses, SoundTest]
  generalize strtok text ' ' = args
  refine (forall_words (P := True) fun hne hslots => ?_).trans (and_iff_left fun _ => trivial)
  obtain ⟨name, words, rfl⟩ := List.exists_cons_of_ne_nil hne
  have hcopy := forall_copyUses (T := T) hslots
  cases hlookup : tbCaseLookupnode r name with
  | none => simp [hlookup]
  | some tc => simp [hlookup, hcopy]

theorem strtok_slash (h : '/' ∈ text) :
    ((strrchr text '/').map text.drop).bind (fun s => (strtok s '/').head?) ≠ none ↔
      text.getLast? ≠ some '/' := by
  obtain ⟨u, v, rfl, hv⟩ := exists_last h
  rw [strrchr_split u hv, Option.map_some, List.drop_left, Option.bind_some]
  have htok : strtok ('/' :: v) '/' = if v = [] then [] else [v] := by
    rw [strtok, List.splitOn_cons_eq_if_modifyHead, if_pos (beq_self_eq_true _),
      List.splitOn_eq_singleton hv]
    split_ifs with hnil
    · simp [hnil]
    · simp [hnil]
  rw [htok]
  split_ifs with hnil
  · simp [hnil]
  · have hlast : (u ++ '/' :: v).getLast? = v.getLast? := by
      rw [List.getLast?_append, List.getLast?_cons, List.getLast?_eq_some_getLast hnil]
      rfl
    have hne : v.getLast? ≠ some '/' := fun h => hv (List.mem_of_getLast? h)
    simp [hlast, hne]

theorem forall_execUses : (∀ u ∈ execUses T rounds text, u.Ok T) ↔ SoundExec T rounds text := by
  rw [execUses, SoundExec]
  cases createPathFromEnv T rounds text with
  | none => simp
  | some path =>
    simp only [Option.some.injEq, forall_eq']
    generalize path.getD text = tc_name
    have hslash : (Use.string ((strrchr tc_name '/').map tc_name.drop)).Ok T ↔ '/' ∈ tc_name := by
      rw [Use.Ok, ne_eq, Option.map_eq_none_iff, strrchr_eq_none_iff, not_not]
    rw [List.forall_mem_cons, hslash]
    refine and_congr_right fun hmem => ?_
    have hname : (Use.string (((strrchr tc_name '/').map tc_name.drop).bind fun s =>
        (strtok s '/').head?)).Ok T ↔ tc_name.getLast? ≠ some '/' := strtok_slash hmem
    generalize strtok tc_name ' ' = args
    refine forall_words fun hne hslots => ?_
    obtain ⟨file, words, rfl⟩ := List.exists_cons_of_ne_nil hne
    have hcopy := forall_copyUses (T := T) hslots
    by_cases hexec : T.tb_exec_check_executable file = true
    · simp only [List.head?_cons, if_pos hexec, List.forall_mem_cons, hcopy, hname]
      simp [hexec]
    · simp [hexec]

theorem forall_bracketUses {uses : List Char → List Use} {sound : List Char → Prop}
    (h : ∀ t, (∀ u ∈ uses t, u.Ok T) ↔ sound t) :
    (∀ u ∈ bracketUses uses text, u.Ok T) ↔ SoundBracket sound text := by
  have hparen : (parenUse text).Ok T ↔ ')' ∈ text := by
    rw [parenUse, Use.Ok, ne_eq, Option.map_eq_none_iff, strrchr_eq_none_iff, not_not]
  rw [bracketUses, List.forall_mem_cons, hparen, SoundBracket]
  refine and_congr_right fun _ => ?_
  cases cutParen text with
  | none => simp
  | some t => simpa using h t

theorem forall_tcUses : (∀ u ∈ tcUses T rounds r line, u.Ok T) ↔ SoundTc T rounds r line := by
  rw [tcUses, SoundTc]
  cases after line ['D', 'E', 'S', 'C', 'R', '('] with
  | some text => exact forall_bracketUses fun _ => by simp
  | none =>
    dsimp only
    cases after line ['T', 'C', '('] with
    | some text => exact forall_bracketUses fun _ => forall_testUses
    | none =>
      dsimp only
      cases after line ['E', 'X', 'E', 'C', '('] with
      | some text => simpa using forall_bracketUses fun _ => forall_execUses
      | none => simp

theorem forall_suiteUses {suite_info : Option ℕ} :
    (∀ u ∈ suiteUses T line (r, suite_info), u.Ok T) ↔
      ∀ text ∈ after line ['S', 'U', 'I', 'T', 'E', '('],
        SoundBracket (fun suite_name => suite_name = [] → suite_info ≠ none) text := by
  have hsuite (suite_name : List Char) :
      (∀ u ∈ [Use.suite (suiteNamed T suite_name (r, suite_info)).2], u.Ok T) ↔
        (suite_name = [] → suite_info ≠ none) := by
    rw [List.forall_mem_singleton, Use.Ok, suiteNamed]
    split_ifs with hname
    · simp [hname]
    · simp [hname]
  rw [suiteUses]
  cases after line ['S', 'U', 'I', 'T', 'E', '('] with
  | none => simp
  | some text => simpa using forall_bracketUses hsuite

theorem forall_groupUses : (∀ u ∈ groupUses line, u.Ok T) ↔
    ∀ text ∈ after line ['G', 'R', 'O', 'U', 'P', '('], SoundBracket (fun _ => True) text := by
  rw [groupUses]
  cases after line ['G', 'R', 'O', 'U', 'P', '('] with
  | none => simp
  | some text =>
    have hbracket : (∀ u ∈ bracketUses (fun _ => []) text, u.Ok T) ↔
        SoundBracket (fun _ => True) text := forall_bracketUses fun _ => by simp
    simpa using hbracket

theorem forall_lineUses : (∀ u ∈ lineUses T rounds s line, u.Ok T) ↔ SoundLine T rounds s line := by
  obtain ⟨r, place⟩ := s
  rw [lineUses, SoundLine]
  cases textLine T line with
  | none => simp
  | some text =>
    simp only [Option.mem_some_iff, forall_eq']
    cases place with
    | outside => exact forall_groupUses
    | inGroup g suite_info => exact forall_suiteUses
    | inSuite g p => exact forall_tcUses

/-! ## Whole files -/

/-- **Which files the parser survives**: those in which every line that is come to is sound in the
place where it is read. -/
theorem survives_iff (T : LibTestbox) (r : Registry) (file : List Char) :
    Survives T r file ↔
      ∀ rounds s line, ComesTo T rounds r file s line → SoundLine T rounds s line :=
  forall₃_congr fun _ _ _ => imp_congr_right fun _ => forall_lineUses

/-! ## The loops do not fault -/

variable {p g : ℕ}

theorem addTestFunction_ne_none (h : SoundTest T r text) : addTestFunction T p text r ≠ none := by
  rw [SoundTest] at h
  rw [addTestFunction]
  generalize strtok text ' ' = args at *
  obtain ⟨name, words, rfl⟩ := List.exists_cons_of_ne_nil h.pos
  simp only [List.head?_cons]
  rw [if_neg (Nat.not_le_of_lt h.slots)]
  cases hlookup : tbCaseLookupnode r name with
  | none => simp
  | some tc =>
    have hroom := h.room ⟨name, rfl, by simp [hlookup]⟩
    simp only
    rw [if_neg (Nat.not_lt_of_le hroom)]
    simp

theorem execName_ne_none (hslash : '/' ∈ text) : ∃ slash, strrchr text '/' = some slash ∧
    (text.getLast? ≠ some '/' → execName (text.drop slash) ≠ none) := by
  obtain ⟨u, v, rfl, hv⟩ := exists_last hslash
  refine ⟨u.length, strrchr_split u hv, fun hlast => ?_⟩
  have hne : v ≠ [] := by
    rintro rfl
    simp at hlast
  rw [execName, List.drop_left, List.drop_one, List.tail_cons, if_neg hne]
  exact Option.some_ne_none _

theorem addExecutable_ne_none (h : SoundExec T rounds text)
    (hends : createPathFromEnv T rounds text ≠ none) :
    addExecutable T rounds p text r ≠ none := by
  obtain ⟨path, hpath⟩ := Option.ne_none_iff_exists'.mp hends
  obtain ⟨hslash, hwords, hlast⟩ := h path hpath
  rw [addExecutable, hpath, Option.bind_some, addExec]
  generalize path.getD text = tc_name at *
  obtain ⟨slash, hfound, hname⟩ := execName_ne_none hslash
  rw [hfound]
  dsimp only
  generalize strtok tc_name ' ' = args at *
  obtain ⟨file, words, rfl⟩ := List.exists_cons_of_ne_nil hwords.pos
  simp only [List.head?_cons]
  rw [if_neg (Nat.not_le_of_lt hwords.slots)]
  by_cases hexec : T.tb_exec_check_executable file = true
  · have hroom := hwords.room ⟨file, rfl, hexec⟩
    obtain ⟨exec_name, hexecName⟩ :=
      Option.ne_none_iff_exists'.mp (hname (hlast ⟨file, rfl, hexec⟩))
    rw [if_pos hexec, hexecName]
    dsimp only
    rw [if_neg (Nat.not_lt_of_le hroom)]
    simp
  · rw [if_neg hexec]
    simp

theorem SoundBracket.exists_cut {sound : List Char → Prop} (h : SoundBracket sound text) :
    ∃ t, cutParen text = some t ∧ sound t := by
  have hne : cutParen text ≠ none := by
    rw [cutParen, ne_eq, Option.map_eq_none_iff, strrchr_eq_none_iff, not_not]
    exact h.1
  obtain ⟨t, ht⟩ := Option.ne_none_iff_exists'.mp hne
  exact ⟨t, ht, h.2 t ht⟩

theorem tcLine_ne_none (h : SoundTc T rounds r line)
    (hends : ∀ text, createPathFromEnv T rounds text ≠ none) :
    tcLine T rounds p line r ≠ none := by
  rw [SoundTc] at h
  rw [tcLine]
  cases hdescr : after line ['D', 'E', 'S', 'C', 'R', '('] with
  | some text =>
    rw [hdescr] at h
    obtain ⟨t, ht, -⟩ := SoundBracket.exists_cut h
    simp [ht]
  | none =>
    rw [hdescr] at h
    dsimp only at h ⊢
    cases htc : after line ['T', 'C', '('] with
    | some text =>
      rw [htc] at h
      obtain ⟨t, ht, hsound⟩ := SoundBracket.exists_cut h
      simpa [ht] using addTestFunction_ne_none hsound
    | none =>
      rw [htc] at h
      dsimp only at h ⊢
      cases hexec : after line ['E', 'X', 'E', 'C', '('] with
      | some text =>
        obtain ⟨t, ht, hsound⟩ := (h text hexec).exists_cut
        simpa [ht] using addExecutable_ne_none hsound (hends t)
      | none => simp

theorem suiteLine_ne_none {suite_info : Option ℕ}
    (h : ∀ text ∈ after line ['S', 'U', 'I', 'T', 'E', '('],
      SoundBracket (fun suite_name => suite_name = [] → suite_info ≠ none) text) :
    suiteLine T g line (r, suite_info) ≠ none := by
  rw [suiteLine]
  cases hsuite : after line ['S', 'U', 'I', 'T', 'E', '('] with
  | none =>
    dsimp only
    cases strstr line ['E', 'N', 'D', '_', 'G', 'R', 'O', 'U', 'P'] with
    | none => simp
    | some _ => simp
  | some text =>
    obtain ⟨t, ht, hsound⟩ := (h text hsuite).exists_cut
    have hne : (suiteNamed T t (r, suite_info)).2 ≠ none := by
      rw [suiteNamed]
      split_ifs with hname
      · exact hsound hname
      · simp
    simpa [ht] using hne

theorem groupLine_ne_none (h : ∀ text ∈ after line ['G', 'R', 'O', 'U', 'P', '('],
    SoundBracket (fun _ => True) text) : groupLine T line r ≠ none := by
  rw [groupLine]
  cases hgroup : after line ['G', 'R', 'O', 'U', 'P', '('] with
  | none => simp
  | some text =>
    obtain ⟨t, ht, -⟩ := (h text hgroup).exists_cut
    simp [ht]

theorem lineStep_ne_none (h : SoundLine T rounds s line)
    (hends : ∀ text, createPathFromEnv T rounds text ≠ none) :
    lineStep T rounds s line ≠ none := by
  obtain ⟨r, place⟩ := s
  rw [lineStep]
  cases htext : textLine T line with
  | none => simp
  | some text =>
    have hsound := h text htext
    cases place with
    | outside => exact groupLine_ne_none hsound
    | inGroup g suite_info => exact suiteLine_ne_none hsound
    | inSuite g p =>
      simp only [ne_eq, Option.map_eq_none_iff]
      exact tcLine_ne_none hsound hends

/-- **What the loops cannot do is among the uses**: they come to the end of a file that they
survive, if the expansions of paths end. -/
theorem addGroupFromFile_ne_none (h : Survives T r file)
    (hends : ∀ text, createPathFromEnv T rounds text ≠ none) :
    addGroupFromFile T rounds r (some file) ≠ none := by
  intro hnone
  have heq := addGroupFromFile_eq T rounds r file
  rw [hnone, Option.map_none, readRest, readLines, eq_comm, Option.map_eq_none_iff] at heq
  obtain ⟨before, line, behind, s, hsplit, hbefore, hline⟩ := exists_of_foldlM_eq_none heq
  have hsound : SoundLine T rounds s line :=
    forall_lineUses.mp (h rounds s line ⟨before, behind, hsplit, hbefore⟩)
  exact lineStep_ne_none hsound hends hline

/-! ## A line without a bracket -/

/-- A libtestbox with room for a line. -/
def wideTestbox : LibTestbox :=
  { plainTestbox with
    TB_STR_LEN := 128
    strLen_gt := Nat.le_of_ble_eq_true rfl }

/-- `GROUP(g`: the null pointer that `strrchr` returns is followed. -/
theorem open_bracket_not_survived :
    128 ≤ wideTestbox.TB_STR_LEN ∧ ¬ Survives wideTestbox .start "GROUP(g\n".toList := by
  refine ⟨le_rfl, fun h => ?_⟩
  have hreads : ComesTo wideTestbox 0 .start "GROUP(g\n".toList (.start, .outside)
      "GROUP(g\n".toList := ⟨[], [], by decide, rfl⟩
  exact h 0 _ _ hreads (.string none) (by decide) rfl

end Dib
