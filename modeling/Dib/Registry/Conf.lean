import Dib.Registry.Daemon

/-!
# Configuration files

`find_libs_from_conf_file` and `find_groups_from_conf_file` are one loop with different calls.

* `confEntry`, `confPath`: the entry of a line, and its path;
* `callFor`, `confBody`, `fromConfFile`: the loop, with the calls that it has made;
* `loadTestcaseFromLib`, `findLibsFromConfFile`, `findGroupsFromConfFile`: the two functions;
* `entriesOf`, `callEach`: the entries of a file, and the calls for them one after the other;
* **`fromConfFile_eq`**: the loop makes these calls, and `statusAfter` them is what it returns;
* `ReturnsOk`, `AllSucceed`, **`conf_reports_iff`**: the loop over libraries returns the last
  status, and the one over groups none.
-/

set_option autoImplicit false

namespace Dib

open CString Lines

/-! ## The loops -/

section Model

variable (T : LibTestbox) (rounds : ℕ)

/-- What a line asks for: nothing if it is a comment or empty. -/
def confEntry (line : List Char) : Option (List Char) :=
  let lib_path := T.strip_newline line
  if lib_path.head? = some '#' ∨ lib_path.length = 0 then none else some lib_path

/-- The path for an entry; `none` if `create_path_from_env` does not return. -/
def confPath (lib_path : List Char) : Option (List Char) :=
  (createPathFromEnv T rounds lib_path).map fun path => path.getD lib_path

/-- What a loop keeps: the state of the daemon, the paths it has called the function for, each with
whether that returned `TB_OK`, and whether `status` is `TB_OK`. -/
structure ConfRun (σ : Type) where
  state : σ
  calls : List (List Char × Bool)
  status : Bool
  deriving DecidableEq, Repr

variable {σ : Type} (call : ℕ → List Char → σ → Option (σ × Bool)) (set : Bool → Bool → Bool)

/-- What the two loops do with an entry: they call a function, which is told how many calls there
were before, and set `status` differently. -/
def callFor (s : ConfRun σ) (lib_path : List Char) : Option (ConfRun σ) :=
  match confPath T rounds lib_path with
  | none => none
  | some path =>
    match call s.calls.length path s.state with
    | none => none
    | some (state, ok) => some ⟨state, s.calls ++ [(path, ok)], set s.status ok⟩

/-- The body of the two loops. -/
def confBody (line : List Char) (s : ConfRun σ) (file : List Char) :
    Option (Round (ConfRun σ) (ConfRun σ)) :=
  match confEntry T line with
  | none => some (.next s file)
  | some lib_path => (callFor T rounds call set s lib_path).map fun s => .next s file

/-- The loop over a configuration file; there may be no such file. -/
def fromConfFile (size : ℕ) (conf : Option (List Char)) (s : σ) : Option (ConfRun σ) :=
  match conf with
  | none => some ⟨s, [], false⟩
  | some file => loop size (confBody T rounds call set) (fun s _ => s) ⟨s, [], true⟩ file

end Model

/-- `load_testcase_from_lib`; its status counts what is refused. -/
def loadTestcaseFromLib (H : Host) (lib : List Char) (o : LoadAnswers) (testcase_info : TestcaseNod)
    (s : Daemon) : Option (Daemon × Bool) :=
  match loadLib H.loader lib o s.libs with
  | none => none
  | some (libs, false) => some (⟨libs, s.registry⟩, false)
  | some (libs, true) =>
    let st := registerLib H.testbox (H.loader.handle lib) (H.groupsOf lib) testcase_info s.registry
    some (⟨libs, st.registry⟩, st.status = 0)

section Functions

variable (H : Host) (rounds : ℕ)

/-- The loads of `find_libs_from_conf_file`: the system's answers to each, and what is in its
`testcase_info` before. -/
def loadEntry (answers : ℕ → LoadAnswers × TestcaseNod) (k : ℕ) (path : List Char) (s : Daemon) :
    Option (Daemon × Bool) :=
  loadTestcaseFromLib H path (answers k).1 (answers k).2 s

/-- The group files of `find_groups_from_conf_file`, with what each call finds at its path. -/
def groupEntry (files : ℕ → List Char → Option (List Char)) (k : ℕ) (path : List Char)
    (r : Registry) : Option (Registry × Bool) :=
  addGroupFromFile H.testbox rounds r (files k path)

/-- `find_libs_from_conf_file` sets `status` to the last result. -/
def findLibsFromConfFile (answers : ℕ → LoadAnswers × TestcaseNod) (conf : Option (List Char))
    (s : Daemon) : Option (ConfRun Daemon) :=
  fromConfFile H.testbox rounds (loadEntry H answers) (fun _ ok => ok) H.loader.TB_MAX_PATH_LEN
    conf s

/-- `find_groups_from_conf_file` looks at the results and leaves `status` as it is. -/
def findGroupsFromConfFile (files : ℕ → List Char → Option (List Char))
    (conf : Option (List Char)) (r : Registry) : Option (ConfRun Registry) :=
  fromConfFile H.testbox rounds (groupEntry H rounds files) (fun status _ => status)
    H.loader.TB_MAX_PATH_LEN conf r

end Functions

theorem step_loadTestcaseFromLib {H : Host} {lib : List Char} {o : LoadAnswers} {info : TestcaseNod}
    {s s' : Daemon} {ok : Bool} (h : loadTestcaseFromLib H lib o info s = some (s', ok)) :
    Daemon.Step H s (.load lib o info) s' := by
  unfold loadTestcaseFromLib at h
  split at h
  · cases h
  · next hl =>
    obtain ⟨rfl, -⟩ := Prod.mk.inj (Option.some.inj h)
    exact .loadFails lib o info hl
  · next hl =>
    obtain ⟨rfl, -⟩ := Prod.mk.inj (Option.some.inj h)
    exact .load lib o info hl

/-! ## The calls -/

section Calls

variable (T : LibTestbox) (rounds : ℕ)

/-- The entries of a file, as the loop reads them. -/
def entriesOf (size : ℕ) (file : List Char) : List (List Char) :=
  (chunks size file).filterMap (confEntry T)

variable {σ : Type} (call : ℕ → List Char → σ → Option (σ × Bool))

/-- The call for an entry. -/
def callEntry (x : σ × List (List Char × Bool)) (lib_path : List Char) :
    Option (σ × List (List Char × Bool)) :=
  (confPath T rounds lib_path).bind fun path =>
    (call x.2.length path x.1).map fun (s, ok) => (s, x.2 ++ [(path, ok)])

/-- **The calls for these entries**, each after the one before, with their results. -/
def callEach (entries : List (List Char)) (x : σ × List (List Char × Bool)) :
    Option (σ × List (List Char × Bool)) :=
  entries.foldlM (callEntry T rounds call) x

end Calls

/-- What the calls leave of `status`. -/
def statusAfter (set : Bool → Bool → Bool) (calls : List (List Char × Bool)) : Bool :=
  calls.foldl (fun status c => set status c.2) true

variable {T : LibTestbox} {rounds size : ℕ} {σ : Type} {file : List Char}
  {call : ℕ → List Char → σ → Option (σ × Bool)} {set : Bool → Bool → Bool} {s : σ}

theorem statusAfter_concat (set : Bool → Bool → Bool) (calls : List (List Char × Bool))
    (c : List Char × Bool) :
    statusAfter set (calls ++ [c]) = set (statusAfter set calls) c.2 := by
  rw [statusAfter, List.foldl_append]
  rfl

theorem statusAfter_last (calls : List (List Char × Bool)) :
    statusAfter (fun _ ok => ok) calls = (calls.getLast?.map Prod.snd).getD true := by
  induction calls using List.reverseRecOn with
  | nil => rfl
  | append_singleton calls c ih => rw [statusAfter_concat, List.getLast?_concat]; rfl

theorem statusAfter_const (calls : List (List Char × Bool)) :
    statusAfter (fun status _ => status) calls = true := by
  induction calls using List.reverseRecOn with
  | nil => rfl
  | append_singleton calls c ih => rw [statusAfter_concat, ih]

/-- What the loop keeps after these calls. -/
def ConfRun.after (set : Bool → Bool → Bool) (x : σ × List (List Char × Bool)) : ConfRun σ :=
  ⟨x.1, x.2, statusAfter set x.2⟩

theorem callFor_after (x : σ × List (List Char × Bool)) (lib_path : List Char) :
    callFor T rounds call set (.after set x) lib_path =
      (callEntry T rounds call x lib_path).map (.after set) := by
  rw [callFor, callEntry]
  cases confPath T rounds lib_path with
  | none => rfl
  | some path =>
    dsimp only [ConfRun.after, Option.bind_some]
    cases call x.2.length path x.1 with
    | none => rfl
    | some y => simp only [Option.map_some, ConfRun.after, statusAfter_concat]

theorem foldlM_callFor (entries : List (List Char)) (x : σ × List (List Char × Bool)) :
    entries.foldlM (callFor T rounds call set) (.after set x) =
      (callEach T rounds call entries x).map (.after set) := by
  rw [callEach]
  induction entries generalizing x with
  | nil => rfl
  | cons lib_path entries ih =>
    rw [List.foldlM_cons, List.foldlM_cons, callFor_after]
    cases callEntry T rounds call x lib_path with
    | none => rfl
    | some x' => exact ih x'

theorem foldlM_confEntry (lines : List (List Char)) (s : ConfRun σ) :
    lines.foldlM (fun s line => (confEntry T line).elim (some s) (callFor T rounds call set s)) s =
      (lines.filterMap (confEntry T)).foldlM (callFor T rounds call set) s := by
  induction lines generalizing s with
  | nil => rfl
  | cons line lines ih =>
    rw [List.foldlM_cons]
    cases hline : confEntry T line with
    | none =>
      rw [List.filterMap_cons_none hline]
      exact ih s
    | some lib_path =>
      rw [List.filterMap_cons_some hline, List.foldlM_cons]
      dsimp only [Option.elim_some]
      congr 1
      funext s'
      exact ih s'

/-- **The loop over a file** makes the calls for its entries. -/
theorem fromConfFile_eq (hsize : 1 < size) (file : List Char) (s : σ) :
    fromConfFile T rounds call set size (some file) s =
      (callEach T rounds call (entriesOf T size file) (s, [])).map (.after set) := by
  have hbody : ∀ line s file, confBody T rounds call set line s file =
      ((confEntry T line).elim (some s) (callFor T rounds call set s)).map
        fun s => .next s file := by
    intro line s file
    rw [confBody]
    cases confEntry T line with
    | none => rfl
    | some lib_path => rfl
  rw [fromConfFile, loop_eq_foldlM hsize hbody, foldlM_confEntry, Option.map_id_fun', ← entriesOf,
    ← foldlM_callFor]
  rfl

/-! ## What is reported -/

/-- The calls for a configuration file, if it can be opened. -/
def callsFor (T : LibTestbox) (rounds : ℕ) (call : ℕ → List Char → σ → Option (σ × Bool))
    (size : ℕ) (conf : Option (List Char)) (s : σ) : Option (σ × List (List Char × Bool)) :=
  conf.bind fun file => callEach T rounds call (entriesOf T size file) (s, [])

/-- The file can be opened, and every call for its entries returns `TB_OK`. -/
def AllSucceed (calls : Option (σ × List (List Char × Bool))) : Prop :=
  ∃ x ∈ calls, ∀ c ∈ x.2, c.2 = true

def ReturnsOk (run : Option (ConfRun σ)) : Prop := ∃ e ∈ run, e.status = true

theorem returnsOk_iff (hsize : 1 < size) (conf : Option (List Char)) (s : σ) :
    ReturnsOk (fromConfFile T rounds call set size conf s) ↔
      ∃ x ∈ callsFor T rounds call size conf s, statusAfter set x.2 = true := by
  cases conf with
  | none =>
    constructor
    · rintro ⟨e, ⟨⟩, h⟩
      exact absurd h Bool.false_ne_true
    · rintro ⟨x, ⟨⟩, -⟩
  | some file =>
    rw [fromConfFile_eq hsize]
    constructor
    · rintro ⟨e, he, hok⟩
      obtain ⟨x, hx, rfl⟩ := Option.map_eq_some_iff.mp he
      exact ⟨x, hx, hok⟩
    · rintro ⟨x, hx, hok⟩
      exact ⟨.after set x, Option.map_eq_some_iff.mpr ⟨x, hx, rfl⟩, hok⟩

theorem reports_iff (hsize : 1 < size) (conf : Option (List Char)) (s : σ) :
    (ReturnsOk (fromConfFile T rounds call set size conf s) ↔
        AllSucceed (callsFor T rounds call size conf s)) ↔
      ∀ x ∈ callsFor T rounds call size conf s,
        (statusAfter set x.2 = true ↔ ∀ c ∈ x.2, c.2 = true) := by
  rw [returnsOk_iff hsize, AllSucceed]
  cases callsFor T rounds call size conf s with
  | none => simp
  | some x => simp

theorem statusAfter_last_iff (calls : List (List Char × Bool)) :
    (statusAfter (fun _ ok => ok) calls = true ↔ ∀ c ∈ calls, c.2 = true) ↔
      (∀ c ∈ calls, c.2 = true) ∨ ∃ c ∈ calls.getLast?, c.2 = false := by
  rw [statusAfter_last]
  induction calls using List.reverseRecOn with
  | nil => simp
  | append_singleton calls c =>
    rw [List.getLast?_concat]
    obtain ⟨path, ok⟩ := c
    cases ok with
    | true => simp
    | false =>
      have hfail : ¬ ∀ c ∈ calls ++ [(path, false)], c.2 = true := fun h =>
        Bool.false_ne_true (h _ List.mem_concat_self)
      exact iff_of_true (iff_of_false Bool.false_ne_true hfail) (.inr ⟨_, rfl, rfl⟩)

/-- **Failures at start-up.** Loads are reported as they should be if and only if all of them
succeed or the last one fails; group files, if and only if all of them can be opened. -/
theorem conf_reports_iff (H : Host) (rounds : ℕ) (answers : ℕ → LoadAnswers × TestcaseNod)
    (files : ℕ → List Char → Option (List Char)) (hsize : 1 < H.loader.TB_MAX_PATH_LEN)
    (conf : Option (List Char)) (s : Daemon) :
    ((ReturnsOk (findLibsFromConfFile H rounds answers conf s) ↔ AllSucceed
          (callsFor H.testbox rounds (loadEntry H answers) H.loader.TB_MAX_PATH_LEN conf s)) ↔
      ∀ x ∈ callsFor H.testbox rounds (loadEntry H answers) H.loader.TB_MAX_PATH_LEN conf s,
        (∀ c ∈ x.2, c.2 = true) ∨ ∃ c ∈ x.2.getLast?, c.2 = false) ∧
    ((ReturnsOk (findGroupsFromConfFile H rounds files conf s.registry) ↔ AllSucceed
          (callsFor H.testbox rounds (groupEntry H rounds files) H.loader.TB_MAX_PATH_LEN conf
            s.registry)) ↔
      ∀ x ∈ callsFor H.testbox rounds (groupEntry H rounds files) H.loader.TB_MAX_PATH_LEN conf
        s.registry, ∀ c ∈ x.2, c.2 = true) := by
  constructor
  · rw [findLibsFromConfFile, reports_iff hsize]
    exact forall₂_congr fun x _ => statusAfter_last_iff x.2
  · rw [findGroupsFromConfFile, reports_iff hsize]
    simp only [statusAfter_const, true_iff]

/-- The two libraries `a` and `b`, or the group files of these names. -/
def twoEntries : List Char := ['a', '\n', 'b', '\n']

/-- One of the calls of `dlopen` fails. -/
def failsAt (n k : ℕ) : LoadAnswers × TestcaseNod := (⟨true, k ≠ n, true⟩, plainTestbox.zeroInfo)

/-- The failure of the last library is reported. -/
theorem conf_reports_last : ReturnsOk (findLibsFromConfFile oneLibrary 0 (failsAt 1)
      (some twoEntries) .start) ↔
    AllSucceed (callsFor plainTestbox 0 (loadEntry oneLibrary (failsAt 1)) 256 (some twoEntries)
      .start) := by
  refine (conf_reports_iff oneLibrary 0 (failsAt 1) (fun _ _ => none) (by decide) _ _).1.mpr ?_
  rintro x ⟨⟩
  exact .inr ⟨(['b'], false), rfl, rfl⟩

/-- That of the first library is not, and neither are those of the group files. -/
theorem conf_first_failure_swallowed :
    ¬ (ReturnsOk (findLibsFromConfFile oneLibrary 0 (failsAt 0) (some twoEntries) .start) ↔
      AllSucceed (callsFor plainTestbox 0 (loadEntry oneLibrary (failsAt 0)) 256 (some twoEntries)
        .start)) ∧
    ¬ (ReturnsOk (findGroupsFromConfFile oneLibrary 0 (fun _ _ => none) (some twoEntries) .start) ↔
      AllSucceed (callsFor plainTestbox 0 (groupEntry oneLibrary 0 fun _ _ => none) 256
        (some twoEntries) .start)) := by
  constructor
  · intro h
    obtain ⟨x, ⟨⟩, hall⟩ := h.mp ⟨_, rfl, rfl⟩
    exact absurd (hall (['a'], false) List.mem_cons_self) Bool.false_ne_true
  · intro h
    obtain ⟨x, ⟨⟩, hall⟩ := h.mp ⟨_, rfl, rfl⟩
    exact absurd (hall (['a'], false) List.mem_cons_self) Bool.false_ne_true

end Dib
