import Dib.Registry.Blocks
import Dib.Registry.Operations
import Dib.Registry.Startup

/-!
# The blocks of paths

`create_path_from_env` returns a block of `replace_string`, or `NULL` where a path is used as it is.
The functions for configuration files free the block when they have used the path;
`add_tc_from_file` does not.

* `createPathIn`, `addExecutableIn`, `addGroupFromFileIn`, `fromConfFileIn`, `startUpIn`: the
  functions from `create_path_from_env` to `main`, with these blocks;
* `Expands`: what is replaced in a path has the length of an `int`, and no `NUL`;
* `leaksOn`, `fileLeaks`, `startLeaks`: the lines `EXEC(..)` whose reference is replaced;
* **`addGroupFromFileIn_grows`**: a group file leaves one block for each of them;
* **`startUpIn_grows`**: start-up leaves those of its group files, and no others.
-/

set_option autoImplicit false

namespace Dib

open Blocks CString Lines Replace

/-! ## The functions -/

section Function

variable (M : Allocator) (T : LibTestbox) (rounds : ℕ)

/-- `create_path_from_env`, which returns a block or `NULL`. -/
def createPathIn (orig_path : List Char) : CharUses (Option ℕ) :=
  match strstr orig_path ['$', '('] with
  | none => pure none
  | some envstart =>
    let env := orig_path.drop envstart
    match strstr env [')'] with
    | none => pure none
    | some envend =>
      match T.getenv ((env.drop 2).take (envend - 2)) with
      | none => pure none
      | some envpath => replaceStringIn M (env.take (envend + 1)) envpath rounds orig_path

/-- The path in a block, or the one that was given. -/
def pathOf (orig_path : List Char) (block : Option (List Char)) : List Char :=
  (block.map cstr).getD orig_path

/-- `EXEC(text)`. -/
def addExecutableIn (suite_info : ℕ) (text : List Char) (r : Registry) : CharUses Registry := do
  let p ← createPathIn M T rounds text
  let block ← read p
  liftM (addExec T suite_info (pathOf text block) r)

/-- A line of a suite: the registry, and whether this was the end of the suite. -/
def tcLineIn (suite_info : ℕ) (line : List Char) (r : Registry) : CharUses (Registry × Bool) :=
  match after line ['D', 'E', 'S', 'C', 'R', '('] with
  | some text => liftM ((cutParen text).map fun descr => (setDescr T r suite_info descr, false))
  | none =>
    match after line ['T', 'C', '('] with
    | some text => liftM ((cutParen text).bind fun text =>
      (addTestFunction T suite_info text r).map (·, false))
    | none =>
      match after line ['E', 'X', 'E', 'C', '('] with
      | some text => do
        let text ← cutParen text
        let r ← addExecutableIn M T rounds suite_info text r
        pure (r, false)
      | none => pure (r, (strstr line ['E', 'N', 'D', '_', 'S', 'U', 'I', 'T', 'E']).isSome)

/-- What the three loops of a group file do with the next line. -/
def lineStepIn (s : FileState) (line : List Char) : CharUses FileState :=
  match textLine T line with
  | none => pure s
  | some line =>
    match s.2 with
    | .outside => liftM (groupLine T line s.1)
    | .inGroup group_info suite_info => liftM (suiteLine T group_info line (s.1, suite_info))
    | .inSuite group_info suite_info => do
      let (r, ended) ← tcLineIn M T rounds suite_info line s.1
      pure (r, if ended then .inGroup group_info (some suite_info)
        else .inSuite group_info suite_info)

/-- `add_group_from_file`; there may be no such file. -/
def addGroupFromFileIn (r : Registry) (file : Option (List Char)) : CharUses (Registry × Bool) :=
  match file with
  | none => pure (r, false)
  | some file => do
    let s ← (chunks T.TB_STR_LEN file).foldlM (lineStepIn M T rounds) (r, .outside)
    pure (s.1, true)

variable {σ : Type} (call : ℕ → List Char → σ → CharUses (σ × Bool))

/-- An entry of a configuration file, as in `callEntry`; the path is freed after the call. -/
def callEntryIn (x : σ × List (List Char × Bool)) (lib_path : List Char) :
    CharUses (σ × List (List Char × Bool)) := do
  let p ← createPathIn M T rounds lib_path
  let block ← read p
  let path := pathOf lib_path block
  let x ← (fun y => (y.1, x.2 ++ [(path, y.2)])) <$> call x.2.length path x.1
  freeIf p
  pure x

/-- The loop over a configuration file; there may be no such file. -/
def fromConfFileIn (size : ℕ) (conf : Option (List Char)) (s : σ) : CharUses σ :=
  match conf with
  | none => pure s
  | some file =>
    Prod.fst <$> (entriesOf T size file).foldlM (callEntryIn M T rounds call) (s, [])

end Function

section Startup

variable (M : Allocator) (H : Host) (rounds : ℕ) (E : Surroundings)

/-- `main`, if it comes to `tb_socket_handling`. -/
def startUpIn (argv : List (List Char)) : CharUses Daemon :=
  match (E.args argv).result, exitStatus E.process (E.args argv).startup.run_as_daemon with
  | .nullArg, _ => failure
  | .returned _, some _ => failure
  | .returned _, none => do
    let libs_conf ← confFile H (E.args argv).startup.testbox_cfg_dir TEST_LIBS_CONF
    let s ← fromConfFileIn M H.testbox rounds
      (fun k path s => liftM (loadEntry H E.answers k path s))
      H.loader.TB_MAX_PATH_LEN (E.conf libs_conf) .start
    let group_conf ← confFile H (E.args argv).startup.testbox_cfg_dir GROUP_FROM_FILE_CONF
    let r ← fromConfFileIn M H.testbox rounds
      (fun k path r => addGroupFromFileIn M H.testbox rounds r (E.files k path))
      H.loader.TB_MAX_PATH_LEN (E.conf group_conf) s.registry
    pure ⟨s.libs, r⟩

end Startup

/-! ## Paths -/

/-- The replacements in a path make texts whose length is an `int`, and without `NUL`. -/
def Expands (T : LibTestbox) (rounds : ℕ) (path : List Char) : Prop :=
  NUL ∉ path ∧ ∀ reference ∈ envReference T path,
    NUL ∉ reference.2 ∧ LengthsFit reference.1 reference.2 path rounds

variable {M : Allocator} {T : LibTestbox} {rounds n : ℕ} {path : List Char}
  {p : Option (List Char)} {β : Type} {y : β} {f : Option (List Char) → CharUses β}

theorem createPathIn_eq (M : Allocator) (T : LibTestbox) (rounds : ℕ) (path : List Char) :
    createPathIn M T rounds path =
      match envReference T path with
      | none => pure none
      | some (reference, envpath) => replaceStringIn M reference envpath rounds path := by
  unfold createPathIn envReference
  cases strstr path ['$', '('] with
  | none => rfl
  | some envstart =>
    dsimp only
    cases strstr (path.drop envstart) [')'] with
    | none => rfl
    | some envend =>
      dsimp only
      cases T.getenv (((path.drop envstart).drop 2).take (envend - 2)) <;> rfl

theorem createPathIn_allocates (hM : ¬ M.Refuses) (hpath : Expands T rounds path)
    (h : createPathFromEnv T rounds path = some p) (href : (envReference T path).isSome) :
    Allocates (createPathIn M T rounds path) fun a => p = some (cstr a) := by
  intro m
  rw [createPathFromEnv_eq] at h
  rw [createPathIn_eq]
  obtain ⟨⟨reference, envpath⟩, hsome⟩ := Option.isSome_iff_exists.mp href
  rw [hsome] at h ⊢
  obtain ⟨result, hresult, rfl⟩ := Option.map_eq_some_iff.mp h
  obtain ⟨⟨u, hu, -⟩, -⟩ := envReference_spec hsome
  obtain ⟨henvpath, hlengths⟩ := hpath.2 _ hsome
  obtain ⟨hiff, hleaves⟩ :=
    replaceStringIn_sim M m (by simp [hu]) hpath.1 henvpath hlengths hresult
  obtain ⟨b, m', hrun⟩ := hiff.mpr (nstrServed_of_not_refuses (mt Allocator.Refuses.of_after hM) 0)
  have hleft := hleaves b m' hrun
  cases b with
  | none => exact absurd hleft.1 hM
  | some b =>
    obtain ⟨a, hm', ha⟩ := hleft
    exact ⟨b, a, m', hrun, hm', congrArg some ha.symm⟩

theorem createPathIn_grows (h : createPathFromEnv T rounds path = some p)
    (href : ¬ (envReference T path).isSome) :
    Grows (createPathIn M T rounds path) none 0 ∧ p = none := by
  rw [Option.not_isSome_iff_eq_none] at href
  rw [createPathFromEnv_eq, href] at h
  rw [createPathIn_eq, href]
  exact ⟨grows_pure none, (Option.some.inj h).symm⟩

theorem grows_keep (hM : ¬ M.Refuses) (hpath : Expands T rounds path)
    (h : createPathFromEnv T rounds path = some p)
    (hf : ∀ block, pathOf path block = p.getD path → Grows (f block) y n) :
    Grows (createPathIn M T rounds path >>= fun b => read b >>= f) y
      (n + if (envReference T path).isSome then 1 else 0) := by
  split_ifs with href
  · refine (createPathIn_allocates hM hpath h href).keep fun a ha => hf (some a) ?_
    rw [ha]
    rfl
  · obtain ⟨hgrows, rfl⟩ := createPathIn_grows (M := M) h href
    have hread : Grows (read none : CharUses (Option (List Char))) none 0 := grows_pure none
    have hall := hgrows.bind (f := fun b => read b >>= f) (hread.bind (hf none rfl))
    simpa using hall

theorem grows_release (hM : ¬ M.Refuses) (hpath : Expands T rounds path)
    (h : createPathFromEnv T rounds path = some p)
    (hf : ∀ block, pathOf path block = p.getD path → Grows (f block) y n) :
    Grows (createPathIn M T rounds path >>= fun b => read b >>= fun block => f block >>= fun y =>
      freeIf b >>= fun _ => pure y) y n := by
  by_cases href : (envReference T path).isSome
  · refine (createPathIn_allocates hM hpath h href).release fun a ha => hf (some a) ?_
    rw [ha]
    rfl
  · obtain ⟨hgrows, rfl⟩ := createPathIn_grows (M := M) h href
    have hread : Grows (read none : CharUses (Option (List Char))) none 0 := grows_pure none
    have hfree : Grows (freeIf none : CharUses Unit) () 0 := grows_pure ()
    have hall := hgrows.bind (f := fun b => read b >>= fun block => f block >>= fun y =>
      freeIf b >>= fun _ => pure y) (hread.bind ((hf none rfl).bind (hfree.bind (grows_pure y))))
    simpa using hall

/-! ## Group files -/

/-- The text of a line `EXEC(text)`, which is none of the lines before it. -/
def execText (line : List Char) : Option (List Char) :=
  match after line ['D', 'E', 'S', 'C', 'R', '('], after line ['T', 'C', '('] with
  | none, none => (after line ['E', 'X', 'E', 'C', '(']).bind cutParen
  | _, _ => none

/-- The blocks that stay after a line of a suite. -/
def lineLeaks (T : LibTestbox) (line : List Char) : ℕ :=
  (execText line).elim 0 fun text => if (envReference T text).isSome then 1 else 0

/-- The blocks that stay after the next line. -/
def leaksOn (T : LibTestbox) (s : FileState) (line : List Char) : ℕ :=
  match s.2 with
  | .inSuite _ _ => (textLine T line).elim 0 (lineLeaks T)
  | _ => 0

/-- The blocks that stay after a group file. -/
def fileLeaks (T : LibTestbox) (rounds : ℕ) (r : Registry) (file : List Char) : ℕ :=
  costs (lineStep T rounds) (leaksOn T) (r, .outside) (chunks T.TB_STR_LEN file)

/-- The paths of a file can be expanded. -/
def FileExpands (T : LibTestbox) (rounds : ℕ) (file : List Char) : Prop :=
  ∀ line ∈ chunks T.TB_STR_LEN file, ∀ text ∈ (textLine T line).bind execText,
    Expands T rounds text

variable {r r' : Registry} {s s' : FileState} {line file text : List Char} {suite_info : ℕ}
  {ended ok : Bool}

theorem addExecutableIn_grows (hM : ¬ M.Refuses) (hpath : Expands T rounds text)
    (h : addExecutable T rounds suite_info text r = some r') :
    Grows (addExecutableIn M T rounds suite_info text r) r'
      (if (envReference T text).isSome then 1 else 0) := by
  obtain ⟨path, hcreate, hexec⟩ := Option.bind_eq_some_iff.mp h
  have hgrows := grows_keep (f := fun block => liftM (addExec T suite_info (pathOf text block) r))
    hM hpath hcreate fun block hblock => grows_defined (by rw [hblock]; exact hexec)
  rw [Nat.zero_add] at hgrows
  exact hgrows

theorem tcLineIn_grows (hM : ¬ M.Refuses)
    (hline : ∀ text ∈ execText line, Expands T rounds text)
    (h : tcLine T rounds suite_info line r = some (r', ended)) :
    Grows (tcLineIn M T rounds suite_info line r) (r', ended) (lineLeaks T line) := by
  unfold tcLine at h
  unfold tcLineIn lineLeaks
  unfold execText at hline ⊢
  cases hdescr : after line ['D', 'E', 'S', 'C', 'R', '('] with
  | some descr =>
    rw [hdescr] at h
    exact grows_defined h
  | none =>
    rw [hdescr] at h hline
    cases htc : after line ['T', 'C', '('] with
    | some tc =>
      rw [htc] at h
      exact grows_defined h
    | none =>
      rw [htc] at h hline
      cases hexec : after line ['E', 'X', 'E', 'C', '('] with
      | none =>
        rw [hexec] at h
        obtain ⟨rfl, rfl⟩ := Prod.mk.inj (Option.some.inj h)
        exact grows_pure _
      | some text =>
        rw [hexec] at h hline
        obtain ⟨text', hcut, h⟩ := Option.bind_eq_some_iff.mp h
        obtain ⟨r₁, hadd, heq⟩ := Option.map_eq_some_iff.mp h
        obtain ⟨rfl, rfl⟩ := Prod.mk.inj heq
        have hgrows : Grows (do
            let text ← cutParen text
            let r ← addExecutableIn M T rounds suite_info text r
            pure (r, false) : CharUses (Registry × Bool)) (r₁, false) _ :=
          (grows_defined hcut).bind
            ((addExecutableIn_grows hM (hline text' hcut) hadd).bind (grows_pure (r₁, false)))
        rw [Nat.zero_add, Nat.add_zero] at hgrows
        dsimp only
        rw [hcut] at hgrows
        rw [Option.bind_some, hcut, Option.elim_some]
        exact hgrows

theorem lineStepIn_grows (hM : ¬ M.Refuses)
    (hline : ∀ text ∈ (textLine T line).bind execText, Expands T rounds text)
    (h : lineStep T rounds s line = some s') :
    Grows (lineStepIn M T rounds s line) s' (leaksOn T s line) := by
  obtain ⟨r, place⟩ := s
  unfold lineStep at h
  unfold lineStepIn leaksOn
  cases htext : textLine T line with
  | none =>
    rw [htext] at h
    obtain rfl := Option.some.inj h
    cases place <;> exact grows_pure _
  | some l =>
    rw [htext] at h hline
    cases place with
    | outside => exact grows_defined h
    | inGroup g suite_info => exact grows_defined h
    | inSuite g suite_info =>
      obtain ⟨⟨r₁, ended⟩, htc, rfl⟩ := Option.map_eq_some_iff.mp h
      exact (tcLineIn_grows hM hline htc).bind (f := fun x => pure (x.1, if x.2 then
        Place.inGroup g (some suite_info) else .inSuite g suite_info)) (grows_pure _)

/-- **A group file** leaves one block for each of its executables whose reference is replaced. -/
theorem addGroupFromFileIn_grows {file : Option (List Char)} (hM : ¬ M.Refuses)
    (hfile : ∀ f ∈ file, FileExpands T rounds f)
    (h : addGroupFromFile T rounds r file = some (r', ok)) :
    Grows (addGroupFromFileIn M T rounds r file) (r', ok)
      (file.elim 0 (fileLeaks T rounds r)) := by
  cases file with
  | none =>
    obtain ⟨rfl, rfl⟩ := Prod.mk.inj (Option.some.inj h)
    exact grows_pure _
  | some file =>
    obtain rfl := ok_addGroupFromFile h
    have hread := addGroupFromFile_eq T rounds r file
    rw [h, readRest, readLines] at hread
    obtain ⟨s, hs, rfl⟩ := Option.map_eq_some_iff.mp hread.symm
    have hloop : Grows ((chunks T.TB_STR_LEN file).foldlM (lineStepIn M T rounds) (r, .outside)) s
        (fileLeaks T rounds r file) :=
      grows_foldlM (fun s line hmem s' => lineStepIn_grows hM (hfile file rfl line hmem)) hs
    exact hloop.bind (f := fun s => pure (s.1, true)) (grows_pure (s.1, true))

/-! ## Configuration files -/

section Conf

variable {σ : Type} {call : ℕ → List Char → σ → Option (σ × Bool)}
  {callIn : ℕ → List Char → σ → CharUses (σ × Bool)} {cost : ℕ → List Char → σ → ℕ}
  {x x' : σ × List (List Char × Bool)} {conf : Option (List Char)} {size : ℕ} {lib_path : List Char}
  {st st' : σ}

/-- The blocks that stay after the call for an entry. -/
def entryCost (T : LibTestbox) (rounds : ℕ) (cost : ℕ → List Char → σ → ℕ)
    (x : σ × List (List Char × Bool)) (lib_path : List Char) : ℕ :=
  (confPath T rounds lib_path).elim 0 fun path => cost x.2.length path x.1

/-- The blocks that stay after the calls for a file. -/
def confCosts (T : LibTestbox) (rounds : ℕ) (call : ℕ → List Char → σ → Option (σ × Bool))
    (cost : ℕ → List Char → σ → ℕ) (size : ℕ) (conf : Option (List Char)) (s : σ) : ℕ :=
  conf.elim 0 fun file =>
    costs (callEntry T rounds call) (entryCost T rounds cost) (s, []) (entriesOf T size file)

theorem confCosts_zero (call : ℕ → List Char → σ → Option (σ × Bool)) (size : ℕ)
    (conf : Option (List Char)) (s : σ) :
    confCosts T rounds call (fun _ _ _ => 0) size conf s = 0 := by
  cases conf with
  | none => rfl
  | some file =>
    refine costs_eq_zero _ (fun x path => ?_) _ _
    rw [entryCost]
    cases confPath T rounds path <;> rfl

theorem callEntryIn_grows (hM : ¬ M.Refuses) (hpath : Expands T rounds lib_path)
    (hcall : ∀ k path s s' ok, call k path s = some (s', ok) →
      Grows (callIn k path s) (s', ok) (cost k path s))
    (h : callEntry T rounds call x lib_path = some x') :
    Grows (callEntryIn M T rounds callIn x lib_path) x' (entryCost T rounds cost x lib_path) := by
  obtain ⟨path, hconf, h⟩ := Option.bind_eq_some_iff.mp h
  obtain ⟨⟨s, ok⟩, hs, rfl⟩ := Option.map_eq_some_iff.mp h
  rw [entryCost, hconf, Option.elim_some]
  obtain ⟨p, hcreate, rfl⟩ := Option.map_eq_some_iff.mp hconf
  refine grows_release hM hpath hcreate fun block hblock => ?_
  rw [hblock]
  exact (hcall _ _ _ _ _ hs).map _

theorem fromConfFileIn_grows (hM : ¬ M.Refuses)
    (hconf : ∀ file ∈ conf, ∀ path ∈ entriesOf T size file, Expands T rounds path)
    (hcall : ∀ k path s s' ok, call k path s = some (s', ok) →
      Grows (callIn k path s) (s', ok) (cost k path s)) {set : Bool → Bool → Bool}
    (hsize : 1 < size)
    (h : (fromConfFile T rounds call set size conf st).map (·.state) = some st') :
    Grows (fromConfFileIn M T rounds callIn size conf st) st'
      (confCosts T rounds call cost size conf st) := by
  cases conf with
  | none =>
    obtain rfl := Option.some.inj h
    exact grows_pure _
  | some file =>
    rw [fromConfFile_eq hsize] at h
    obtain ⟨run, hrun, rfl⟩ := Option.map_eq_some_iff.mp h
    obtain ⟨x, hx, rfl⟩ := Option.map_eq_some_iff.mp hrun
    have hloop : Grows ((entriesOf T size file).foldlM (callEntryIn M T rounds callIn) (st, [])) x
        (confCosts T rounds call cost size (some file) st) :=
      grows_foldlM (fun x path hmem x' => callEntryIn_grows hM (hconf file rfl path hmem) hcall) hx
    exact hloop.map Prod.fst

end Conf

/-! ## Start-up -/

section Startup

variable {H : Host} {E : Surroundings} {argv : List (List Char)} {d : Daemon}

/-- All paths in the files of start-up can be expanded. -/
structure Surroundings.Expands (H : Host) (rounds : ℕ) (E : Surroundings) : Prop where
  conf : ∀ path, ∀ file ∈ E.conf path, ∀ entry ∈ entriesOf H.testbox H.loader.TB_MAX_PATH_LEN file,
    Dib.Expands H.testbox rounds entry
  files : ∀ k path, ∀ file ∈ E.files k path, FileExpands H.testbox rounds file

/-- The blocks that stay after the group files of start-up. -/
def startLeaks (H : Host) (rounds : ℕ) (E : Surroundings) (argv : List (List Char)) : ℕ :=
  let testbox_cfg_dir := (E.args argv).startup.testbox_cfg_dir
  match loadLibraries H rounds E testbox_cfg_dir .start,
    confFile H testbox_cfg_dir GROUP_FROM_FILE_CONF with
  | some s, some group_conf =>
    confCosts H.testbox rounds (groupEntry H rounds E.files)
      (fun k path r => (E.files k path).elim 0 (fileLeaks H.testbox rounds r))
      H.loader.TB_MAX_PATH_LEN (E.conf group_conf) s.registry
  | _, _ => 0

/-- **Start-up**, with memory for all blocks, frees the paths of libraries and of group files, and
leaves one block for each executable whose reference is replaced. -/
theorem startUpIn_grows (hM : ¬ M.Refuses) (hsize : 1 < H.loader.TB_MAX_PATH_LEN)
    (hE : E.Expands H rounds) (h : startUp H rounds E argv = some d) :
    Grows (startUpIn M H rounds E argv) d (startLeaks H rounds E argv) := by
  unfold startUp at h
  unfold startUpIn
  cases hargs : (E.args argv).result with
  | nullArg =>
    rw [hargs] at h
    cases h
  | returned status =>
    rw [hargs] at h
    cases hexit : exitStatus E.process (E.args argv).startup.run_as_daemon with
    | some code =>
      rw [hexit] at h
      cases h
    | none =>
      rw [hexit] at h
      obtain ⟨s, hload, h⟩ := Option.bind_eq_some_iff.mp h
      obtain ⟨r, hgroups, rfl⟩ := Option.map_eq_some_iff.mp h
      obtain ⟨libs_conf, hlibs_conf, hlibs⟩ := Option.bind_eq_some_iff.mp hload
      obtain ⟨group_conf, hgroup_conf, hgroups⟩ := Option.bind_eq_some_iff.mp hgroups
      have hlibsIn : Grows (fromConfFileIn M H.testbox rounds
          (fun k path s => liftM (loadEntry H E.answers k path s)) H.loader.TB_MAX_PATH_LEN
          (E.conf libs_conf) .start) s 0 := by
        rw [← confCosts_zero (loadEntry H E.answers)]
        exact fromConfFileIn_grows hM (hE.conf libs_conf)
          (fun k path s s' ok hcall => grows_defined hcall) hsize hlibs
      have hgroupsIn := fromConfFileIn_grows (M := M) (T := H.testbox) hM (hE.conf group_conf)
        (fun k path r r' ok hcall => addGroupFromFileIn_grows hM (hE.files k path) hcall) hsize
        hgroups
      have hleaks : startLeaks H rounds E argv = confCosts H.testbox rounds
          (groupEntry H rounds E.files)
          (fun k path r => (E.files k path).elim 0 (fileLeaks H.testbox rounds r))
          H.loader.TB_MAX_PATH_LEN (E.conf group_conf) s.registry := by
        simp only [startLeaks, hload, hgroup_conf]
      rw [hleaks]
      refine (grows_defined hlibs_conf).bind_zero (hlibsIn.bind_zero ?_)
      exact (grows_defined hgroup_conf).bind_zero
        (hgroupsIn.bind (f := fun r => pure (Daemon.mk s.libs r)) (grows_pure _))

/-! ## A run -/

/-- `$D` is set. -/
def envHost : Host :=
  { oneLibrary with testbox :=
    { plainTestbox with getenv := fun name => if name = ['D'] then some "/b".toList else none } }

/-- One group file, with one executable. -/
def execConf : Surroundings :=
  { oneConf with
    conf := fun path => if path = "/etc/group_from_file.conf".toList then some ['g', '\n'] else none
    files := fun _ _ => some "GROUP(g)\nSUITE(s)\nEXEC($(D)/x)\n".toList }

theorem expands_execConf : execConf.Expands envHost 2 where
  conf path file hfile := by
    obtain ⟨-, ⟨⟩⟩ := Option.ite_none_right_eq_some.mp hfile
    unfold Dib.Expands LengthsFit
    decide +kernel
  files k path file hfile := by
    obtain rfl := Option.some.inj hfile
    unfold FileExpands Dib.Expands LengthsFit
    decide +kernel

/-- One block stays. -/
theorem startUpIn_grows_exec :
    ∃ d, Grows (startUpIn plainAllocator envHost 2 execConf etcArgv) d 1 := by
  have hsome : (startUp envHost 2 execConf etcArgv).isSome = true := by decide +kernel
  have hleaks : startLeaks envHost 2 execConf etcArgv = 1 := by decide +kernel
  obtain ⟨d, hd⟩ := Option.isSome_iff_exists.mp hsome
  refine ⟨d, ?_⟩
  rw [← hleaks]
  exact startUpIn_grows (by rintro ⟨k, size, ⟨⟩⟩) (by decide) expands_execConf hd

end Startup

end Dib
