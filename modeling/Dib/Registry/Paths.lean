import Dib.Lib.Buffer
import Dib.Registry.Conf
import Dib.Registry.Expansion
import Mathlib.Data.List.DropRight

/-!
# Paths in arrays

The paths of the two configuration files and the references to the environment are put together in
arrays of fixed sizes.

* `basename`, `confFile`: the path of a configuration file, as `load_libraries` and
  `load_group_from_file` build it, if no write leaves the array and the variable is set;
* `confParts`: its directory and its name; **`confFile_eq_some_iff`**: it is built if both fit;
* `createPathFromEnvIn`: `create_path_from_env` with its arrays; `ReferenceFits`: the first
  reference of a path is shorter than they are;
* **`createPathFromEnvIn_eq_some_iff`**: only then it stays in them, and it is `createPathFromEnv`.
-/

set_option autoImplicit false

namespace Dib

open CString Lines

/-! ## Configuration files -/

def TEST_LIBS_CONF : List Char := "/bin/test_libs.conf".toList
def GROUP_FROM_FILE_CONF : List Char := "/bin/group_from_file.conf".toList
def TESTBOXDIR : List Char := "TESTBOXDIR".toList

/-- `basename`: what is behind the last slash, apart from those at the end. -/
def basename (path : List Char) : List Char :=
  if path = [] then ['.']
  else if path.rdropWhile (· = '/') = [] then ['/']
  else (path.rdropWhile (· = '/')).rtakeWhile (· ≠ '/')

section Model

variable (H : Host)

/-- The path that is built for `conf`, in an array of zeros. -/
def confFile (testbox_cfg_dir : Option (List Char)) (conf : List Char) : Option (List Char) :=
  let n := H.loader.TB_MAX_PATH_LEN - 1
  let path := List.replicate H.loader.TB_MAX_PATH_LEN NUL
  match testbox_cfg_dir with
  | some dir =>
    (strcat (strncpy path dir n) ['/', NUL]).bind fun path =>
      (strncat path (basename conf) n).map cstr
  | none =>
    -- `strncpy` reads its source also when `getenv` has returned `NULL`
    match H.testbox.getenv TESTBOXDIR with
    | none => none
    | some testboxdir => (strncat (strncpy path testboxdir n) conf n).map cstr

/-- The directory of a configuration file, and what is put behind it. -/
def confParts (testbox_cfg_dir : Option (List Char)) (conf : List Char) :
    Option (List Char × List Char) :=
  match testbox_cfg_dir with
  | some dir => some (dir, '/' :: basename conf)
  | none => (H.testbox.getenv TESTBOXDIR).map fun dir => (dir, conf)

end Model

variable {H : Host} {conf dir rest p : List Char}

theorem conf_constants (h : conf = TEST_LIBS_CONF ∨ conf = GROUP_FROM_FILE_CONF) :
    NUL ∉ conf ∧ NUL ∉ basename conf ∧ 0 < conf.length ∧
      conf.length ≤ GROUP_FROM_FILE_CONF.length ∧ (basename conf).length ≤ conf.length := by
  rcases h with rfl | rfl <;> decide

theorem take_append_iff {N : ℕ} (hrest : 0 < rest.length) :
    ((dir.take (N - 1)).length + rest.length < N ∧ p = dir.take (N - 1) ++ rest) ↔
      dir.length + rest.length < N ∧ p = dir ++ rest := by
  by_cases hfit : dir.length ≤ N - 1
  · rw [List.take_of_length_le hfit]
  · refine iff_of_false (fun h => ?_) fun h => ?_
    · have hlen := h.1
      rw [List.length_take] at hlen
      omega
    · have hlen := h.1
      omega

theorem strcat_slash_iff {N n : ℕ} {a base : List Char} (hdir : Text N dir a) (hbase : NUL ∉ base)
    (hn : base.length ≤ n) :
    ((strcat a ['/', NUL]).bind fun path => (strncat path base n).map cstr) = some p ↔
      dir.length + ('/' :: base).length < N ∧ p = dir ++ '/' :: base := by
  have hslash : Text 2 ['/'] ['/', NUL] := Text.of_append (s := ['/']) (by decide) []
  have hparts : dir ++ ['/'] ++ base = dir ++ '/' :: base := by simp
  have hlen : (dir ++ ['/']).length + base.length = dir.length + ('/' :: base).length := by
    simp
    omega
  rw [← hparts, ← hlen]
  constructor
  · intro h
    obtain ⟨path, hpath, h⟩ := Option.bind_eq_some_iff.mp h
    exact (strncat_cstr_iff (text_of_strcat hdir hslash hpath).2 hbase hn).mp h
  · rintro ⟨hfit, rfl⟩
    obtain ⟨path, hpath, htext⟩ := strcat_text hdir hslash (by
      rw [List.length_append] at hfit
      omega)
    rw [hpath, Option.bind_some, strncat_cstr_iff htext hbase hn]
    exact ⟨hfit, rfl⟩

/-- **The path of a configuration file** is its directory and its name, if they fit into the array
with the terminator; otherwise `strcat` or `strncat` writes past its end, whatever their bound. -/
theorem confFile_eq_some_iff {testbox_cfg_dir : Option (List Char)}
    (hconf : conf = TEST_LIBS_CONF ∨ conf = GROUP_FROM_FILE_CONF)
    (hN : GROUP_FROM_FILE_CONF.length < H.loader.TB_MAX_PATH_LEN)
    (hdir : ∀ dir ∈ testbox_cfg_dir, NUL ∉ dir)
    (hgetenv : ∀ dir ∈ H.testbox.getenv TESTBOXDIR, NUL ∉ dir) :
    confFile H testbox_cfg_dir conf = some p ↔ ∃ dir rest,
      confParts H testbox_cfg_dir conf = some (dir, rest) ∧
        dir.length + rest.length < H.loader.TB_MAX_PATH_LEN ∧ p = dir ++ rest := by
  obtain ⟨hnul, hbase, hpos, hle, hble⟩ := conf_constants hconf
  have hzeros : ∀ {dir : List Char}, NUL ∉ dir → Text H.loader.TB_MAX_PATH_LEN
      (dir.take (H.loader.TB_MAX_PATH_LEN - 1))
      (strncpy (List.replicate H.loader.TB_MAX_PATH_LEN NUL) dir (H.loader.TB_MAX_PATH_LEN - 1)) :=
    fun h => strncpy_zeros_text h (by omega)
  cases testbox_cfg_dir with
  | some dir =>
    simp only [confFile, confParts, Option.some.injEq, Prod.mk.injEq, exists_and_left,
      exists_eq_left', and_assoc]
    rw [strcat_slash_iff (hzeros (hdir dir rfl)) hbase (by omega), take_append_iff (by simp)]
  | none =>
    simp only [confFile, confParts]
    cases hget : H.testbox.getenv TESTBOXDIR with
    | none => simp
    | some dir =>
      simp only [Option.map_some, Option.some.injEq, Prod.mk.injEq, exists_and_left,
        exists_eq_left', and_assoc]
      rw [strncat_cstr_iff (hzeros (hgetenv dir hget)) hnul (by omega), take_append_iff hpos]

/-- A directory of four characters has room in 256. -/
theorem confFile_etc : confFile oneLibrary (some "/etc".toList) TEST_LIBS_CONF =
    some "/etc/test_libs.conf".toList := by
  refine (confFile_eq_some_iff (.inl rfl) (by decide) ?_ ?_).mpr
    ⟨"/etc".toList, "/test_libs.conf".toList, by decide, by decide, by decide⟩
  · rintro _ ⟨⟩
    decide
  · rintro _ ⟨⟩

/-! ## References -/

/-- The end of `create_path_from_env`, with the strings in its two arrays. -/
def expandWith (T : LibTestbox) (rounds : ℕ) (orig_path envsubstr envvar : List Char) :
    Option (Option (List Char)) :=
  match T.getenv envvar with
  | none => some none
  | some envpath => (replaceString envsubstr envpath rounds orig_path).map some

/-- `create_path_from_env` with `envsubstr` and `envvar`, as they are before; it may return `NULL`,
not return, or leave them. -/
def createPathFromEnvIn (T : LibTestbox) (rounds : ℕ) (envsubstr envvar orig_path : List Char) :
    Option (Option (List Char)) :=
  match strstr orig_path ['$', '('] with
  | none => some none
  | some envstart =>
    let env := orig_path.drop envstart
    match strstr env [')'] with
    | none => some none
    | some envend =>
      (copyPart envsubstr env (envend + 1)).bind fun envsubstr =>
        (copyPart envvar (env.drop 2) (envend - 2)).bind fun envvar =>
          expandWith T rounds orig_path (cstr envsubstr) (cstr envvar)

/-- The first reference of a path, from its dollar to its bracket, is shorter than the arrays. -/
def ReferenceFits (T : LibTestbox) (orig_path : List Char) : Prop :=
  ∀ envstart ∈ strstr orig_path ['$', '('], ∀ envend ∈ strstr (orig_path.drop envstart) [')'],
    envend + 1 < T.TB_STR_LEN

variable {T : LibTestbox} {rounds : ℕ} {envsubstr envvar orig_path : List Char}

theorem lt_length_of_strstr {s : List Char} {c : Char} {i : ℕ} (h : strstr s [c] = some i) :
    i < s.length := by
  have hlen := congrArg List.length (strstr_letter h).1
  rw [List.length_append, List.length_take, List.length_take, List.length_singleton] at hlen
  omega

/-- **The two arrays** are enough exactly if the first reference is shorter than they are, whether
or not its variable is set; then the path is what it would be without them. -/
theorem createPathFromEnvIn_eq_some_iff (hsubstr : envsubstr.length = T.TB_STR_LEN)
    (hvar : envvar.length = T.TB_STR_LEN) (hnul : NUL ∉ orig_path)
    (result : Option (List Char)) :
    createPathFromEnvIn T rounds envsubstr envvar orig_path = some result ↔
      ReferenceFits T orig_path ∧ createPathFromEnv T rounds orig_path = some result := by
  unfold createPathFromEnvIn ReferenceFits createPathFromEnv
  cases strstr orig_path ['$', '('] with
  | none => simp
  | some envstart =>
    simp only [Option.mem_def, Option.some.injEq, forall_eq']
    have henv : NUL ∉ orig_path.drop envstart := fun h => hnul (List.mem_of_mem_drop h)
    generalize orig_path.drop envstart = env at henv
    cases hend : strstr env [')'] with
    | none => simp
    | some envend =>
      have hlt := lt_length_of_strstr hend
      have hname : envend - 2 ≤ (env.drop 2).length := by
        rw [List.length_drop]
        omega
      have hdrop : NUL ∉ env.drop 2 := fun h => henv (List.mem_of_mem_drop h)
      simp only [Option.some.injEq, forall_eq']
      rw [copyPart_bind_iff (f := fun reference =>
          (copyPart envvar (env.drop 2) (envend - 2)).bind fun envvar =>
            expandWith T rounds orig_path reference (cstr envvar)) henv hlt,
        copyPart_bind_iff hdrop hname, hsubstr, hvar]
      -- the name of the variable is shorter than the reference
      exact and_congr_right fun h => and_iff_right (by omega)

/-- A reference of four characters is expanded in arrays of 16. -/
theorem createPathFromEnvIn_directory :
    createPathFromEnvIn directoryTestbox 2 (List.replicate 16 'x') (List.replicate 16 'y')
      "$(A)/x".toList = some (some "/opt/x".toList) :=
  (createPathFromEnvIn_eq_some_iff rfl rfl (by decide) _).mpr
    ⟨by rintro _ ⟨⟩ _ ⟨⟩; decide, rfl⟩

end Dib
