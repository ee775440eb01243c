import Dib.Registry.Expansion
import Dib.Registry.Import
import Mathlib.Data.List.DropRight

/-!
# Executables of a suite

A line `EXEC(path args)` adds an entry that is named after the path.

* `ExecDecl`: the path and the arguments, with what makes them fit to be written;
* `ExecDecl.AddsEntry`: the line adds the entry that it asks for; `ExecDecl.Sound`: what decides it;
* `keyword_split`: a keyword that is found in the line is found in the path;
* `exists_last_name`: the name is cut from the last word with a `/`;
* **`addsEntry_iff`**: the line adds its entry exactly when it is sound.
-/

set_option autoImplicit false

namespace Dib

open CString Framing Lines

/-! ## Statement -/

/-- `EXEC(path args)`. -/
def execLine (path : List Char) (args : List (List Char)) : List Char :=
  bracket ['E', 'X', 'E', 'C'] ([' '].intercalate (path :: args))

/-- A complete reference to the environment. -/
def HasReference (s : List Char) : Prop := ∃ x y z, s = x ++ ['$', '('] ++ y ++ ')' :: z

/-- The path of an executable file and its arguments, in a line that is read whole. -/
structure ExecDecl (T : LibTestbox) where
  path : List Char
  args : List (List Char)
  slash : '/' ∈ path
  last : path.getLast? ≠ some '/'
  token : ∀ a ∈ args, a ≠ [] ∧ ' ' ∉ a
  parens : ∀ a ∈ args, '(' ∉ a ∧ ')' ∉ a
  count : args.length ≤ 30
  env : ¬ HasReference path
  executable : T.tb_exec_check_executable path = true
  written : ∀ a ∈ path :: args, '\n' ∉ a ∧ NUL ∉ a
  fits : (execLine path args).length + 1 < T.TB_STR_LEN

variable {T : LibTestbox}

def ExecDecl.tokens (d : ExecDecl T) : List (List Char) := d.path :: d.args

def ExecDecl.line (d : ExecDecl T) : List Char := execLine d.path d.args

/-- The text behind the last `/`. -/
def lastComponent (path : List Char) : List Char := path.rtakeWhile (· ≠ '/')

/-- The last of the tokens that has a `/`. -/
def ExecDecl.slashed (d : ExecDecl T) : List Char :=
  (d.args.filter ('/' ∈ ·)).getLast?.getD d.path

/-- **The entry of the line**: `add_tc_from_file`, where it comes to the line, adds one entry with
the last component of the path for a name and with the path and the arguments, and goes on. -/
def ExecDecl.AddsEntry (d : ExecDecl T) (rounds suite_info : ℕ) (r : Registry) : Prop :=
  ∃ r' t, tbSuiteAddtest T r suite_info t = some r' ∧
    (∀ file, addTcFromFile T rounds suite_info r (d.line ++ '\n' :: file) =
      addTcFromFile T rounds suite_info r' file) ∧
    t.entry.name = lastComponent d.path ∧ t.entry.args = d.tokens ∧ t.argc = d.args.length + 1

/-- The path is one word and has no other keyword in it, there is room for the arguments, and the
last component of the last token with a `/` is that of the path. -/
structure ExecDecl.Sound (d : ExecDecl T) : Prop where
  word : ' ' ∉ d.path
  descr : ¬ ['D', 'E', 'S', 'C', 'R', '('] <:+: d.path
  tc : ¬ ['T', 'C', '('] <:+: d.path
  slots : d.args.length < T.TB_MAX_ARGS
  name : lastComponent d.slashed = lastComponent d.path

variable {s t u v path : List Char} {ts : List (List Char)} {d : ExecDecl T}
  {r r' : Registry} {rounds p : ℕ}

/-! ## Names -/

theorem lastComponent_split (hv : '/' ∉ v) : lastComponent (u ++ '/' :: v) = v := by
  have hall : ∀ c ∈ v.reverse, decide (c ≠ '/') = true := fun c hc => by
    simpa using fun e : c = '/' => hv (e ▸ List.mem_reverse.mp hc)
  rw [lastComponent, List.rtakeWhile, List.reverse_append, List.reverse_cons, List.append_assoc,
    List.takeWhile_append_of_pos hall]
  simp

theorem takeWhile_blank (hs : ' ' ∉ s) (ts : List (List Char)) :
    (s ++ ts.flatMap (' ' :: ·)).takeWhile (· ≠ ' ') = s := by
  have hall : ∀ c ∈ s, decide (c ≠ ' ') = true := fun c hc => by
    simpa using fun e : c = ' ' => hs (e ▸ hc)
  rw [List.takeWhile_append_of_pos hall]
  cases ts with
  | nil => simp
  | cons t ts => simp

theorem mem_words {c : Char} (h : c ∈ ts.flatMap (' ' :: ·)) : c = ' ' ∨ ∃ a ∈ ts, c ∈ a := by
  obtain ⟨a, ha, hc⟩ := List.mem_flatMap.mp h
  rcases List.mem_cons.mp hc with hc | hc
  · exact .inl hc
  · exact .inr ⟨a, ha, hc⟩

theorem notMem_words {c : Char} (hc : c ≠ ' ') (hts : ∀ a ∈ ts, c ∉ a) :
    c ∉ ts.flatMap (' ' :: ·) := by
  intro h
  rcases mem_words h with h | ⟨a, ha, h⟩
  · exact hc h
  · exact hts a ha h

theorem getLast?_filter_cons (h : ((t :: ts).filter ('/' ∈ ·)).getLast? = some s) :
    (ts.filter ('/' ∈ ·)).getLast? = some s ∨ ('/' ∈ t ∧ t = s ∧ ∀ a ∈ ts, '/' ∉ a) := by
  by_cases hmem : '/' ∈ t
  · rw [List.filter_cons_of_pos (by simpa using hmem), List.getLast?_cons] at h
    cases hlast : (ts.filter ('/' ∈ ·)).getLast? with
    | some a =>
      rw [hlast] at h
      exact .inl h
    | none =>
      rw [hlast] at h
      exact .inr ⟨hmem, Option.some.inj h, by simpa using List.getLast?_eq_none_iff.mp hlast⟩
  · rw [List.filter_cons_of_neg (by simpa using hmem)] at h
    exact .inl h

/-- **The name** is cut from the last token with a `/`. -/
theorem exists_last_name (hblank : ∀ a ∈ ts, ' ' ∉ a)
    (h : (ts.filter ('/' ∈ ·)).getLast? = some s) :
    ∃ u v, [' '].intercalate ts = u ++ '/' :: v ∧ '/' ∉ v ∧
      v.takeWhile (· ≠ ' ') = lastComponent s := by
  induction ts with
  | nil => cases h
  | cons t ts ih =>
    rw [List.forall_mem_cons] at hblank
    rcases getLast?_filter_cons h with hlast | ⟨hmem, rfl, hnot⟩
    · obtain ⟨u, v, huv, hv, hname⟩ := ih hblank.2 hlast
      have hne : ts ≠ [] := by
        rintro rfl
        cases hlast
      refine ⟨t ++ ' ' :: u, v, ?_, hv, hname⟩
      rw [List.intercalate_cons_of_ne_nil hne, huv]
      simp
    · obtain ⟨u, v, rfl, hv⟩ := exists_last hmem
      have hblank' : ' ' ∉ v := fun hc =>
        hblank.1 (List.mem_append_right u (List.mem_cons_of_mem _ hc))
      refine ⟨u, v ++ ts.flatMap (' ' :: ·), ?_, fun hc => ?_, ?_⟩
      · rw [intercalate_cons_flatMap, List.append_assoc, List.cons_append]
      · rcases List.mem_append.mp hc with hc | hc
        · exact hv hc
        · exact notMem_words (by decide) hnot hc
      · rw [takeWhile_blank hblank', lastComponent_split hv]

/-! ## References -/

theorem not_hasReference_append (ht : ')' ∉ t) (hs : ¬ HasReference s) :
    ¬ HasReference (s ++ t) := by
  rintro ⟨x, y, z, h⟩
  obtain ⟨q, hq, -⟩ := split_of_notMem ht h
  exact hs ⟨x, y, q, hq⟩

theorem not_hasReference (hs : '$' ∉ s) : ¬ HasReference s := by
  rintro ⟨x, y, z, rfl⟩
  simp at hs

theorem createPathFromEnv_of_not (h : ¬ HasReference s) (rounds : ℕ) :
    createPathFromEnv T rounds s = some none := by
  unfold createPathFromEnv
  cases hstart : strstr s ['$', '('] with
  | none => rfl
  | some envstart =>
    dsimp only
    cases hend : strstr (s.drop envstart) [')'] with
    | none => rfl
    | some envend =>
      have hsplit : s = s.take envstart ++ ('$' :: '(' :: s.drop (envstart + 2)) := by
        simpa using (leftmost_of_strstr hstart).eq
      have hdrop : s.drop envstart = '$' :: '(' :: s.drop (envstart + 2) :=
        List.append_cancel_left ((List.take_append_drop envstart s).trans hsplit)
      have hmem : ')' ∈ s.drop envstart := by
        rw [(leftmost_of_strstr hend).eq]
        simp
      rw [hdrop, List.mem_cons, List.mem_cons] at hmem
      obtain hmem | hmem | hmem := hmem
      · cases hmem
      · cases hmem
      obtain ⟨y, z, hyz⟩ := List.append_of_mem hmem
      exact absurd ⟨s.take envstart, y, z, by simpa [hyz] using hsplit⟩ h

/-! ## Keywords -/

/-- What follows the path in its line. -/
def ExecDecl.rest (d : ExecDecl T) : List Char := d.args.flatMap (' ' :: ·)

theorem intercalate_tokens (d : ExecDecl T) : [' '].intercalate d.tokens = d.path ++ d.rest :=
  intercalate_cons_flatMap ' ' d.path d.args

theorem env_text (d : ExecDecl T) (rounds : ℕ) :
    createPathFromEnv T rounds (d.path ++ d.rest) = some none :=
  createPathFromEnv_of_not
    (not_hasReference_append (notMem_words (by decide) fun a ha => (d.parens a ha).2) d.env) rounds

theorem line_eq (d : ExecDecl T) :
    d.line = (['E', 'X', 'E', 'C'] ++ '(' :: d.path) ++ (d.rest ++ [')']) := by
  rw [ExecDecl.line, execLine, bracket, ← ExecDecl.tokens, intercalate_tokens]
  simp

/-- **A keyword that is found in the line** is found in the path. -/
theorem keyword_split {k x y : List Char} (hk : '(' ∉ k) (hexec : ¬ k <:+ ['E', 'X', 'E', 'C'])
    (h : d.line = x ++ k ++ '(' :: y) :
    ∃ a q, d.path = a ++ k ++ '(' :: q ∧ y = q ++ (d.rest ++ [')']) := by
  have hparen : '(' ∉ d.rest := notMem_words (by decide) fun a ha => (d.parens a ha).1
  have hrest : '(' ∉ d.rest ++ [')'] := by simpa using hparen
  obtain ⟨q, hq, rfl⟩ := split_of_notMem hrest ((line_eq d).symm.trans h)
  suffices hpath : ∃ a, d.path = a ++ k ++ '(' :: q by
    obtain ⟨a, ha⟩ := hpath
    exact ⟨a, q, ha, rfl⟩
  rcases List.append_eq_append_iff.mp hq with ⟨b, hb, h1⟩ | ⟨b, hb, h1⟩
  · cases b with
    | nil => exact absurd ⟨x, by simpa using hb⟩ hexec
    | cons c b =>
      obtain ⟨rfl, hpath⟩ := List.cons.inj h1
      obtain ⟨a, -, rfl⟩ := split_of_notMem hk hb
      exact ⟨a, hpath⟩
  · cases b with
    | nil => exact absurd ⟨x, by simpa using hb.symm⟩ hexec
    | cons c b =>
      obtain ⟨rfl, -⟩ := List.cons.inj h1
      have hmem : '(' ∈ ['E', 'X', 'E', 'C'] := hb ▸ List.mem_append_right _ List.mem_cons_self
      exact absurd hmem (by decide)

theorem after_eq_none {k : List Char} (hk : '(' ∉ k) (hexec : ¬ k <:+ ['E', 'X', 'E', 'C'])
    (hpath : ¬ k ++ ['('] <:+: d.path) : after d.line (k ++ ['(']) = none := by
  rw [after, Option.map_eq_none_iff, strstr_eq_none_iff]
  rintro ⟨x, y, hxy⟩
  obtain ⟨a, q, ha, -⟩ := keyword_split hk hexec (by rw [← hxy]; simp : d.line = x ++ k ++ '(' :: y)
  exact hpath ⟨a, q, by rw [ha]; simp⟩

theorem after_eq_some {k : List Char} (hk : '(' ∉ k) (hexec : ¬ k <:+ ['E', 'X', 'E', 'C'])
    (hpath : k ++ ['('] <:+: d.path) : ∃ q, after d.line (k ++ ['(']) =
      some ((q ++ d.rest) ++ [')']) ∧ q <:+ d.path ∧ q ≠ d.path := by
  have hline : k ++ ['('] <:+: d.line := by
    rw [line_eq]
    exact hpath.trans ⟨['E', 'X', 'E', 'C', '('], d.rest ++ [')'], by simp⟩
  cases hi : strstr d.line (k ++ ['(']) with
  | none => exact absurd hline (strstr_eq_none_iff.mp hi)
  | some i =>
    have hsplit := (leftmost_of_strstr hi).eq
    obtain ⟨a, q, hq, hy⟩ := keyword_split hk hexec
      (hsplit.trans (by rw [← List.append_assoc, List.append_assoc, List.singleton_append]))
    refine ⟨q, by rw [after, hi, Option.map_some, hy, List.append_assoc],
      ⟨a ++ k ++ ['('], by simp [hq]⟩, fun he => ?_⟩
    have hlen := congrArg List.length (he.trans hq)
    simp only [List.length_append, List.length_cons] at hlen
    omega

/-- A keyword in the path hides the other ones. -/
theorem tcLine_of_descr (h : ['D', 'E', 'S', 'C', 'R', '('] <:+: d.path) :
    ∃ descr, tcLine T rounds p d.line r = some (setDescr T r p descr, false) := by
  obtain ⟨q, hafter, -⟩ := after_eq_some (k := ['D', 'E', 'S', 'C', 'R']) (by decide) (by decide) h
  have hdescr : after d.line ['D', 'E', 'S', 'C', 'R', '('] = some (q ++ d.rest ++ [')']) := hafter
  refine ⟨q ++ d.rest, ?_⟩
  rw [tcLine, hdescr]
  dsimp only
  rw [cutParen_concat, Option.map_some]

theorem after_descr (h : ¬ ['D', 'E', 'S', 'C', 'R', '('] <:+: d.path) :
    after d.line ['D', 'E', 'S', 'C', 'R', '('] = none :=
  after_eq_none (k := ['D', 'E', 'S', 'C', 'R']) (by decide) (by decide) h

theorem tcLine_of_tc (hdescr : ¬ ['D', 'E', 'S', 'C', 'R', '('] <:+: d.path)
    (h : ['T', 'C', '('] <:+: d.path) : ∃ q, q <:+ d.path ∧ q ≠ d.path ∧
      tcLine T rounds p d.line r = (addTestFunction T p (q ++ d.rest) r).map (·, false) := by
  obtain ⟨q, hafter, hsuffix, hne⟩ := after_eq_some (k := ['T', 'C']) (by decide) (by decide) h
  have htc : after d.line ['T', 'C', '('] = some (q ++ d.rest ++ [')']) := hafter
  refine ⟨q, hsuffix, hne, ?_⟩
  rw [tcLine, after_descr hdescr]
  dsimp only
  rw [htc]
  dsimp only
  rw [cutParen_concat, Option.bind_some]

theorem tcLine_exec (hdescr : ¬ ['D', 'E', 'S', 'C', 'R', '('] <:+: d.path)
    (h : ¬ ['T', 'C', '('] <:+: d.path) : tcLine T rounds p d.line r =
      (addExecutable T rounds p (d.path ++ d.rest) r).map (·, false) := by
  have htc : after d.line ['T', 'C', '('] = none :=
    after_eq_none (k := ['T', 'C']) (by decide) (by decide) h
  have hexec : after d.line ['E', 'X', 'E', 'C', '('] = some (d.path ++ d.rest ++ [')']) := by
    rw [← intercalate_tokens]
    exact after_bracket ['E', 'X', 'E', 'C'] _
  rw [tcLine, after_descr hdescr]
  dsimp only
  rw [htc]
  dsimp only
  rw [hexec]
  dsimp only
  rw [cutParen_concat, Option.bind_some]

/-! ## Entries -/

/-- The arrays of the entry hold these tokens. -/
structure Copies (T : LibTestbox) (args : List (List Char)) (t : TestcaseNod) : Prop where
  count : args.length ≤ T.TB_MAX_ARGS
  argc : t.argc = args.length
  args : t.args = T.copyArgs args

theorem addTestFunction_adds (h : addTestFunction T p s r = some r') :
    r' = r ∨ ∃ t, r' = (tbSuiteAddtest T r p t).getD r ∧ Copies T (strtok s ' ') t := by
  simp only [addTestFunction] at h
  split at h
  · cases h
  split at h
  · cases h
  split at h
  · exact .inl (Option.some.inj h).symm
  split at h
  · cases h
  next hcount => exact .inr ⟨_, (Option.some.inj h).symm, Nat.le_of_not_lt hcount, rfl, rfl⟩

theorem addExecutable_adds (henv : createPathFromEnv T rounds s = some none)
    (h : addExecutable T rounds p s r = some r') :
    r' = r ∨ ∃ slash name, strrchr s '/' = some slash ∧ execName (s.drop slash) = some name ∧
      (strtok s ' ').length ≤ T.TB_MAX_ARGS ∧
      r' = (tbSuiteAddtest T r p (T.execInfo (strtok s ' ') name)).getD r := by
  simp only [addExecutable, henv, Option.bind_some, Option.getD_none, addExec] at h
  split at h
  · cases h
  next slash hslash =>
  split at h
  · cases h
  split at h
  · cases h
  split at h
  · split at h
    · cases h
    next name hname =>
    split at h
    · cases h
    next hcount =>
    exact .inr ⟨slash, name, hslash, hname, Nat.le_of_not_lt hcount, (Option.some.inj h).symm⟩
  · exact .inl (Option.some.inj h).symm

theorem addExecutable_eq {slash : ℕ} {name : List Char}
    (henv : createPathFromEnv T rounds s = some none) (hslash : strrchr s '/' = some slash)
    (hargs : strtok s ' ' = path :: ts) (hslots : (path :: ts).length < argSlots)
    (hexec : T.tb_exec_check_executable path = true) (hname : execName (s.drop slash) = some name)
    (hcount : (path :: ts).length ≤ T.TB_MAX_ARGS) : addExecutable T rounds p s r =
      some ((tbSuiteAddtest T r p (T.execInfo (path :: ts) name)).getD r) := by
  have hhead : (path :: ts).head? = some path := rfl
  simp only [addExecutable, henv, Option.bind_some, Option.getD_none, addExec, hslash, hargs, hhead]
  rw [if_neg (Nat.not_le_of_lt hslots), if_pos hexec, hname]
  dsimp only
  rw [if_neg (Nat.not_lt_of_le hcount)]

theorem testsAt_ne_of_addtest {t : TestcaseNod} (hp : ∃ name, r.Named p name)
    (h : tbSuiteAddtest T r p t = some r') : r'.testsAt p ≠ r.testsAt p := by
  rw [testsAt_addtest p hp h, if_pos rfl]
  simp

theorem eq_of_addtest {t t' : TestcaseNod} (hp : ∃ name, r.Named p name)
    (h : tbSuiteAddtest T r p t = some r') (h' : r' = (tbSuiteAddtest T r p t').getD r) :
    t' = t := by
  cases ht' : tbSuiteAddtest T r p t' with
  | none =>
    rw [ht'] at h'
    exact absurd (congrArg (·.testsAt p) h') (testsAt_ne_of_addtest hp h)
  | some r₁ =>
    obtain rfl : r' = r₁ := by rw [h', ht', Option.getD_some]
    have htests := (testsAt_addtest p hp ht').symm.trans (testsAt_addtest p hp h)
    rw [if_pos rfl] at htests
    simpa using htests

/-! ## Tokens -/

theorem token_fits {q a : List Char} (hq : q <:+ d.path) (ha : a ∈ strtok (q ++ d.rest) ' ') :
    NUL ∉ a ∧ a.length < T.TB_STR_LEN := by
  have hsub := strtok_sublist ha
  constructor
  · intro hnul
    rcases List.mem_append.mp (hsub.mem hnul) with h | h
    · exact (d.written d.path List.mem_cons_self).2 (hq.mem h)
    · exact notMem_words (by decide) (fun b hb => (d.written b (List.mem_cons_of_mem _ hb)).2) h
  · have hlen := hsub.length_le
    have hqlen := hq.length_le
    have hfits := congrArg List.length (line_eq d)
    have hline : d.line.length + 1 < T.TB_STR_LEN := d.fits
    simp only [List.length_append, List.length_cons] at hlen hfits
    omega

theorem strtok_path (hword : ' ' ∉ d.path) : strtok (d.path ++ d.rest) ' ' = d.tokens := by
  have hne : d.path ≠ [] := List.ne_nil_of_mem d.slash
  rw [← intercalate_tokens]
  exact strtok_intercalate (List.cons_ne_nil _ _) (List.forall_mem_cons.mpr ⟨⟨hne, hword⟩, d.token⟩)

theorem filter_eq_path {q : List Char} (h : strtok (q ++ d.rest) ' ' = d.tokens) :
    q.filter (· ≠ ' ') = d.path := by
  have hflat := flatten_strtok (q ++ d.rest) ' '
  have hrest : d.rest.filter (· ≠ ' ') = d.args.flatten := by
    rw [ExecDecl.rest, List.filter_flatMap, ← List.flatMap_id]
    refine List.flatMap_congr fun a ha => ?_
    rw [List.filter_cons_of_neg (by simp)]
    exact List.filter_eq_self.mpr fun c hc => by
      simpa using fun e : c = ' ' => (d.token a ha).2 (e ▸ hc)
  rw [h, ExecDecl.tokens, List.flatten_cons, List.filter_append, hrest] at hflat
  exact (List.append_cancel_right hflat).symm

/-! ## The line -/

theorem addTc_text (hstrip : ∀ l, '\n' ∉ l → T.strip_newline (l ++ ['\n']) = l)
    (h : isText s = true) (hnul : NUL ∉ s) (hnl : '\n' ∉ s) (hlen : s.length + 1 < T.TB_STR_LEN)
    (file : List Char) : addTcFromFile T rounds p r (s ++ '\n' :: file) =
      (tcLine T rounds p s r).bind fun x =>
        if x.2 then some (x.1, file, true) else addTcFromFile T rounds p x.1 file := by
  have hshrinks : ∀ line r file r' file', addTcBody T rounds p line r file =
      some (.next r' file') → file'.length ≤ file.length := fun _ _ _ _ _ => shrinks_addTcBody
  refine (loop_of_fgets _ r T.strLen_gt hshrinks (fgets_line hnl hlen file)).trans ?_
  rw [addTcBody, textLine_text hstrip h hnul hnl]
  dsimp only
  cases tcLine T rounds p s r with
  | none => rfl
  | some x =>
    obtain ⟨r', ended⟩ := x
    cases ended with
    | true => rfl
    | false => rfl

theorem mem_line {c : Char} (h : c ∈ d.line) :
    c ∈ ['E', 'X', 'E', 'C', '(', ' ', ')'] ∨ ∃ a ∈ d.path :: d.args, c ∈ a := by
  rw [line_eq] at h
  rcases List.mem_append.mp h with h | h
  · rcases List.mem_append.mp h with h | h
    · exact .inl (List.mem_append_left ['(', ' ', ')'] h)
    rcases List.mem_cons.mp h with rfl | h
    · exact .inl (by decide)
    · exact .inr ⟨d.path, List.mem_cons_self, h⟩
  · rcases List.mem_append.mp h with h | h
    · rcases mem_words h with rfl | ⟨a, ha, h⟩
      · exact .inl (by decide)
      · exact .inr ⟨a, List.mem_cons_of_mem _ ha, h⟩
    · obtain rfl := List.mem_singleton.mp h
      exact .inl (by decide)

theorem addTc_exec (hstrip : ∀ l, '\n' ∉ l → T.strip_newline (l ++ ['\n']) = l) (d : ExecDecl T)
    (file : List Char) : addTcFromFile T rounds p r (d.line ++ '\n' :: file) =
      (tcLine T rounds p d.line r).bind fun x =>
        if x.2 then some (x.1, file, true) else addTcFromFile T rounds p x.1 file := by
  have htext : isText d.line = true := by simp [isText, line_eq]
  have hnot : ∀ c, c ∉ ['E', 'X', 'E', 'C', '(', ' ', ')'] → (∀ a ∈ d.path :: d.args, c ∉ a) →
      c ∉ d.line := fun c hc hd h => by
    rcases mem_line h with h | ⟨a, ha, h⟩
    · exact hc h
    · exact hd a ha h
  exact addTc_text hstrip htext (hnot NUL (by decide) fun a ha => (d.written a ha).2)
    (hnot '\n' (by decide) fun a ha => (d.written a ha).1) d.fits file

/-! ## The entry -/

theorem getLast?_tokens (d : ExecDecl T) :
    (d.tokens.filter ('/' ∈ ·)).getLast? = some d.slashed := by
  rw [ExecDecl.tokens, List.filter_cons_of_pos (by simpa using d.slash), List.getLast?_cons]
  rfl

theorem execName_path (hword : ' ' ∉ d.path) :
    ∃ slash, strrchr (d.path ++ d.rest) '/' = some slash ∧
      (∀ name, execName ((d.path ++ d.rest).drop slash) = some name →
        name = lastComponent d.slashed) ∧
      (lastComponent d.slashed ≠ [] →
        execName ((d.path ++ d.rest).drop slash) = some (lastComponent d.slashed)) := by
  have hblank : ∀ a ∈ d.tokens, ' ' ∉ a :=
    List.forall_mem_cons.mpr ⟨hword, fun a ha => (d.token a ha).2⟩
  obtain ⟨u, v, huv, hv, hname⟩ := exists_last_name hblank (getLast?_tokens d)
  have hexec : execName ((u ++ '/' :: v).drop u.length) =
      if v = [] then none else some (lastComponent d.slashed) := by
    rw [execName, List.drop_left, List.drop_one, List.tail_cons, hname]
  rw [← intercalate_tokens, huv]
  refine ⟨u.length, strrchr_split u hv, ?_⟩
  rw [hexec]
  constructor
  · intro name h
    exact (Option.some.inj (Option.ite_none_left_eq_some.mp h).2).symm
  · intro hne
    refine if_neg fun h => hne ?_
    rw [← hname, h]
    rfl

theorem lastComponent_ne_nil (d : ExecDecl T) : lastComponent d.path ≠ [] := by
  intro h
  have hne : d.path ≠ [] := List.ne_nil_of_mem d.slash
  have hlast := List.rtakeWhile_eq_nil_iff.mp h hne
  refine d.last ?_
  rw [List.getLast?_eq_getLast_of_ne_nil hne]
  simpa using hlast

theorem copies_args {q : List Char} {t : TestcaseNod} (hq : q <:+ d.path)
    (ht : Copies T (strtok (q ++ d.rest) ' ') t) : t.entry.args = strtok (q ++ d.rest) ' ' := by
  have h := map_copyArgs ht.count (fun a ha => (token_fits hq ha).1)
    fun a ha => (token_fits hq ha).2
  rwa [← ht.args, ← ht.argc] at h

theorem execInfo_name (d : ExecDecl T) (args : List (List Char)) :
    (T.execInfo args (lastComponent d.slashed)).entry.name = lastComponent d.slashed := by
  have hmem : d.slashed ∈ d.tokens :=
    (List.mem_filter.mp (List.mem_of_getLast? (getLast?_tokens d))).1
  have hsuffix : lastComponent d.slashed <:+ d.slashed := List.rtakeWhile_suffix _ _
  refine cstr_strncpy_zeroInfo (fun h => (d.written _ hmem).2 (hsuffix.mem h)) ?_
  have hlen := hsuffix.length_le
  have htoken := length_le_intercalate (c := ' ') hmem
  have hline := congrArg List.length (line_eq d)
  have hfits : d.line.length + 1 < T.TB_STR_LEN := d.fits
  rw [intercalate_tokens] at htoken
  simp only [List.length_append, List.length_cons] at htoken hline
  omega

theorem addsEntry_of_sound (hstrip : ∀ l, '\n' ∉ l → T.strip_newline (l ++ ['\n']) = l)
    (hadd : ∀ t, T.tb_suite_addtest r p t = true) (h : d.Sound) : d.AddsEntry rounds p r := by
  obtain ⟨slash, hslash, -, hname⟩ := execName_path h.word
  have hname := hname (by rw [h.name]; exact lastComponent_ne_nil d)
  have hslots : d.tokens.length < argSlots := Nat.lt_succ_of_le (Nat.succ_le_succ d.count)
  have hline : tcLine T rounds p d.line r = some ((tbSuiteAddtest T r p
      (T.execInfo d.tokens (lastComponent d.slashed))).getD r, false) := by
    rw [tcLine_exec h.descr h.tc, addExecutable_eq (env_text d rounds) hslash
      (strtok_path h.word) hslots d.executable hname h.slots]
    rfl
  have hargs : (T.execInfo d.tokens (lastComponent d.slashed)).entry.args = d.tokens := by
    rw [← strtok_path h.word]
    refine copies_args List.suffix_rfl ⟨?_, rfl, rfl⟩
    rw [strtok_path h.word]
    exact h.slots
  refine ⟨_, _, if_pos (hadd _), fun file => ?_, ?_, hargs, rfl⟩
  · rw [addTc_exec hstrip, hline, tbSuiteAddtest, if_pos (hadd _)]
    rfl
  · rw [execInfo_name, h.name]

theorem tcLine_of_addsEntry (hstrip : ∀ l, '\n' ∉ l → T.strip_newline (l ++ ['\n']) = l)
    (h : ∀ file, addTcFromFile T rounds p r (d.line ++ '\n' :: file) =
      addTcFromFile T rounds p r' file) : tcLine T rounds p d.line r = some (r', false) := by
  have hend (r : Registry) : addTcFromFile T rounds p r [] = some (r, [], false) := rfl
  have hnil := h []
  rw [addTc_exec hstrip, hend] at hnil
  obtain ⟨⟨r₁, ended⟩, hline, hx⟩ := Option.bind_eq_some_iff.mp hnil
  cases ended with
  | true => cases hx
  | false =>
    have hx' : some (r₁, ([] : List Char), false) = some (r', [], false) := hx
    obtain ⟨rfl, -⟩ := Prod.mk.inj (Option.some.inj hx')
    exact hline

/-- A line that adds its entry is sound: a keyword in the path, a blank in it or another name make
another entry, or none. -/
theorem sound_of_addsEntry (hstrip : ∀ l, '\n' ∉ l → T.strip_newline (l ++ ['\n']) = l)
    (hp : ∃ name, r.Named p name) (h : d.AddsEntry rounds p r) : d.Sound := by
  obtain ⟨r', t, hadd, hfile, hname, hargs, -⟩ := h
  have hline := tcLine_of_addsEntry hstrip hfile
  have hdescr : ¬ ['D', 'E', 'S', 'C', 'R', '('] <:+: d.path := by
    intro hpath
    obtain ⟨descr, hset⟩ : ∃ descr, tcLine T rounds p d.line r =
        some (setDescr T r p descr, false) := tcLine_of_descr hpath
    obtain ⟨rfl, -⟩ := Prod.mk.inj (Option.some.inj (hset.symm.trans hline))
    exact testsAt_ne_of_addtest hp hadd (testsAt_setDescr r p descr p)
  have htc : ¬ ['T', 'C', '('] <:+: d.path := by
    intro hpath
    obtain ⟨q, hq, hne, htest⟩ : ∃ q, q <:+ d.path ∧ q ≠ d.path ∧ tcLine T rounds p d.line r =
        (addTestFunction T p (q ++ d.rest) r).map (·, false) := tcLine_of_tc hdescr hpath
    obtain ⟨r₁, hr₁, hx⟩ := Option.map_eq_some_iff.mp (htest.symm.trans hline)
    obtain ⟨rfl, -⟩ := Prod.mk.inj hx
    rcases addTestFunction_adds hr₁ with rfl | ⟨t', hr', ht'⟩
    · exact testsAt_ne_of_addtest hp hadd rfl
    obtain rfl := eq_of_addtest hp hadd hr'
    have hfilter := filter_eq_path ((copies_args hq ht').symm.trans hargs)
    refine hne (hq.eq_of_length_le ?_)
    rw [← hfilter]
    exact List.length_filter_le _ _
  rw [tcLine_exec hdescr htc] at hline
  obtain ⟨r₁, hr₁, hx⟩ := Option.map_eq_some_iff.mp hline
  obtain ⟨rfl, -⟩ := Prod.mk.inj hx
  rcases addExecutable_adds (env_text d rounds) hr₁ with
    rfl | ⟨slash, name, hslash, hexec, hcount, hr'⟩
  · exact absurd rfl (testsAt_ne_of_addtest hp hadd)
  obtain rfl := eq_of_addtest hp hadd hr'
  have htokens := (copies_args List.suffix_rfl ⟨hcount, rfl, rfl⟩).symm.trans hargs
  have hword : ' ' ∉ d.path := by
    rw [← filter_eq_path htokens]
    simp
  obtain ⟨slash', hslash', hexec', -⟩ := execName_path hword
  obtain rfl := Option.some.inj (hslash.symm.trans hslash')
  obtain rfl := hexec' name hexec
  rw [htokens] at hcount
  exact ⟨hword, hdescr, htc, hcount, (execInfo_name d _).symm.trans hname⟩

/-- **Which lines add their entry**: those whose path is one word without another keyword, that
leave the arguments room, and whose last token with a `/` has the last component of the path. -/
theorem addsEntry_iff (hstrip : ∀ l, '\n' ∉ l → T.strip_newline (l ++ ['\n']) = l)
    (hadd : ∀ t, T.tb_suite_addtest r p t = true) (hp : ∃ name, r.Named p name) (d : ExecDecl T)
    (rounds : ℕ) : d.AddsEntry rounds p r ↔ d.Sound :=
  ⟨sound_of_addsEntry hstrip hp, addsEntry_of_sound hstrip hadd⟩

/-- Every file is executable, and lines have up to 31 characters. -/
def execTestbox : LibTestbox :=
  { plainTestbox with
    TB_STR_LEN := 32
    tb_exec_check_executable := fun _ => true
    strLen_gt := Nat.le_of_ble_eq_true rfl }

theorem strip_execTestbox (l : List Char) :
    execTestbox.strip_newline (l ++ ['\n']) = l := by
  simp [execTestbox, plainTestbox]

theorem ls_path : '/' ∈ "/bin/ls".toList ∧ "/bin/ls".toList.getLast? ≠ some '/' ∧
    '$' ∉ "/bin/ls".toList ∧ '\n' ∉ "/bin/ls".toList ∧ NUL ∉ "/bin/ls".toList := by
  decide

theorem ls_fits {arg : List Char} (hlen : arg.length < 10) :
    (execLine "/bin/ls".toList [arg]).length + 1 < execTestbox.TB_STR_LEN := by
  have hline : (execLine "/bin/ls".toList [arg]).length = arg.length + 14 := by
    simp [execLine, bracket]
  rw [hline]
  show arg.length + 15 < 32
  omega

/-- `ls` with one argument. -/
def lsDecl (arg : List Char) (htoken : arg ≠ [] ∧ ' ' ∉ arg) (hparens : '(' ∉ arg ∧ ')' ∉ arg)
    (hwritten : '\n' ∉ arg ∧ NUL ∉ arg) (hlen : arg.length < 10) : ExecDecl execTestbox where
  path := "/bin/ls".toList
  args := [arg]
  slash := ls_path.1
  last := ls_path.2.1
  token := List.forall_mem_singleton.mpr htoken
  parens := List.forall_mem_singleton.mpr hparens
  count := Nat.le_of_ble_eq_true rfl
  env := not_hasReference ls_path.2.2.1
  executable := rfl
  written := List.forall_mem_cons.mpr ⟨ls_path.2.2.2, List.forall_mem_singleton.mpr hwritten⟩
  fits := ls_fits hlen

/-- One suite, without entries. -/
def oneSuite : Registry := ⟨[], [⟨0, ['S'], [], []⟩], [], 1⟩

theorem named_oneSuite : ∃ name, oneSuite.Named 0 name := ⟨['S'], _, rfl, rfl⟩

/-- `EXEC(/bin/ls -l)`. -/
theorem addsEntry_ls : (lsDecl "-l".toList (by decide) (by decide) (by decide)
    (by decide)).AddsEntry 0 0 oneSuite :=
  (addsEntry_iff (fun l _ => strip_execTestbox l) (fun _ => rfl) named_oneSuite _ 0).mpr
    ⟨by decide, by decide, by decide, by decide, by decide⟩

/-- `EXEC(/bin/ls /tmp)`. -/
def lsTmp : ExecDecl execTestbox :=
  lsDecl "/tmp".toList (by decide) (by decide) (by decide) (by decide)

/-- It is named after its argument. -/
theorem ls_named_tmp :
    (tcLine execTestbox 0 0 lsTmp.line oneSuite).map (fun (r, _) =>
        (r.testsAt 0).map (cstr ·.name)) = some ["tmp".toList] ∧
      ¬ lsTmp.AddsEntry 0 0 oneSuite := by
  refine ⟨by decide, fun h => ?_⟩
  have hname := (sound_of_addsEntry (fun l _ => strip_execTestbox l) named_oneSuite h).name
  exact absurd hname (by decide)

end Dib
