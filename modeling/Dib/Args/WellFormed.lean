import Dib.Args.Options

/-!
# Launched argument records

* `CmdArgs.WellFormed`: what holds of a record that is handed to `exec_test_thread`;
* `CmdBox.Selects`: an argument names a test and its handler;
* `ParseInv`, `parseOption_inv`, `parseOptions_inv`: what every option keeps;
* **`launched_wellFormed`**: every launched record is well formed.
-/

set_option autoImplicit false

namespace Dib

open CString

/-! ## Statement -/

/-- The argument with index `i` names what `kind` is the handler of. -/
def CmdBox.Selects (B : CmdBox) (i : ℕ) (arg : List Char) (kind : HandlerKind) : Prop :=
  (B.tb_exec_find_group_suite_or_case i arg).handler = some kind ∨
    B.tb_exec_find_group_suite_or_case i arg = .unknown ∧
      B.tb_exec_check_executable i arg = .exec ∧ kind = .executable

/-- A string array that was zero and got a copy of `arg`. -/
def CmdBox.copyOf (B : CmdBox) (arg : List Char) : List Char :=
  strncpy B.zeros arg (B.TB_STR_LEN - 1)

/-- The levels and numbers of a record. -/
structure CmdArgs.InRange (B : CmdBox) (a : CmdArgs) : Prop where
  level : B.TB_VERB_OFF ≤ a.verbose_level ∧ a.verbose_level ≤ B.TB_VERB_OFF_LOG
  wait : a.wait_for_response = true ↔
    a.verbose_level ≠ B.TB_VERB_OFF ∧ a.verbose_level ≠ B.TB_VERB_OFF_LOG
  loops : 1 ≤ a.loops
  max_timeout : 0 ≤ a.max_timeout
  execution_time : 0 ≤ a.execution_time
  execution_dly_time : 0 ≤ a.execution_dly_time

/-- The name in a record: that of an argument which selects the handler `kind`. It is that argument,
unless it is too long for the array. -/
structure CmdArgs.Named (B : CmdBox) (argv : List (List Char)) (kind : HandlerKind) (a : CmdArgs) :
    Prop where
  argc : 1 ≤ a.argc
  argv_zero : a.argv[0]? = some a.node_name
  node_name : ∃ i arg, argv[i]? = some arg ∧ B.Selects i arg kind ∧ a.node_name = B.copyOf arg ∧
    (NUL ∉ arg → arg.length < B.TB_STR_LEN → cstr a.node_name = arg)

/-- **A record for the handler `kind`**, selected by an argument of the command. -/
structure CmdArgs.WellFormed (B : CmdBox) (argv : List (List Char)) (kind : HandlerKind)
    (a : CmdArgs) : Prop extends CmdArgs.InRange B a, CmdArgs.Named B argv kind a where
  log_delay : a.verbose_level = B.TB_VERB_OFF_LOG →
    0 < a.execution_dly_time ∨ a.loops = 1 ∧ a.execution_time = 0

/-! ## Copies of names -/

variable {B : CmdBox} {argv : List (List Char)} {s : ParseState} {a : CmdArgs}

/-- A name that fits in a row is copied whole: its terminator is the last zero. -/
theorem cstr_copyOf {arg : List Char} (harg : NUL ∉ arg) (hlen : arg.length < B.TB_STR_LEN) :
    cstr (B.copyOf arg) = arg := by
  by_cases h : arg.length < B.TB_STR_LEN - 1
  · exact cstr_strncpy harg h
  · obtain ⟨n, hn⟩ : ∃ n, B.TB_STR_LEN = n + 1 := ⟨B.TB_STR_LEN - 1, by omega⟩
    have hn' : arg.length = n := by omega
    have h1 : B.copyOf arg = arg ++ NUL :: [] := by
      simp [CmdBox.copyOf, CmdBox.zeros, strncpy, hn, hn']
    rw [h1]
    exact cstr_append_NUL harg []

/-- The end of an array that `strncpy` does not write is still zero. -/
def CmdBox.ZeroEnd (B : CmdBox) (dst : List Char) : Prop :=
  dst.drop (B.TB_STR_LEN - 1) = B.zeros.drop (B.TB_STR_LEN - 1)

/-- What a longer name left in the array is overwritten. -/
theorem strncpy_of_zeroEnd {dst : List Char} (h : B.ZeroEnd dst) (arg : List Char) :
    strncpy dst arg (B.TB_STR_LEN - 1) = B.copyOf arg := by
  rw [CmdBox.copyOf, strncpy, strncpy, h]

theorem zeroEnd_copyOf (arg : List Char) : B.ZeroEnd (B.copyOf arg) := by
  have h : ((arg ++ List.replicate (B.TB_STR_LEN - 1 - arg.length) NUL).take
      (B.TB_STR_LEN - 1)).length = B.TB_STR_LEN - 1 := by
    simp
    omega
  unfold CmdBox.ZeroEnd CmdBox.copyOf strncpy
  rw [List.drop_append, h, Nat.sub_self, List.drop_zero, List.drop_of_length_le h.le,
    List.nil_append]

/-! ## What the options keep -/

/-- The record is in range, the ends of its arrays are zero, and a handler has been selected
properly. -/
structure ParseInv (B : CmdBox) (argv : List (List Char)) (s : ParseState) : Prop where
  range : s.args.InRange B
  name_end : B.ZeroEnd s.args.node_name
  row_end : ∀ row ∈ s.args.argv, B.ZeroEnd row
  named : ∀ kind, s.threadfunc = some kind → s.args.Named B argv kind

theorem ParseInv.withArgs (h : ParseInv B argv s) (ha : a.InRange B)
    (hname : a.node_name = s.args.node_name) (hargc : a.argc = s.args.argc)
    (hargv : a.argv = s.args.argv) : ParseInv B argv { s with args := a } := by
  refine ⟨ha, ?_, ?_, fun kind hkind => ?_⟩
  · show B.ZeroEnd a.node_name
    rw [hname]
    exact h.name_end
  · show ∀ row ∈ a.argv, B.ZeroEnd row
    rw [hargv]
    exact h.row_end
  · obtain ⟨h1, h2, h3⟩ := h.named kind hkind
    refine ⟨?_, ?_, ?_⟩
    · show 1 ≤ a.argc
      rwa [hargc]
    · show a.argv[0]? = some a.node_name
      rwa [hargv, hname]
    · show ∃ i arg, _ ∧ _ ∧ a.node_name = _ ∧ (_ → _ → cstr a.node_name = _)
      rwa [hname]

theorem writeArg_eq_some {row : ℕ} {arg : List Char} {a' : CmdArgs}
    (hend : ∀ r ∈ a.argv, B.ZeroEnd r) (h : writeArg B row arg a = some a') :
    row < a.argv.length ∧ a' = { a with argv := a.argv.set row (B.copyOf arg) } := by
  unfold writeArg at h
  obtain ⟨hrow, ⟨⟩⟩ := Option.ite_none_right_eq_some.mp h
  have hrows : a.argv.modify row (fun dst => strncpy dst arg (B.TB_STR_LEN - 1)) =
      a.argv.set row (B.copyOf arg) := by
    apply List.ext_getElem
    · simp
    · intro j h1 h2
      rw [List.getElem_modify, List.getElem_set]
      split
      · exact strncpy_of_zeroEnd (hend _ (List.getElem_mem _)) arg
      · rfl
  exact ⟨hrow, by rw [hrows]⟩

theorem zeroEnd_set {row : ℕ} {arg : List Char} (hend : ∀ r ∈ a.argv, B.ZeroEnd r) :
    ∀ r ∈ a.argv.set row (B.copyOf arg), B.ZeroEnd r := by
  intro r hr
  rcases List.mem_or_eq_of_mem_set hr with hr | rfl
  · exact hend r hr
  · exact zeroEnd_copyOf arg

theorem selectTest_inv {i : ℕ} {arg : List Char} {kind : Option HandlerKind} {s' : ParseState}
    (h : ParseInv B argv s) (harg : argv[i]? = some arg)
    (hkind : ∀ k, kind = some k → B.Selects i arg k)
    (hs : (selectTest B arg kind s).state = some s') : ParseInv B argv s' := by
  unfold selectTest at hs
  split at hs
  · cases hs
  · next a' hw =>
    obtain ⟨hrow, rfl⟩ := writeArg_eq_some
      (a := { s.args with node_name := strncpy s.args.node_name arg (B.TB_STR_LEN - 1) })
      h.row_end hw
    obtain rfl := Option.some.inj hs
    have hname := strncpy_of_zeroEnd h.name_end arg
    refine ⟨⟨h.range.1, h.range.2, h.range.3, h.range.4, h.range.5, h.range.6⟩, ?_,
      zeroEnd_set h.row_end, fun k hk => ⟨Nat.le_add_left 1 _, ?_, i, arg, harg, hkind k hk, hname,
        fun h1 h2 => ?_⟩⟩
    · show B.ZeroEnd (strncpy s.args.node_name arg (B.TB_STR_LEN - 1))
      rw [hname]
      exact zeroEnd_copyOf arg
    · show (s.args.argv.set 0 (B.copyOf arg))[0]? =
        some (strncpy s.args.node_name arg (B.TB_STR_LEN - 1))
      rw [hname]
      exact List.getElem?_set_self hrow
    · show cstr (strncpy s.args.node_name arg (B.TB_STR_LEN - 1)) = arg
      rw [hname]
      exact cstr_copyOf h1 h2

theorem parseWord_inv {i : ℕ} {arg : List Char} {s' : ParseState} (h : ParseInv B argv s)
    (harg : argv[i]? = some arg) (hs : (parseWord B i arg s).state = some s') :
    ParseInv B argv s' := by
  unfold parseWord at hs
  split at hs
  · exact selectTest_inv h harg (fun k hk => .inl hk) hs
  split at hs
  · next hfind hcheck =>
    refine selectTest_inv h harg (fun k hk => .inr ?_) hs
    have hunknown : B.tb_exec_find_group_suite_or_case i arg = .unknown := by
      by_contra hne
      exact hfind ⟨hcheck.1, hne⟩
    obtain ⟨hexec, ⟨⟩⟩ := Option.ite_none_right_eq_some.mp hk
    exact ⟨hunknown, hexec, rfl⟩
  split at hs
  · cases hs
  · next a' hw =>
    obtain ⟨-, rfl⟩ := writeArg_eq_some h.row_end hw
    obtain rfl := Option.some.inj hs
    refine ⟨⟨h.range.1, h.range.2, h.range.3, h.range.4, h.range.5, h.range.6⟩, h.name_end,
      zeroEnd_set h.row_end, fun k hk => ?_⟩
    -- a handler is selected, so `argc` is not zero: another row is written
    obtain ⟨h1, h2, h3⟩ := h.named k hk
    refine ⟨h1.trans (Nat.le_succ _), ?_, h3⟩
    show (s.args.argv.set s.args.argc (B.copyOf arg))[0]? = some s.args.node_name
    rw [List.getElem?_set_ne (by omega), h2]

theorem CmdArgs.InRange.write (h : a.InRange B) {k : Keyword} {sec : Option ℤ}
    {value : List Char} (hacc : k.rejects B sec value = none) :
    (k.write B sec value a).InRange B := by
  cases k with
  | extend | extended | xml | stoponfail =>
    exact ⟨h.level, h.wait, h.loops, h.max_timeout, h.execution_time, h.execution_dly_time⟩
  | verbose =>
    -- the level is checked, and decides whether the response is waited for
    have hrange : B.TB_VERB_OFF ≤ atoi value ∧ atoi value ≤ B.TB_VERB_OFF_LOG := by
      simpa [Keyword.rejects] using hacc
    refine ⟨hrange, ?_, h.loops, h.max_timeout, h.execution_time, h.execution_dly_time⟩
    simp [Keyword.write, CmdBox.Detached, not_or]
  | wait =>
    -- a level at which nobody waits is replaced
    refine ⟨?_, ?_, h.loops, h.max_timeout, h.execution_time, h.execution_dly_time⟩
    · dsimp only [Keyword.write]
      split_ifs
      · exact B.resp_range
      · exact h.level
    · dsimp only [Keyword.write]
      split_ifs with hd
      · simpa using B.resp_ne
      · simpa [CmdBox.Detached, not_or] using hd
  | loop =>
    have hpos : 0 < atoi value := by simpa [Keyword.rejects] using hacc
    exact ⟨h.level, h.wait, hpos, h.max_timeout, h.execution_time, h.execution_dly_time⟩
  | maxtmo =>
    have hpos : 0 < atoi value := by simpa [Keyword.rejects] using hacc
    exact ⟨h.level, h.wait, h.loops, hpos.le, h.execution_time, h.execution_dly_time⟩
  | exe_time =>
    obtain ⟨n, rfl, hpos⟩ := accepted_duration (.inl rfl) hacc
    have hloops : (1 : ℤ) ≤ 0x7fffffff := by decide
    exact ⟨h.level, h.wait, hloops, h.max_timeout, hpos.le, h.execution_dly_time⟩
  | exe_dly_time =>
    obtain ⟨n, rfl, hpos⟩ := accepted_duration (.inr rfl) hacc
    exact ⟨h.level, h.wait, h.loops, h.max_timeout, h.execution_time, hpos.le⟩

/-- **One argument** keeps the record in range. -/
theorem parseOption_inv {i : ℕ} {arg value : List Char} {s' : ParseState} (h : ParseInv B argv s)
    (harg : argv[i]? = some arg) (hs : (parseOption B i arg value s).state = some s') :
    ParseInv B argv s' := by
  cases hkey : keywordOf arg with
  | none =>
    rw [parseOption_word hkey] at hs
    exact parseWord_inv h harg hs
  | some k =>
    obtain rfl := keywordOf_eq_some_iff.mp hkey
    rw [parseOption_keyword] at hs
    cases hacc : k.rejects B (B.seconds i value) value with
    | some e =>
      rw [hacc] at hs
      cases hs
    | none =>
      rw [hacc] at hs
      obtain rfl : s.withArgs (k.write B (B.seconds i value) value s.args) = s' := by
        dsimp only at hs
        split_ifs at hs <;> exact Option.some.inj hs
      exact h.withArgs (h.range.write hacc) (k.write_node_name _ value s.args)
        (k.write_argc _ value s.args) (k.write_argv _ value s.args)

/-- **The loop** over the arguments from the `i`-th. -/
theorem parseOptions_inv {beyond : List Char} {rest : List (List Char)} {i : ℕ} {s' : ParseState}
    (h : ParseInv B argv s) (hrest : argv.drop i = rest)
    (hs : parseOptions B beyond rest i s = .done s') : ParseInv B argv s' := by
  induction rest, i, s using parseOptions.induct B beyond with
  | case1 i s =>
    obtain rfl := Parsed.done.inj hs
    exact h
  | case2 arg rest i s s₁ hopt ih =>
    have harg : argv[i]? = some arg := by rw [← List.head?_drop, hrest, List.head?_cons]
    have hrest' : argv.drop (i + 1) = rest := by rw [← List.tail_drop, hrest, List.tail_cons]
    rw [parseOptions, hopt] at hs
    exact ih (parseOption_inv h harg (by rw [hopt, OptionResult.state])) hrest' hs
  | case3 arg i s s₁ hopt =>
    have harg : argv[i]? = some arg := by rw [← List.head?_drop, hrest, List.head?_cons]
    rw [parseOptions, hopt] at hs
    obtain rfl := Parsed.done.inj hs
    exact parseOption_inv h harg (by rw [hopt, OptionResult.state])
  | case4 arg i s s₁ value rest hopt ih =>
    have harg : argv[i]? = some arg := by rw [← List.head?_drop, hrest, List.head?_cons]
    have hrest' : argv.drop (i + 2) = rest := by
      rw [← List.tail_drop, ← List.tail_drop, hrest, List.tail_cons, List.tail_cons]
    rw [parseOptions, hopt] at hs
    exact ih (parseOption_inv h harg (by rw [hopt, OptionResult.state])) hrest' hs
  | case5 arg rest i s e hopt =>
    rw [parseOptions, hopt] at hs
    cases hs
  | case6 arg rest i s hopt =>
    rw [parseOptions, hopt] at hs
    cases hs

/-! ## The launch -/

theorem creatDefaultThreadArgs_inv (h : creatDefaultThreadArgs B = some a) (socket : ℤ) :
    ParseInv B argv ⟨{ a with socket := socket }, none, B.zeros⟩ := by
  unfold creatDefaultThreadArgs at h
  obtain ⟨-, ⟨⟩⟩ := Option.ite_none_right_eq_some.mp h
  refine ⟨⟨B.level_range, ?_, le_rfl, le_rfl, le_rfl, le_rfl⟩, rfl, fun row hrow => ?_, ?_⟩
  · simp [CmdBox.Detached, not_or]
  · obtain rfl := List.eq_of_mem_replicate hrow
    rfl
  · intro kind hkind
    cases hkind

/-- **Launched records are well formed**, and the response is waited for as they say. -/
theorem launched_wellFormed {beyond name : List Char} {socket : ℤ} {wait : Bool}
    {kind : HandlerKind}
    (h : cmdParse B argv beyond socket = .launched wait kind a name) :
    a.WellFormed B argv kind ∧ wait = a.wait_for_response := by
  obtain ⟨-, -, a₀, s, ha₀, hs, hlog, hkind, rfl, rfl, -⟩ := cmdParse_launched_iff.mp h
  have hinv := parseOptions_inv (creatDefaultThreadArgs_inv ha₀ socket) List.drop_one hs
  have hdly := hinv.range.execution_dly_time
  refine ⟨⟨hinv.range, hinv.named kind hkind, fun hlevel => ?_⟩, rfl⟩
  by_contra hcon
  refine hlog ⟨hlevel, ?_, ?_⟩
  · omega
  · by_contra hne
    omega

/-- A box with one test case, `t`. -/
def caseBox : CmdBox where
  TB_STR_LEN := 10
  TB_MAX_ARGS := 3
  TB_VERB_OFF := 0
  TB_VERB_RESP := 1
  TB_VERB_OFF_LOG := 3
  get_verbose_level := 0
  tb_exec_find_group_suite_or_case _ name := if name = ['t'] then .testcase else .unknown
  tb_exec_check_executable _ _ := .unknown
  calloc := true
  tmp _ := []
  level_range := by decide
  resp_range := by decide
  resp_ne := by decide

/-- `dibc t --verbose 3 --wait x`. -/
def waitCommand : List (List Char) :=
  ["dibc", "t", "--verbose", "3", "--wait", "x"].map String.toList

/-- Its record. -/
def waitArgs : CmdArgs where
  socket := 4
  verbose_level := 1
  wait_for_response := true
  extended := false
  gen_xml_file := false
  stop_on_fail := false
  loops := 1
  max_timeout := 0
  execution_time := 0
  execution_dly_time := 0
  node_name := caseBox.copyOf ['t']
  argc := 2
  argv := [caseBox.copyOf ['t'], caseBox.copyOf ['x'], caseBox.zeros]

/-- The last of the options that touch the level decides. -/
theorem launched_wellFormed_wait :
    waitArgs.WellFormed caseBox waitCommand .case ∧ true = waitArgs.wait_for_response := by
  have hparse : cmdParse caseBox waitCommand [] 4 = .launched true .case waitArgs ['t'] := rfl
  exact launched_wellFormed hparse

end Dib
