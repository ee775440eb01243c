import Dib.Args.WellFormed
import Dib.Lib.Buffer

/-!
# The command line of an executable

`tb_thread_handler_executable` appends the arguments of its record to an array of
`TB_MAX_ARGS * TB_STR_LEN` zeros.

* `catArgs`, `buildCommand`: its calls of `strcat`, with the array after each of them;
* `CmdArgs.Counted`, `parseOptions_counted`: `cmd_parse` counts no more rows than there are
  arguments;
* `catArgs_text`: the loop, from any row on; `buildCommand_text`: all calls;
* **`buildCommand_launched`**: the command line of a launched record fits into the array.
-/

set_option autoImplicit false

namespace Dib

open CString

/-! ## The calls of `strcat` -/

/-- What is in `command` at the end, and after each call of `strcat`. -/
structure CommandBuild where
  command : List Char
  arrays : List (List Char)

/-- `for (; i < data->argc; i++)`, where `n` rounds are left. -/
def catArgs (argv : List (List Char)) : ℕ → ℕ → List Char → Option CommandBuild
  | 0, _, command => some ⟨command, []⟩
  | n + 1, i, command =>
    match strcat command [' ', NUL] with
    | none => none
    | some spaced =>
      match argv[i]?.bind (strcat spaced) with
      | none => none
      | some next =>
        (catArgs argv n (i + 1) next).map fun b => ⟨b.command, spaced :: next :: b.arrays⟩

/-- The command that `tb_thread_handler_executable` builds from its record. -/
def buildCommand (B : CmdBox) (data : CmdArgs) : Option CommandBuild :=
  match data.argv[0]?.bind (strcat (List.replicate (B.TB_MAX_ARGS * B.TB_STR_LEN) NUL)) with
  | none => none
  | some command =>
    (catArgs data.argv (data.argc - 1) 1 command).map fun b => ⟨b.command, command :: b.arrays⟩

/-! ## The rows of a record -/

variable {B : CmdBox} {s s' : ParseState} {a a' : CmdArgs} {n i row : ℕ}
  {arg value beyond : List Char} {rest : List (List Char)}

/-- No more than `n` rows are in use. -/
structure CmdArgs.Counted (B : CmdBox) (n : ℕ) (a : CmdArgs) : Prop where
  argc_le : a.argc ≤ n
  rows : a.argv.length = B.TB_MAX_ARGS

theorem CmdArgs.Counted.mono {m : ℕ} (h : a.Counted B n) (hnm : n ≤ m) : a.Counted B m :=
  ⟨h.argc_le.trans hnm, h.rows⟩

theorem writeArg_counted (h : a.Counted B n) (hw : writeArg B row arg a = some a') :
    { a' with argc := a'.argc + 1 }.Counted B (n + 1) := by
  obtain ⟨-, ⟨⟩⟩ := Option.ite_none_right_eq_some.mp hw
  exact ⟨Nat.succ_le_succ h.argc_le, (List.length_modify _ _ _).trans h.rows⟩

theorem parseWord_counted (h : s.args.Counted B n)
    (hs : (parseWord B i arg s).state = some s') : s'.args.Counted B (n + 1) := by
  rw [parseWord_eq] at hs
  split at hs
  · unfold selectTest at hs
    split at hs
    · cases hs
    next a' hw =>
    obtain rfl := Option.some.inj hs
    have hname : { s.args with
        node_name := strncpy s.args.node_name arg (B.TB_STR_LEN - 1) }.Counted B n :=
      ⟨h.argc_le, h.rows⟩
    exact writeArg_counted hname hw
  · split at hs
    · cases hs
    next a' hw =>
    obtain rfl := Option.some.inj hs
    exact writeArg_counted h hw

theorem parseOption_counted (h : s.args.Counted B n)
    (hs : (parseOption B i arg value s).state = some s') : s'.args.Counted B (n + 1) := by
  cases hkey : keywordOf arg with
  | none =>
    rw [parseOption_word hkey] at hs
    exact parseWord_counted h hs
  | some k =>
    obtain rfl := keywordOf_eq_some_iff.mp hkey
    rw [parseOption_keyword] at hs
    cases hacc : k.rejects B (B.seconds i value) value with
    | some e =>
      rw [hacc] at hs
      cases hs
    | none =>
      rw [hacc] at hs
      obtain rfl : s.withArgs (k.write B (B.seconds i value) value s.args) = s' := by
        dsimp only at hs
        split_ifs at hs <;> exact Option.some.inj hs
      refine ⟨?_, ?_⟩
      · show (k.write B _ value s.args).argc ≤ n + 1
        rw [Keyword.write_argc]
        exact h.argc_le.trans (Nat.le_succ n)
      · show (k.write B _ value s.args).argv.length = _
        rw [Keyword.write_argv, h.rows]

/-- **The loop** counts no more rows than there are arguments. -/
theorem parseOptions_counted (h : s.args.Counted B n)
    (hs : parseOptions B beyond rest i s = .done s') : s'.args.Counted B (n + rest.length) := by
  induction rest, i, s using parseOptions.induct B beyond generalizing n with
  | case1 i s =>
    obtain rfl := Parsed.done.inj hs
    exact h
  | case2 arg rest i s s₁ hopt ih =>
    rw [parseOptions, hopt] at hs
    have h1 := parseOption_counted h (by rw [hopt, OptionResult.state])
    exact (ih h1 hs).mono (by rw [List.length_cons]; omega)
  | case3 arg i s s₁ hopt =>
    rw [parseOptions, hopt] at hs
    obtain rfl := Parsed.done.inj hs
    exact parseOption_counted h (by rw [hopt, OptionResult.state])
  | case4 arg i s s₁ value rest hopt ih =>
    rw [parseOptions, hopt] at hs
    have h1 := parseOption_counted h (by rw [hopt, OptionResult.state])
    exact (ih h1 hs).mono (by rw [List.length_cons, List.length_cons]; omega)
  | case5 arg rest i s e hopt =>
    rw [parseOptions, hopt] at hs
    cases hs
  | case6 arg rest i s hopt =>
    rw [parseOptions, hopt] at hs
    cases hs

theorem creatDefaultThreadArgs_counted (h : creatDefaultThreadArgs B = some a) (socket : ℤ) :
    { a with socket := socket }.Counted B 0 := by
  obtain ⟨-, ⟨⟩⟩ := Option.ite_none_right_eq_some.mp h
  exact ⟨le_rfl, List.length_replicate⟩

theorem text_of_zeroEnd {dst : List Char} (hstr : 0 < B.TB_STR_LEN) (h : B.ZeroEnd dst) :
    Text B.TB_STR_LEN (cstr dst) dst := by
  have hend : B.zeros.drop (B.TB_STR_LEN - 1) = [NUL] := by
    have hone : B.TB_STR_LEN - (B.TB_STR_LEN - 1) = 1 := by omega
    rw [CmdBox.zeros, List.drop_replicate, hone, List.replicate_one]
  rw [CmdBox.ZeroEnd, hend] at h
  have hlen := congrArg List.length h
  rw [List.length_drop, List.length_singleton] at hlen
  have hmem : NUL ∈ dst := List.mem_of_mem_drop (h ▸ List.mem_singleton_self NUL)
  have htext := text_cstr hmem
  have hsize : dst.length = B.TB_STR_LEN := by omega
  rwa [hsize] at htext

/-! ## The command line -/

/-- The array `command` holds the text `t`. -/
def CmdBox.InCommand (B : CmdBox) (t command : List Char) : Prop :=
  Text (B.TB_MAX_ARGS * B.TB_STR_LEN) t command

/-- The loop, from row `i` on: every row behind it takes `TB_STR_LEN` characters at most, with the
blank before it. -/
theorem catArgs_text {argv : List (List Char)} {t command : List Char}
    (hrows : ∀ row ∈ argv, Text B.TB_STR_LEN (cstr row) row) (hlen : i + n ≤ argv.length)
    (hmax : argv.length = B.TB_MAX_ARGS) (hcommand : B.InCommand t command)
    (ht : t.length < i * B.TB_STR_LEN) :
    ∃ b, catArgs argv n i command = some b ∧
      B.InCommand (t ++ ((argv.drop i).take n).flatMap fun row => ' ' :: cstr row) b.command ∧
      ∀ c ∈ b.arrays, ∃ t, B.InCommand t c := by
  induction n generalizing i t command with
  | zero =>
    refine ⟨_, rfl, ?_, by simp⟩
    rw [List.take_zero, List.flatMap_nil, List.append_nil]
    exact hcommand
  | succ n ih =>
    have hi : i < argv.length := by omega
    have hrow := hrows _ (List.getElem_mem hi)
    have hroom : (i + 1) * B.TB_STR_LEN ≤ B.TB_MAX_ARGS * B.TB_STR_LEN :=
      Nat.mul_le_mul_right _ (by omega)
    have hnext : (i + 1) * B.TB_STR_LEN = i * B.TB_STR_LEN + B.TB_STR_LEN := Nat.succ_mul _ _
    have hlt := hrow.lt
    have hblank : Text 2 [' '] [' ', NUL] := ⟨rfl, by decide, List.prefix_rfl⟩
    obtain ⟨spaced, hs, hspaced⟩ := strcat_text hcommand hblank
      (by rw [List.length_singleton]; omega)
    obtain ⟨next, hn, hnext'⟩ := strcat_text hspaced hrow (by
      rw [List.length_append, List.length_singleton]
      omega)
    obtain ⟨b, hb, htext, harrays⟩ := ih (i := i + 1) (by omega) hnext' (by
      rw [List.length_append, List.length_append, List.length_singleton]
      omega)
    refine ⟨⟨b.command, spaced :: next :: b.arrays⟩, ?_, ?_, ?_⟩
    · simp only [catArgs, hs, List.getElem?_eq_getElem hi, Option.bind_some, hn, hb,
        Option.map_some]
    · rw [List.drop_eq_getElem_cons hi, List.take_succ_cons, List.flatMap_cons]
      simpa using htext
    · intro c hc
      rcases List.mem_cons.mp hc with rfl | hc
      · exact ⟨_, hspaced⟩
      rcases List.mem_cons.mp hc with rfl | hc
      · exact ⟨_, hnext'⟩
      · exact harrays c hc

theorem commandLine_eq (args : List (List Char)) : commandLine args = [' '].intercalate args := by
  have hfold (t : List Char) (args : List (List Char)) :
      args.foldl (fun cmd a => cmd ++ [' '] ++ a) t = t ++ args.flatMap (' ' :: ·) := by
    induction args generalizing t with
    | nil => simp
    | cons a args ih =>
      rw [List.foldl_cons, ih, List.flatMap_cons, List.append_assoc, List.append_assoc]
      rfl
  cases args with
  | nil => rfl
  | cons t args => rw [intercalate_cons_flatMap, commandLine, hfold]

/-- **The command** for a record whose rows are strings, and which counts no more of them than it
has. -/
theorem buildCommand_text (hrows : ∀ row ∈ a.argv, Text B.TB_STR_LEN (cstr row) row)
    (hmax : a.argv.length = B.TB_MAX_ARGS) (hpos : 0 < a.argc) (hle : a.argc ≤ B.TB_MAX_ARGS) :
    ∃ b, buildCommand B a = some b ∧
      cstr b.command = [' '].intercalate ((a.argv.take a.argc).map cstr) ∧
      ∀ c ∈ b.arrays, ∃ t, B.InCommand t c := by
  have hzero : 0 < a.argv.length := by omega
  have hrow := hrows _ (List.getElem_mem hzero)
  -- the first call writes one row
  have hsize : B.TB_STR_LEN ≤ B.TB_MAX_ARGS * B.TB_STR_LEN :=
    Nat.le_mul_of_pos_left _ (by omega)
  have hlt := hrow.lt
  have hzeros : B.InCommand [] (List.replicate (B.TB_MAX_ARGS * B.TB_STR_LEN) NUL) :=
    text_zeros (by omega)
  obtain ⟨command, hcommand, hfirst⟩ := strcat_text hzeros hrow (by rw [List.length_nil]; omega)
  rw [List.nil_append] at hfirst
  have hfrom : (cstr a.argv[0]).length < 1 * B.TB_STR_LEN := by omega
  obtain ⟨b, hb, htext, harrays⟩ :=
    catArgs_text (n := a.argc - 1) hrows (by omega) hmax hfirst hfrom
  refine ⟨⟨b.command, command :: b.arrays⟩, ?_, ?_, List.forall_mem_cons.mpr ⟨⟨_, hfirst⟩, harrays⟩⟩
  · simp only [buildCommand, List.getElem?_eq_getElem hzero, Option.bind_some, hcommand, hb,
      Option.map_some]
  · obtain ⟨n, hn⟩ : ∃ n, a.argc = n + 1 := ⟨a.argc - 1, by omega⟩
    obtain ⟨row, rows, hargv⟩ := List.exists_cons_of_length_pos hzero
    rw [htext.cstr_eq, hn]
    simp only [hargv, Nat.add_sub_cancel, List.take_succ_cons, List.map_cons,
      intercalate_cons_flatMap, List.flatMap_map, List.getElem_cons_zero, List.drop_one,
      List.tail_cons]

/-- **The command line of an executable.** `cmd_parse` counts no more arguments than the record has
rows for; the handler joins them by single blanks, and all that it writes to `command` stays there
with its terminator. -/
theorem buildCommand_launched {argv : List (List Char)} {socket : ℤ} {wait : Bool}
    {name : List Char} (hstr : 0 < B.TB_STR_LEN) (hcount : argv.length ≤ B.TB_MAX_ARGS)
    (h : cmdParse B argv beyond socket = .launched wait .executable a name) :
    a.argc ≤ B.TB_MAX_ARGS ∧
      ∃ b, buildCommand B a = some b ∧
        cstr b.command = [' '].intercalate ((a.argv.take a.argc).map cstr) ∧
        cstr b.command = commandLine a.toThreadArgs.argv ∧
        ∀ c ∈ b.arrays, c.length = B.TB_MAX_ARGS * B.TB_STR_LEN ∧
          (cstr c).length + 1 ≤ B.TB_MAX_ARGS * B.TB_STR_LEN := by
  obtain ⟨hone, -, a₀, s, ha₀, hs, -, hkind, rfl, -, -⟩ := cmdParse_launched_iff.mp h
  have hinv := parseOptions_inv (creatDefaultThreadArgs_inv ha₀ socket) List.drop_one hs
  have hargc := (hinv.named _ hkind).argc
  have hcounted := parseOptions_counted (creatDefaultThreadArgs_counted ha₀ socket) hs
  have hrows : ∀ row ∈ s.args.argv, Text B.TB_STR_LEN (cstr row) row := fun row hrow =>
    text_of_zeroEnd hstr (hinv.row_end row hrow)
  have hle : s.args.argc ≤ B.TB_MAX_ARGS := by
    have htail := hcounted.argc_le
    rw [List.length_tail] at htail
    omega
  obtain ⟨b, hb, hjoin, harrays⟩ := buildCommand_text hrows hcounted.rows (by omega) hle
  refine ⟨hle, b, hb, hjoin, ?_, fun c hc => ?_⟩
  · rw [commandLine_eq]
    exact hjoin
  · obtain ⟨t, ht⟩ := harrays c hc
    exact ⟨ht.length_eq, by rw [ht.cstr_eq]; exact ht.lt⟩

/-- A box whose every file can be executed. -/
def execBox : CmdBox :=
  { caseBox with
    tb_exec_find_group_suite_or_case := fun _ _ => .unknown
    tb_exec_check_executable := fun _ _ => .exec }

/-- `dibc ls -l`. -/
def lsCommand : List (List Char) := ["dibc", "ls", "-l"].map String.toList

/-- Its record. -/
def lsArgs : CmdArgs where
  socket := 4
  verbose_level := 0
  wait_for_response := false
  extended := false
  gen_xml_file := false
  stop_on_fail := false
  loops := 1
  max_timeout := 0
  execution_time := 0
  execution_dly_time := 0
  node_name := execBox.copyOf "ls".toList
  argc := 2
  argv := [execBox.copyOf "ls".toList, execBox.copyOf "-l".toList, execBox.zeros]

theorem buildCommand_launched_ls : lsArgs.argc ≤ execBox.TB_MAX_ARGS ∧
    ∃ b, buildCommand execBox lsArgs = some b ∧
      cstr b.command = [' '].intercalate ((lsArgs.argv.take lsArgs.argc).map cstr) ∧
      cstr b.command = commandLine lsArgs.toThreadArgs.argv ∧
      ∀ c ∈ b.arrays, c.length = execBox.TB_MAX_ARGS * execBox.TB_STR_LEN ∧
        (cstr c).length + 1 ≤ execBox.TB_MAX_ARGS * execBox.TB_STR_LEN := by
  have hparse : cmdParse execBox lsCommand [] 4 = .launched false .executable lsArgs "ls".toList :=
    rfl
  exact buildCommand_launched (by decide) (by decide) hparse

end Dib
