import Dib.Args.Times
import Dib.Args.WellFormed
import Dib.Lib.Keyed

/-!
# The order of the options

A command names a test and has options behind the name, each at most once. Its record does not
depend on their order, but for two pairs: `--verbose` and `--wait` both write the level, `--loop`
and `--exe_time` both write the number of loops, and the last one decides. Times are a third matter:
one that is not well formed is converted from what earlier calls have left in `tmp`.

* `OptionGroup`, `testCommand`, `CmdOutcome.launch`: the commands, and what is launched;
* `TimedOption`, `CmdBox.timed`: the options with what their times are converted to;
* `TimedOption.apply`, **`parseOptions_groups`**: the loop over the options as a fold;
* `rest_apply_comm`, `levels_foldl`, `loops_foldl`: what the order matters for, and what not;
* **`launch_eq_iff`**: exactly when two orders launch the same; `timed_perm`: well-formed times are
  no obstacle.
-/

set_option autoImplicit false

namespace Dib

open CString

/-! ## Statement -/

/-- An option with its value; one that has none ignores it. -/
structure OptionGroup where
  key : Keyword
  value : List Char
  deriving DecidableEq, Repr

def OptionGroup.tokens (g : OptionGroup) : List (List Char) :=
  if g.key.takesValue then [g.key.text, g.value] else [g.key.text]

/-- The command for the test `name` with these options. -/
def testCommand (prog name : List Char) (gs : List OptionGroup) : List (List Char) :=
  prog :: name :: gs.flatMap OptionGroup.tokens

/-- The handler that is launched, with its record. -/
def CmdOutcome.launch : CmdOutcome → Option (Bool × HandlerKind × CmdArgs × List Char)
  | .launched wait kind a name => some (wait, kind, a, name)
  | _ => none

def Keyword.isTime : Keyword → Bool
  | .exe_time | .exe_dly_time => true
  | _ => false

/-- An option with what `time_str_to_sec` makes of its value, if that is a time. -/
structure TimedOption extends OptionGroup where
  seconds : Option ℤ
  deriving DecidableEq, Repr

/-- The option is the argument with index `i`. -/
def OptionGroup.timed (B : CmdBox) (i : ℕ) (g : OptionGroup) : TimedOption :=
  { g with seconds := if g.key.isTime then B.seconds i g.value else none }

/-- The options from the `i`-th argument on. -/
def CmdBox.timed (B : CmdBox) : ℕ → List OptionGroup → List TimedOption
  | _, [] => []
  | i, g :: gs => g.timed B i :: B.timed (i + g.tokens.length) gs

/-- Another run, to which earlier calls have left something else in `tmp`. -/
def CmdBox.withTmp (B : CmdBox) (tmp : ℕ → List Char) : CmdBox := { B with tmp := tmp }

/-- The options that write the level. -/
def levelOptions (gs : List OptionGroup) : List OptionGroup :=
  gs.filter fun g => g.key = .verbose ∨ g.key = .wait

/-- The options that write the number of loops. -/
def loopOptions (gs : List OptionGroup) : List OptionGroup :=
  gs.filter fun g => g.key = .loop ∨ g.key = .exe_time

/-- There is memory, no utility is asked for, all values are accepted, and the arguments of the test
fit. -/
structure Admissible (B : CmdBox) (prog name : List Char) (gs : List OptionGroup) : Prop where
  calloc : B.calloc = true
  utilities : ∀ arg ∈ testCommand prog name gs, arg ∉ utilities
  accepted : ∀ x ∈ B.timed 2 gs, x.key.rejects B x.seconds x.value = none
  room : 1 + gs.countP (fun g => g.key = .maxtmo) ≤ B.TB_MAX_ARGS

/-- The command would log without a delay, more than once: the last of `--verbose` and `--wait` is
`--verbose 3`, or neither is given and 3 is the default, and there is no `--exe_dly_time`. -/
structure LogsOnly (B : CmdBox) (gs : List OptionGroup) : Prop where
  level : match (levelOptions gs).getLast? with
    | none => B.get_verbose_level = B.TB_VERB_OFF_LOG
    | some g => g.key = .verbose ∧ atoi g.value = B.TB_VERB_OFF_LOG
  delay : ∀ g ∈ gs, g.key ≠ .exe_dly_time
  repeats : ∃ g ∈ gs, g.key = .exe_time ∨ g.key = .loop ∧ atoi g.value ≠ 1

/-- The command is not refused. -/
def Launches (B : CmdBox) (prog name : List Char) (gs : List OptionGroup) : Prop :=
  Admissible B prog name gs ∧ ¬ LogsOnly B gs

/-- Both pairs of options stand in the same order, or it does not matter. -/
structure SameOrder (B : CmdBox) (gs gs' : List OptionGroup) : Prop where
  levels : levelOptions gs = levelOptions gs' ∨
    ∀ g ∈ gs, g.key = .verbose → ¬ B.Detached (atoi g.value)
  loops : loopOptions gs = loopOptions gs' ∨
    ∀ g ∈ gs, g.key = .loop → atoi g.value = 0x7fffffff

/-! ## The loop over the options -/

variable {B : CmdBox} {beyond : List Char} {s s' : ParseState} {i : ℕ} {gs gs' : List OptionGroup}
  {xs xs' : List TimedOption}

/-- What an option does to the record of a test that has been named: the value of `--maxtmo` becomes
an argument, too. -/
def TimedOption.apply (B : CmdBox) (a : CmdArgs) (x : TimedOption) : CmdArgs :=
  if x.key = .maxtmo then
    { x.key.write B x.seconds x.value a with
      argv := a.argv.modify a.argc fun dst => strncpy dst x.value (B.TB_STR_LEN - 1)
      argc := a.argc + 1 }
  else x.key.write B x.seconds x.value a

theorem map_timed (i : ℕ) (gs : List OptionGroup) :
    (B.timed i gs).map TimedOption.toOptionGroup = gs := by
  induction gs generalizing i with
  | nil => rfl
  | cons g gs ih => rw [CmdBox.timed, List.map_cons, ih, OptionGroup.timed]

theorem seconds_of_not_isTime {x : TimedOption} (hx : x ∈ B.timed i gs)
    (htime : x.key.isTime = false) : x.seconds = none := by
  induction gs generalizing i with
  | nil => cases hx
  | cons g gs ih =>
    rcases List.mem_cons.mp hx with rfl | hx
    · exact if_neg (Bool.eq_false_iff.mp htime)
    · exact ih hx

theorem parseWord_next_iff {arg : List Char} (hs : s.threadfunc ≠ none) :
    parseWord B i arg s = .next s' ↔
      s.args.argc < s.args.argv.length ∧
        s.withArgs { s.args with
          argv := s.args.argv.modify s.args.argc fun dst => strncpy dst arg (B.TB_STR_LEN - 1)
          argc := s.args.argc + 1 } = s' := by
  rw [parseWord_eq, if_neg (fun h => hs h.1), writeArg]
  split_ifs with hroom
  · simp [hroom]
  · simp [hroom]

theorem rejects_timed (g : OptionGroup) :
    g.key.rejects B (B.seconds i g.value) g.value =
      (g.timed B i).key.rejects B (g.timed B i).seconds (g.timed B i).value := by
  obtain ⟨k, value⟩ := g
  cases k <;> rfl

theorem write_timed (g : OptionGroup) (a : CmdArgs) :
    g.key.write B (B.seconds i g.value) g.value a =
      (g.timed B i).key.write B (g.timed B i).seconds (g.timed B i).value a := by
  obtain ⟨k, value⟩ := g
  cases k <;> rfl

theorem parseOptions_group (g : OptionGroup) (rest : List (List Char)) (hs : s.threadfunc ≠ none) :
    parseOptions B beyond (g.tokens ++ rest) i s = .done s' ↔
      (g.timed B i).key.rejects B (g.timed B i).seconds (g.timed B i).value = none ∧
        (g.key = .maxtmo → s.args.argc < s.args.argv.length) ∧
        parseOptions B beyond rest (i + g.tokens.length)
          (s.withArgs ((g.timed B i).apply B s.args)) = .done s' := by
  rw [TimedOption.apply, ← write_timed, ← rejects_timed]
  obtain ⟨k, value⟩ := g
  have hkey : (OptionGroup.timed B i ⟨k, value⟩).key = k := rfl
  have hvalue : (OptionGroup.timed B i ⟨k, value⟩).value = value := rfl
  rw [hkey, hvalue]
  by_cases hval : k.takesValue = true
  · have htokens : OptionGroup.tokens ⟨k, value⟩ = [k.text, value] := if_pos hval
    rw [htokens, List.cons_append, parseOptions_keyword_done (keywordOf_text k)]
    by_cases hskip : k.skips = true
    · have hk : k ≠ .maxtmo := by
        rintro rfl
        cases hskip
      simp [hskip, hk]
    · -- `--maxtmo`: its value is one more argument
      obtain rfl := Keyword.eq_maxtmo hval hskip
      refine and_congr_right fun hacc => ?_
      have hword : keywordOf value = none := keywordOf_of_maxtmo hacc
      have hthread : (s.withArgs (Keyword.maxtmo.write B (B.seconds i value) value
        s.args)).threadfunc ≠ none := hs
      rw [if_neg hskip, if_neg hskip, List.cons_append, parseOptions_word_done hword]
      show (∃ s₁, parseWord B (i + 1) value (s.withArgs (Keyword.maxtmo.write B
        (B.seconds i value) value s.args)) = .next s₁ ∧
          parseOptions B beyond rest (i + 1 + 1) s₁ = .done s') ↔ _
      simp only [parseWord_next_iff hthread, and_assoc, exists_and_left, exists_eq_left']
      exact and_congr_left' true_imp_iff.symm
  · have htokens : OptionGroup.tokens ⟨k, value⟩ = [k.text] := if_neg hval
    have hskip : k.skips ≠ true := fun hskip => hval (Keyword.takesValue_of_skips hskip)
    have hk : k ≠ .maxtmo := by
      rintro rfl
      exact hval rfl
    rw [htokens, List.cons_append, parseOptions_keyword_done (keywordOf_text k),
      Keyword.rejects_of_not_takesValue hval, Keyword.rejects_of_not_takesValue hval,
      Keyword.write_of_not_takesValue hval _ (B.seconds i value) _ value]
    simp [hskip, hk]

theorem TimedOption.argc_apply (a : CmdArgs) (x : TimedOption) :
    (x.apply B a).argc = a.argc + if x.key = .maxtmo then 1 else 0 := by
  unfold TimedOption.apply
  split_ifs <;> simp

theorem TimedOption.length_argv_apply (a : CmdArgs) (x : TimedOption) :
    (x.apply B a).argv.length = a.argv.length := by
  unfold TimedOption.apply
  split_ifs <;> simp

/-- **The loop over the options** behind the name. -/
theorem parseOptions_groups (hs : s.threadfunc ≠ none)
    (hle : s.args.argc ≤ s.args.argv.length) :
    parseOptions B beyond (gs.flatMap OptionGroup.tokens) i s = .done s' ↔
      (∀ x ∈ B.timed i gs, x.key.rejects B x.seconds x.value = none) ∧
        s.args.argc + gs.countP (fun g => g.key = .maxtmo) ≤ s.args.argv.length ∧
        s.withArgs ((B.timed i gs).foldl (TimedOption.apply B) s.args) = s' := by
  induction gs generalizing i s with
  | nil => simp [parseOptions, ParseState.withArgs, CmdBox.timed, hle]
  | cons g gs ih =>
    have hargc : (s.withArgs ((g.timed B i).apply B s.args)).args.argc = _ :=
      TimedOption.argc_apply s.args (g.timed B i)
    have hargv : (s.withArgs ((g.timed B i).apply B s.args)).args.argv.length =
      s.args.argv.length := TimedOption.length_argv_apply s.args (g.timed B i)
    have hgs := ih (s := s.withArgs ((g.timed B i).apply B s.args)) (i := i + g.tokens.length) hs
    rw [hargc, hargv] at hgs
    rw [List.flatMap_cons, parseOptions_group g _ hs, CmdBox.timed, List.forall_mem_cons,
      and_assoc, List.foldl_cons]
    refine and_congr_right fun _ => ?_
    have hkey : (g.timed B i).key = g.key := rfl
    rw [hkey] at hgs
    by_cases hk : g.key = .maxtmo
    · rw [if_pos hk] at hgs
      rw [List.countP_cons_of_pos (by simpa using hk)]
      constructor
      · rintro ⟨hroom, h⟩
        obtain ⟨h1, h2, h3⟩ := (hgs (hroom hk)).mp h
        exact ⟨h1, by omega, h3⟩
      · rintro ⟨h1, h2, h3⟩
        have hroom : s.args.argc + 1 ≤ s.args.argv.length := by omega
        exact ⟨fun _ => hroom, (hgs hroom).mpr ⟨h1, by omega, h3⟩⟩
    · rw [if_neg hk] at hgs
      rw [List.countP_cons_of_neg (by simpa using hk), hgs hle]
      exact and_iff_right fun h => absurd h hk

/-! ## Pairs of options -/

/-- What of the record is left without the levels and the number of loops. -/
def CmdArgs.rest (a : CmdArgs) : CmdArgs :=
  { a with verbose_level := 0, wait_for_response := false, loops := 0 }

def CmdArgs.levels (a : CmdArgs) : ℤ × Bool := (a.verbose_level, a.wait_for_response)

theorem CmdArgs.eq_of_parts {a a' : CmdArgs} (hrest : a.rest = a'.rest)
    (hlevels : a.levels = a'.levels) (hloops : a.loops = a'.loops) : a = a' := by
  cases a
  cases a'
  simp only [rest, levels, mk.injEq, Prod.mk.injEq] at hrest hlevels hloops ⊢
  tauto

/-- **Two different options** can be swapped, but for the levels and the number of loops. -/
theorem rest_apply_comm (a : CmdArgs) {x x' : TimedOption} (h : x.key ≠ x'.key) :
    ((x'.apply B (x.apply B a).rest)).rest = ((x.apply B (x'.apply B a).rest)).rest := by
  obtain ⟨⟨k, value⟩, sec⟩ := x
  obtain ⟨⟨k', value'⟩, sec'⟩ := x'
  cases k <;> cases k' <;> first | rfl | exact absurd rfl h

theorem rest_foldl (hperm : xs.Perm xs') (hdistinct : (xs.map fun x => x.key).Nodup)
    (a : CmdArgs) :
    (xs.foldl (TimedOption.apply B) a).rest = (xs'.foldl (TimedOption.apply B) a).rest := by
  have hrest : ∀ l : List TimedOption, (l.foldl (TimedOption.apply B) a).rest =
      l.foldl (fun r x => (x.apply B r).rest) a.rest := by
    intro l
    refine (List.foldl_hom CmdArgs.rest fun a x => ?_).symm
    obtain ⟨⟨k, value⟩, sec⟩ := x
    cases k <;> rfl
  rw [hrest, hrest]
  exact Keyed.foldl_eq_of_perm hperm hdistinct (fun a _ _ h => rest_apply_comm a h) _

/-! ## The levels and the number of loops -/

/-- What `--verbose` and `--wait` write. -/
def writeLevels (B : CmdBox) (levels : ℤ × Bool) (g : OptionGroup) : ℤ × Bool :=
  if g.key = .verbose then (atoi g.value, ¬ B.Detached (atoi g.value))
  else (if B.Detached levels.1 then B.TB_VERB_RESP else levels.1, true)

theorem levels_foldl (hgs : xs.map TimedOption.toOptionGroup = gs) (a : CmdArgs) :
    (xs.foldl (TimedOption.apply B) a).levels =
      (levelOptions gs).foldl (writeLevels B) a.levels := by
  rw [levelOptions, List.foldl_filter, ← hgs, List.foldl_map]
  refine (List.foldl_hom CmdArgs.levels fun a x => ?_).symm
  obtain ⟨⟨k, value⟩, sec⟩ := x
  cases k <;> rfl

/-- What `--loop` and `--exe_time` write. -/
def writeLoops (_ : ℤ) (g : OptionGroup) : ℤ :=
  if g.key = .loop then atoi g.value else 0x7fffffff

theorem loops_foldl (hgs : xs.map TimedOption.toOptionGroup = gs) (a : CmdArgs) :
    (xs.foldl (TimedOption.apply B) a).loops = (loopOptions gs).foldl writeLoops a.loops := by
  rw [loopOptions, List.foldl_filter, ← hgs, List.foldl_map]
  refine (List.foldl_hom CmdArgs.loops fun a x => ?_).symm
  obtain ⟨⟨k, value⟩, sec⟩ := x
  cases k <;> rfl

theorem mem_levelOptions {g : OptionGroup} :
    g ∈ levelOptions gs ↔ g ∈ gs ∧ (g.key = .verbose ∨ g.key = .wait) := by
  simp [levelOptions]

theorem mem_loopOptions {g : OptionGroup} :
    g ∈ loopOptions gs ↔ g ∈ gs ∧ (g.key = .loop ∨ g.key = .exe_time) := by
  simp [loopOptions]

theorem writeLevels_swap_iff {g g' : OptionGroup} (hg : g.key = .verbose) (hg' : g'.key = .wait)
    (levels : ℤ × Bool) :
    [g, g'].foldl (writeLevels B) levels = [g', g].foldl (writeLevels B) levels ↔
      ¬ B.Detached (atoi g.value) := by
  have hwait : g'.key ≠ .verbose := by rw [hg']; decide
  simp only [List.foldl_cons, List.foldl_nil, writeLevels, if_pos hg, if_neg hwait,
    Prod.mk.injEq]
  by_cases hd : B.Detached (atoi g.value) <;> simp [hd]

theorem level_foldl_iff (hgs : xs.map TimedOption.toOptionGroup = gs) (a : CmdArgs) :
    (xs.foldl (TimedOption.apply B) a).verbose_level = B.TB_VERB_OFF_LOG ↔
      match (levelOptions gs).getLast? with
      | none => a.verbose_level = B.TB_VERB_OFF_LOG
      | some g => g.key = .verbose ∧ atoi g.value = B.TB_VERB_OFF_LOG := by
  have h : (xs.foldl (TimedOption.apply B) a).verbose_level =
      ((levelOptions gs).foldl (writeLevels B) a.levels).1 := by
    rw [← levels_foldl hgs]
    rfl
  rw [h]
  rcases List.eq_nil_or_concat (levelOptions gs) with hnil | ⟨l, g, hl⟩
  · rw [hnil]
    rfl
  · rw [hl, List.concat_eq_append, List.foldl_append, List.getLast?_concat]
    show (writeLevels B (l.foldl (writeLevels B) a.levels) g).1 = _ ↔ _
    by_cases hg : g.key = .verbose
    · simp [writeLevels, hg]
    · rw [writeLevels, if_neg hg]
      simp only [hg, false_and, iff_false]
      split_ifs with hd
      · exact B.resp_ne.2
      · exact fun h => hd (.inr h)

section Swapped

variable (hperm : gs.Perm gs') (hdistinct : (gs.map OptionGroup.key).Nodup)
include hperm hdistinct

theorem levelOptions_swapped (hne : levelOptions gs ≠ levelOptions gs') :
    ∃ g g' : OptionGroup, g.key = .verbose ∧ g'.key = .wait ∧
      (levelOptions gs = [g, g'] ∧ levelOptions gs' = [g', g] ∨
        levelOptions gs = [g', g] ∧ levelOptions gs' = [g, g']) :=
  Keyed.swapped_of_ne (hperm.filter _) (hdistinct.sublist (List.filter_sublist.map _))
    (fun _ hg => (mem_levelOptions.mp hg).2) hne

theorem loopOptions_swapped (hne : loopOptions gs ≠ loopOptions gs') :
    ∃ g g' : OptionGroup, g.key = .loop ∧ g'.key = .exe_time ∧
      (loopOptions gs = [g, g'] ∧ loopOptions gs' = [g', g] ∨
        loopOptions gs = [g', g] ∧ loopOptions gs' = [g, g']) :=
  Keyed.swapped_of_ne (hperm.filter _) (hdistinct.sublist (List.filter_sublist.map _))
    (fun _ hg => (mem_loopOptions.mp hg).2) hne

variable (hgs : xs.map TimedOption.toOptionGroup = gs)
  (hgs' : xs'.map TimedOption.toOptionGroup = gs')
include hgs hgs'

/-- **The levels** depend on the order when nobody waits for the response at the level that
`--verbose` gives. -/
theorem levels_eq_iff (a : CmdArgs) :
    (xs.foldl (TimedOption.apply B) a).levels = (xs'.foldl (TimedOption.apply B) a).levels ↔
      levelOptions gs = levelOptions gs' ∨
        ∀ g ∈ gs, g.key = .verbose → ¬ B.Detached (atoi g.value) := by
  rw [levels_foldl hgs, levels_foldl hgs']
  by_cases heq : levelOptions gs = levelOptions gs'
  · rw [heq]
    simp
  obtain ⟨g, g', hg, hg', h⟩ := levelOptions_swapped hperm hdistinct heq
  have hne : g.key ≠ g'.key := by rw [hg, hg']; decide
  have hforall : (∀ h ∈ gs, h.key = .verbose → ¬ B.Detached (atoi h.value)) ↔
      ¬ B.Detached (atoi g.value) := by
    rw [← Keyed.forall_key_iff hne (h.imp And.left And.left)
      fun h => ¬ B.Detached (atoi h.value), hg]
    simp only [mem_levelOptions]
    exact forall_congr' fun h => by tauto
  rw [hforall, or_iff_right heq]
  rcases h with ⟨h1, h2⟩ | ⟨h1, h2⟩
  · rw [h1, h2, writeLevels_swap_iff hg hg']
  · rw [h1, h2, eq_comm, writeLevels_swap_iff hg hg']

/-- **The number of loops** depends on the order when `--loop` gives another than `--exe_time`. -/
theorem loops_eq_iff (a : CmdArgs) :
    (xs.foldl (TimedOption.apply B) a).loops = (xs'.foldl (TimedOption.apply B) a).loops ↔
      loopOptions gs = loopOptions gs' ∨
        ∀ g ∈ gs, g.key = .loop → atoi g.value = 0x7fffffff := by
  rw [loops_foldl hgs, loops_foldl hgs']
  by_cases heq : loopOptions gs = loopOptions gs'
  · rw [heq]
    simp
  obtain ⟨g, g', hg, hg', h⟩ := loopOptions_swapped hperm hdistinct heq
  have hloop : g'.key ≠ .loop := by rw [hg']; decide
  have hne : g.key ≠ g'.key := by rw [hg, hg']; decide
  have hforall : (∀ h ∈ gs, h.key = .loop → atoi h.value = 0x7fffffff) ↔
      atoi g.value = 0x7fffffff := by
    rw [← Keyed.forall_key_iff hne (h.imp And.left And.left)
      fun h => atoi h.value = 0x7fffffff, hg]
    simp only [mem_loopOptions]
    exact forall_congr' fun h => by tauto
  rw [hforall, or_iff_right heq]
  rcases h with ⟨h1, h2⟩ | ⟨h1, h2⟩
  · simp [h1, h2, writeLoops, hg, hloop, eq_comm]
  · simp [h1, h2, writeLoops, hg, hloop]

end Swapped

/-! ## Times -/

/-- The time that an option writes. -/
def Keyword.time : Keyword → CmdArgs → ℤ
  | .exe_time => CmdArgs.execution_time
  | _ => CmdArgs.execution_dly_time

section Times

variable (hdistinct : (xs.map fun x => x.key).Nodup)
  (hacc : ∀ x ∈ xs, x.key.rejects B x.seconds x.value = none)
include hdistinct hacc

/-- **The time of the record** is what the value of its option was converted to. -/
theorem seconds_of_foldl {x : TimedOption} (hx : x ∈ xs) (htime : x.key.isTime = true)
    (a : CmdArgs) :
    x.seconds = some (x.key.time (xs.foldl (TimedOption.apply B) a)) ∧
      0 < x.key.time (xs.foldl (TimedOption.apply B) a) := by
  have hk : x.key = .exe_time ∨ x.key = .exe_dly_time := by
    revert htime
    cases x.key <;> simp [Keyword.isTime]
  obtain ⟨n, hn, hpos⟩ := accepted_duration hk (hacc x hx)
  have hfold : x.key.time (xs.foldl (TimedOption.apply B) a) = x.seconds.getD 0 := by
    refine @Keyed.foldl_of_mem _ _ _ (fun x : TimedOption => x.key) _ _ _ x.key.time
      (fun x => x.seconds.getD 0) _ hdistinct hx (fun a => ?_) (fun y _ a hne => ?_) a
    · rcases hk with hk | hk <;> simp [TimedOption.apply, Keyword.time, Keyword.write, hk]
    · obtain ⟨⟨k, value⟩, sec⟩ := y
      rcases hk with hk | hk <;> rw [hk] at hne ⊢ <;> cases k <;>
        first | exact absurd rfl hne | simp [TimedOption.apply, Keyword.time, Keyword.write]
  rw [hfold, hn]
  exact ⟨rfl, hpos⟩

theorem time_eq_zero_iff {k : Keyword} (htime : k.isTime = true) {a : CmdArgs}
    (ha : k.time a = 0) :
    k.time (xs.foldl (TimedOption.apply B) a) = 0 ↔ ∀ x ∈ xs, x.key ≠ k := by
  constructor
  · rintro hzero x hx rfl
    exact (seconds_of_foldl hdistinct hacc hx htime a).2.ne' hzero
  · intro hne
    refine (@Keyed.foldl_of_forall_ne _ _ _ (fun x : TimedOption => x.key) _ _ _ k.time k
      (fun x _ a hx => ?_) hne a).trans ha
    obtain ⟨⟨k', value⟩, sec⟩ := x
    have hk : k = .exe_time ∨ k = .exe_dly_time := by
      revert htime
      cases k <;> simp [Keyword.isTime]
    rcases hk with rfl | rfl <;> cases k' <;>
      first | exact absurd rfl hx | simp [TimedOption.apply, Keyword.time, Keyword.write]

end Times

theorem mem_of_times (hgs : xs.map TimedOption.toOptionGroup = gs)
    (hgs' : xs'.map TimedOption.toOptionGroup = gs') (hperm : gs.Perm gs')
    (hdistinct : (xs.map fun x => x.key).Nodup) (hdistinct' : (xs'.map fun x => x.key).Nodup)
    (hacc : ∀ x ∈ xs, x.key.rejects B x.seconds x.value = none)
    (hacc' : ∀ x ∈ xs', x.key.rejects B x.seconds x.value = none)
    (hnone : ∀ x ∈ xs, x.key.isTime = false → x.seconds = none)
    (hnone' : ∀ x ∈ xs', x.key.isTime = false → x.seconds = none) (a : CmdArgs)
    (heq : xs.foldl (TimedOption.apply B) a = xs'.foldl (TimedOption.apply B) a)
    {x : TimedOption} (hx : x ∈ xs) : x ∈ xs' := by
  have hmem : x.toOptionGroup ∈ xs'.map TimedOption.toOptionGroup := by
    rw [hgs', ← hperm.mem_iff, ← hgs]
    exact List.mem_map_of_mem hx
  obtain ⟨x', hx', hgroup⟩ := List.mem_map.mp hmem
  have hkey : x'.key = x.key := congrArg OptionGroup.key hgroup
  have hsec : x'.seconds = x.seconds := by
    cases htime : x.key.isTime with
    | false => rw [hnone x hx htime, hnone' x' hx' (hkey ▸ htime)]
    | true =>
      rw [(seconds_of_foldl hdistinct hacc hx htime a).1,
        (seconds_of_foldl hdistinct' hacc' hx' (hkey ▸ htime) a).1, heq, hkey]
  obtain ⟨g, sec⟩ := x
  obtain ⟨g', sec'⟩ := x'
  obtain rfl : g' = g := hgroup
  obtain rfl : sec' = sec := hsec
  exact hx'

/-! ## The command -/

/-- The record when the name has been read. -/
def namedArgs (B : CmdBox) (name : List Char) (fd : ℤ) : CmdArgs where
  socket := fd
  verbose_level := B.get_verbose_level
  wait_for_response := ¬ B.Detached B.get_verbose_level
  extended := false
  gen_xml_file := false
  stop_on_fail := false
  loops := 1
  max_timeout := 0
  execution_time := 0
  execution_dly_time := 0
  node_name := B.copyOf name
  argc := 1
  argv := (List.replicate B.TB_MAX_ARGS B.zeros).modify 0 fun dst =>
    strncpy dst name (B.TB_STR_LEN - 1)

/-- The record behind the options. -/
def optionArgs (B : CmdBox) (name : List Char) (fd : ℤ) (gs : List OptionGroup) : CmdArgs :=
  (B.timed 2 gs).foldl (TimedOption.apply B) (namedArgs B name fd)

variable {prog name : List Char} {kind : HandlerKind} {fd : ℤ}

theorem launch_eq_some {c : CmdOutcome} {wait : Bool} {a : CmdArgs} {str : List Char} :
    c.launch = some (wait, kind, a, str) ↔ c = .launched wait kind a str := by
  cases c <;> simp [CmdOutcome.launch]

theorem parseWord_name {a₀ : CmdArgs} (ha₀ : creatDefaultThreadArgs B = some a₀)
    (hkind : B.kindOf 1 name = some kind) :
    parseWord B 1 name ⟨{ a₀ with socket := fd }, none, B.zeros⟩ = .next s ↔
      0 < B.TB_MAX_ARGS ∧ s = ⟨namedArgs B name fd, some kind, B.copyOf name⟩ := by
  unfold creatDefaultThreadArgs at ha₀
  obtain ⟨-, ⟨⟩⟩ := Option.ite_none_right_eq_some.mp ha₀
  rw [parseWord_eq, if_pos ⟨rfl, CmdBox.isName_of_kindOf hkind⟩, hkind, selectTest, writeArg]
  simp only [List.length_replicate]
  by_cases hroom : 0 < B.TB_MAX_ARGS
  · rw [if_pos hroom]
    simp only [OptionResult.next.injEq, hroom, true_and, eq_comm (b := s)]
    rfl
  · simp [hroom]

theorem nodup_timed (hdistinct : (gs.map OptionGroup.key).Nodup) (i : ℕ) :
    ((B.timed i gs).map fun x => x.key).Nodup := by
  have hkeys : (B.timed i gs).map (fun x => x.key) =
      ((B.timed i gs).map TimedOption.toOptionGroup).map OptionGroup.key := by
    rw [List.map_map]
    rfl
  rwa [hkeys, map_timed]

theorem loops_eq_one_iff (hdistinct : (gs.map OptionGroup.key).Nodup)
    (hexe : ∀ g ∈ gs, g.key ≠ .exe_time) :
    (optionArgs B name fd gs).loops = 1 ↔ ∀ g ∈ gs, g.key = .loop → atoi g.value = 1 := by
  rw [optionArgs, loops_foldl (map_timed 2 gs)]
  have hkeys : ((loopOptions gs).map OptionGroup.key).Nodup :=
    hdistinct.sublist (List.filter_sublist.map _)
  have honly : ∀ g ∈ loopOptions gs, g.key = .loop := fun g hg =>
    (mem_loopOptions.mp hg).2.resolve_right (hexe g (mem_loopOptions.mp hg).1)
  have hmem : ∀ g ∈ gs, g.key = .loop → g ∈ loopOptions gs := fun g hg hk =>
    mem_loopOptions.mpr ⟨hg, .inl hk⟩
  have hvalue : ∀ g ∈ loopOptions gs,
      (loopOptions gs).foldl writeLoops (namedArgs B name fd).loops = atoi g.value := by
    intro g hg
    refine Keyed.foldl_of_mem (f := writeLoops) (π := fun n => n) (v := fun g => atoi g.value)
      hkeys hg (fun n => if_pos (honly g hg)) (fun g' hg' n hne => ?_) _
    exact absurd ((honly g' hg').trans (honly g hg).symm) hne
  constructor
  · intro h g hg hk
    rw [← hvalue g (hmem g hg hk), h]
  · intro h
    cases hl : loopOptions gs with
    | nil => rfl
    | cons g l =>
      have hg : g ∈ loopOptions gs := hl ▸ List.mem_cons_self
      rw [← hl, hvalue g hg]
      exact h g (mem_loopOptions.mp hg).1 (honly g hg)

theorem logs_iff (hdistinct : (gs.map OptionGroup.key).Nodup)
    (hacc : ∀ x ∈ B.timed 2 gs, x.key.rejects B x.seconds x.value = none) :
    (optionArgs B name fd gs).verbose_level = B.TB_VERB_OFF_LOG ∧
        (optionArgs B name fd gs).execution_dly_time = 0 ∧
        ((optionArgs B name fd gs).execution_time ≠ 0 ∨ (optionArgs B name fd gs).loops ≠ 1) ↔
      LogsOnly B gs := by
  have hkeys := nodup_timed (B := B) hdistinct 2
  have hforall : ∀ k : Keyword, (∀ x ∈ B.timed 2 gs, x.key ≠ k) ↔ ∀ g ∈ gs, g.key ≠ k := by
    intro k
    conv_rhs => rw [← map_timed (B := B) 2 gs]
    rw [List.forall_mem_map]
  have hlevel : (optionArgs B name fd gs).verbose_level = B.TB_VERB_OFF_LOG ↔ _ :=
    level_foldl_iff (map_timed 2 gs) (namedArgs B name fd)
  have hdly : (optionArgs B name fd gs).execution_dly_time = 0 ↔ _ :=
    (time_eq_zero_iff (k := .exe_dly_time) (a := namedArgs B name fd) hkeys hacc rfl rfl).trans
      (hforall _)
  have hexe : (optionArgs B name fd gs).execution_time = 0 ↔ _ :=
    (time_eq_zero_iff (k := .exe_time) (a := namedArgs B name fd) hkeys hacc rfl rfl).trans
      (hforall _)
  have hrepeats : ((optionArgs B name fd gs).execution_time ≠ 0 ∨
      (optionArgs B name fd gs).loops ≠ 1) ↔
        ∃ g ∈ gs, g.key = .exe_time ∨ g.key = .loop ∧ atoi g.value ≠ 1 := by
    by_cases hg : ∀ g ∈ gs, g.key ≠ .exe_time
    · have hloops : (optionArgs B name fd gs).loops = 1 ↔ _ := loops_eq_one_iff hdistinct hg
      rw [Ne, Ne, hexe, hloops, or_iff_right (not_not_intro hg)]
      simp only [not_forall, exists_prop]
      refine exists_congr fun g => and_congr_right fun hmem => ?_
      rw [or_iff_right (hg g hmem)]
    · rw [Ne, hexe]
      obtain ⟨g, hmem, hk⟩ : ∃ g ∈ gs, g.key = .exe_time := by
        simpa only [not_forall, exists_prop, ne_eq, not_not] using hg
      exact iff_of_true (.inl hg) ⟨g, hmem, .inl hk⟩
  rw [hdly, hrepeats]
  exact ⟨fun ⟨h1, h2, h3⟩ => ⟨hlevel.mp h1, h2, h3⟩, fun ⟨h1, h2, h3⟩ => ⟨hlevel.mpr h1, h2, h3⟩⟩

theorem launch_eq_some_iff (hname : keywordOf name = none) (hkind : B.kindOf 1 name = some kind)
    (hdistinct : (gs.map OptionGroup.key).Nodup)
    {x : Bool × HandlerKind × CmdArgs × List Char} :
    (cmdParse B (testCommand prog name gs) beyond fd).launch = some x ↔
      Launches B prog name gs ∧
        ((optionArgs B name fd gs).wait_for_response, kind, optionArgs B name fd gs,
          cstr (B.copyOf name)) = x := by
  obtain ⟨wait, kind', a, str⟩ := x
  have htail : (testCommand prog name gs).tail = name :: gs.flatMap OptionGroup.tokens := rfl
  have hlen : (testCommand prog name gs).length ≠ 1 := by simp [testCommand]
  have hrows : (namedArgs B name fd).argv.length = B.TB_MAX_ARGS := by simp [namedArgs]
  rw [launch_eq_some, cmdParse_launched_iff, htail, and_iff_right hlen]
  constructor
  · rintro ⟨hutil, a₀, s, ha₀, hs, hlog, hthread, rfl, rfl, rfl⟩
    obtain ⟨s₁, hword, hs⟩ := (parseOptions_word_done hname).mp hs
    obtain ⟨hroom, rfl⟩ := (parseWord_name ha₀ hkind).mp hword
    obtain ⟨hacc, hcount, rfl⟩ :=
      (parseOptions_groups (Option.some_ne_none kind) (by rw [hrows]; exact hroom)).mp hs
    obtain rfl := Option.some.inj hthread
    have hcalloc : B.calloc = true := by
      unfold creatDefaultThreadArgs at ha₀
      exact (Option.ite_none_right_eq_some.mp ha₀).1
    exact ⟨⟨⟨hcalloc, by simpa using hutil, hacc, hrows ▸ hcount⟩,
      fun h => hlog ((logs_iff hdistinct hacc).mpr h)⟩, rfl⟩
  · rintro ⟨⟨hadm, hlog⟩, heq⟩
    simp only [Prod.mk.injEq] at heq
    obtain ⟨rfl, rfl, rfl, rfl⟩ := heq
    have hroom : 0 < B.TB_MAX_ARGS := by
      have := hadm.room
      omega
    refine ⟨by simpa using hadm.utilities, _,
      (⟨namedArgs B name fd, some kind, B.copyOf name⟩ : ParseState).withArgs
        (optionArgs B name fd gs),
      if_pos hadm.calloc, ?_, fun h => hlog ((logs_iff hdistinct hadm.accepted).mp h), rfl, rfl,
      rfl, rfl⟩
    rw [parseOptions_word_done hname]
    exact ⟨_, (parseWord_name (if_pos hadm.calloc) hkind).mpr ⟨hroom, rfl⟩,
      (parseOptions_groups (Option.some_ne_none kind) (by rw [hrows]; exact hroom)).mpr
        ⟨hadm.accepted, by rw [hrows]; exact hadm.room, rfl⟩⟩

/-! ## Two orders -/

variable {tmp : ℕ → List Char}

theorem apply_withTmp : TimedOption.apply (B.withTmp tmp) = TimedOption.apply B := by
  funext a x
  obtain ⟨⟨k, value⟩, sec⟩ := x
  cases k <;> rfl

theorem rejects_withTmp (k : Keyword) (sec : Option ℤ) (value : List Char) :
    k.rejects (B.withTmp tmp) sec value = k.rejects B sec value := by
  cases k <;> rfl

theorem optionArgs_withTmp :
    optionArgs (B.withTmp tmp) name fd gs =
      ((B.withTmp tmp).timed 2 gs).foldl (TimedOption.apply B) (namedArgs B name fd) := by
  rw [optionArgs, apply_withTmp]
  rfl

theorem admissible_iff_of_perm (hperm : gs.Perm gs')
    (htimes : (B.timed 2 gs).Perm ((B.withTmp tmp).timed 2 gs')) :
    Admissible B prog name gs ↔ Admissible (B.withTmp tmp) prog name gs' := by
  have htokens : ∀ arg, arg ∈ testCommand prog name gs ↔ arg ∈ testCommand prog name gs' :=
    fun arg => ((((hperm.flatMap_right OptionGroup.tokens).cons name).cons prog).mem_iff)
  have hacc : (∀ x ∈ B.timed 2 gs, x.key.rejects B x.seconds x.value = none) ↔
      ∀ x ∈ (B.withTmp tmp).timed 2 gs',
        x.key.rejects (B.withTmp tmp) x.seconds x.value = none := by
    simp only [rejects_withTmp, htimes.mem_iff]
  constructor
  · rintro ⟨h1, h2, h3, h4⟩
    exact ⟨h1, fun arg harg => h2 arg ((htokens arg).mpr harg), hacc.mp h3,
      hperm.countP_eq _ ▸ h4⟩
  · rintro ⟨h1, h2, h3, h4⟩
    exact ⟨h1, fun arg harg => h2 arg ((htokens arg).mp harg), hacc.mpr h3,
      (hperm.countP_eq _).symm ▸ h4⟩

theorem option_eq_iff {α : Type*} {o o' : Option α} {P P' : Prop} {v v' : α}
    (h : ∀ x, o = some x ↔ P ∧ v = x) (h' : ∀ x, o' = some x ↔ P' ∧ v' = x) :
    o = o' ↔ (P ∨ P' → P ∧ P' ∧ v = v') := by
  constructor
  · rintro rfl (hP | hP)
    · obtain ⟨hP', heq⟩ := (h' v).mp ((h v).mpr ⟨hP, rfl⟩)
      exact ⟨hP, hP', heq.symm⟩
    · obtain ⟨hP', heq⟩ := (h v').mp ((h' v').mpr ⟨hP, rfl⟩)
      exact ⟨hP', hP, heq⟩
  · intro heq
    refine Option.ext fun x => ?_
    rw [h, h']
    constructor
    · rintro ⟨hP, rfl⟩
      obtain ⟨-, hP', hv⟩ := heq (.inl hP)
      exact ⟨hP', hv.symm⟩
    · rintro ⟨hP', rfl⟩
      obtain ⟨hP, -, hv⟩ := heq (.inr hP')
      exact ⟨hP, hv⟩

/-- **The order of the options does not matter** exactly when the command is refused in both
orders, or the two pairs of options that write the same fields stand in the same order or do not
differ in what they write, and each time is converted to the same number of seconds. -/
theorem launch_eq_iff (hname : keywordOf name = none) (hkind : B.kindOf 1 name = some kind)
    (hdistinct : (gs.map OptionGroup.key).Nodup) (hperm : gs.Perm gs') :
    (cmdParse B (testCommand prog name gs) beyond fd).launch =
        (cmdParse (B.withTmp tmp) (testCommand prog name gs') beyond fd).launch ↔
      (Launches B prog name gs ∨ Launches (B.withTmp tmp) prog name gs' →
        SameOrder B gs gs' ∧ (B.timed 2 gs).Perm ((B.withTmp tmp).timed 2 gs')) := by
  have hkind' : (B.withTmp tmp).kindOf 1 name = some kind := hkind
  have hdistinct' : (gs'.map OptionGroup.key).Nodup := (hperm.map _).nodup_iff.mp hdistinct
  have hgs : (B.timed 2 gs).map TimedOption.toOptionGroup = gs := map_timed 2 gs
  have hgs' : ((B.withTmp tmp).timed 2 gs').map TimedOption.toOptionGroup = gs' := map_timed 2 gs'
  have hkeys := nodup_timed (B := B) hdistinct 2
  have hkeys' := nodup_timed (B := B.withTmp tmp) hdistinct' 2
  rw [option_eq_iff (fun x => launch_eq_some_iff hname hkind hdistinct)
    fun x => launch_eq_some_iff hname hkind' hdistinct']
  refine forall_congr' fun hany => ?_
  constructor
  · rintro ⟨⟨hadm, -⟩, ⟨hadm', -⟩, heq⟩
    simp only [Prod.mk.injEq, true_and] at heq
    have hargs := heq.2.1
    rw [optionArgs_withTmp] at hargs
    have hacc' : ∀ x ∈ (B.withTmp tmp).timed 2 gs', x.key.rejects B x.seconds x.value = none := by
      simpa only [rejects_withTmp] using hadm'.accepted
    refine ⟨⟨?_, ?_⟩, ?_⟩
    · exact (levels_eq_iff hperm hdistinct hgs hgs' _).mp (congrArg CmdArgs.levels hargs)
    · exact (loops_eq_iff hperm hdistinct hgs hgs' _).mp (congrArg CmdArgs.loops hargs)
    · rw [List.perm_ext_iff_of_nodup hkeys.of_map hkeys'.of_map]
      exact fun x => ⟨mem_of_times hgs hgs' hperm hkeys hkeys' hadm.accepted hacc'
          (fun _ => seconds_of_not_isTime) (fun _ => seconds_of_not_isTime) _ hargs,
        mem_of_times hgs' hgs hperm.symm hkeys' hkeys hacc' hadm.accepted
          (fun _ => seconds_of_not_isTime) (fun _ => seconds_of_not_isTime) _ hargs.symm⟩
  · rintro ⟨horder, htimes⟩
    have hargs : optionArgs B name fd gs = optionArgs (B.withTmp tmp) name fd gs' := by
      rw [optionArgs_withTmp]
      exact CmdArgs.eq_of_parts (rest_foldl htimes hkeys _)
        ((levels_eq_iff hperm hdistinct hgs hgs' _).mpr horder.levels)
        ((loops_eq_iff hperm hdistinct hgs hgs' _).mpr horder.loops)
    have hadm : Admissible B prog name gs ↔ Admissible (B.withTmp tmp) prog name gs' :=
      admissible_iff_of_perm hperm htimes
    have hlaunch : Launches B prog name gs ↔ Launches (B.withTmp tmp) prog name gs' := by
      unfold Launches
      rw [hadm]
      refine and_congr_right fun hadm' => not_congr ?_
      rw [← @logs_iff B gs name fd hdistinct (hadm.mpr hadm').accepted,
        ← @logs_iff (B.withTmp tmp) gs' name fd hdistinct' hadm'.accepted, hargs]
      rfl
    have hl : Launches B prog name gs := hany.elim id hlaunch.mpr
    refine ⟨hl, hlaunch.mp hl, ?_⟩
    rw [hargs]
    rfl

/-- **Times that do not depend on `tmp`** are the same in every order. -/
theorem timed_perm (hperm : gs.Perm gs')
    (htimes : ∀ g ∈ gs, g.key.isTime = true →
      ∀ t t', timeStrToSec t g.value = timeStrToSec t' g.value) (i j : ℕ) :
    (B.timed i gs).Perm ((B.withTmp tmp).timed j gs') := by
  have hone : ∀ C D : CmdBox, ∀ i j, ∀ g ∈ gs, g.timed C i = g.timed D j := by
    intro C D i j g hg
    unfold OptionGroup.timed
    split_ifs with htime
    · simp only [CmdBox.seconds, htimes g hg htime (C.tmp i) (D.tmp j)]
    · rfl
  have hmap : ∀ C : CmdBox, ∀ l ⊆ gs, ∀ i, C.timed i l = l.map fun g => g.timed B 0 := by
    intro C l
    induction l with
    | nil => exact fun _ _ => rfl
    | cons g l ih =>
      intro hl i
      rw [CmdBox.timed, List.map_cons, hone C B i 0 g (hl List.mem_cons_self),
        ih (fun g' hg' => hl (List.mem_cons_of_mem g hg'))]
  rw [hmap B gs (fun _ h => h), hmap (B.withTmp tmp) gs' (fun _ h => hperm.mem_iff.mpr h)]
  exact hperm.map _

/-- The client's name for itself. -/
def dibc : List Char := "dibc".toList

/-- `dibc t --exe_time 0:0:0:9 --xml`, and the other way round in another run. -/
theorem launch_eq_iff_xml :
    (cmdParse caseBox (testCommand dibc ['t'] [⟨.exe_time, "0:0:0:9".toList⟩, ⟨.xml, []⟩]) []
        4).launch =
      (cmdParse (caseBox.withTmp fun _ => ['7'])
        (testCommand dibc ['t'] [⟨.xml, []⟩, ⟨.exe_time, "0:0:0:9".toList⟩]) [] 4).launch := by
  have hzero : DigitField ['0'] := ⟨.inl rfl, by simp⟩
  have hnine : DigitField ['9'] := ⟨.inl rfl, by simp⟩
  have hsec := fun tmp => (timeStrToSec_of_fields hzero hzero hzero hnine tmp).1
  refine (launch_eq_iff (by decide) (rfl : caseBox.kindOf 1 ['t'] = some .case) (by decide)
    (List.Perm.swap _ _ _)).mpr fun _ => ⟨⟨.inl rfl, .inl rfl⟩,
      timed_perm (List.Perm.swap _ _ _) (fun g hg htime t t' => ?_) 2 2⟩
  rcases List.mem_pair.mp hg with rfl | rfl
  · exact (hsec t).trans (hsec t').symm
  · cases htime

/-- A text without colons is what `tmp` happens to hold: nothing, or 9 seconds. -/
example :
    (cmdParse caseBox (testCommand dibc ['t'] [⟨.exe_time, "abcd".toList⟩]) [] 4).launch.isSome =
        false ∧
      (cmdParse (caseBox.withTmp fun _ => ['9'])
        (testCommand dibc ['t'] [⟨.exe_time, "abcd".toList⟩]) [] 4).launch.isSome = true :=
  ⟨rfl, rfl⟩

/-- `--wait --verbose 0` does not wait, `--verbose 0 --wait` does. -/
theorem waitVerbose_differs :
    (cmdParse caseBox (testCommand dibc ['t'] [⟨.wait, []⟩, ⟨.verbose, ['0']⟩]) [] 4).launch.map
        Prod.fst = some false ∧
      (cmdParse caseBox (testCommand dibc ['t'] [⟨.verbose, ['0']⟩, ⟨.wait, []⟩]) [] 4).launch.map
        Prod.fst = some true :=
  ⟨rfl, rfl⟩

end Dib
