import Dib.Args.Model

/-!
# The options, one by one

The loop of `cmd_parse` over the arguments compares each with the keywords, one after the other.
Here the keywords are a type, and what each does is in two parts: whether its value is rejected, and
what is written to the record.

* `Keyword`, `Keyword.rejects`, `Keyword.write`, `Keyword.skips`: the keywords;
* **`parseOption_keyword`**, `parseOption_word`: the body of the loop in these terms;
* `parseOptions_keyword`, `parseOptions_word`: one round of the loop;
* `CmdBox.IsName`, `CmdBox.kindOf`, `parseWord_eq`: what an argument does that is not an option;
* `parseOptions_keeps`: what every argument keeps;
* `Reaches`, `parseOptions_of_reaches`: the loop as far as a later argument;
* `CmdError.Justified`, `justified_of_parseOptions`: an error comes of a value that is out of range;
* `accepted_duration`: an accepted time is positive;
* **`cmdParse_launched_iff`**: the command around the loop.
-/

set_option autoImplicit false

namespace Dib

open CString

/-- The options of a test. -/
inductive Keyword where
  | verbose
  | extend
  | extended
  | xml
  | loop
  | stoponfail
  | wait
  | maxtmo
  | exe_time
  | exe_dly_time
  deriving DecidableEq, Repr

namespace Keyword

def text : Keyword → List Char
  | verbose => "--verbose".toList
  | extend => "--extend".toList
  | extended => "--extended".toList
  | xml => "--xml".toList
  | loop => "--loop".toList
  | stoponfail => "--stoponfail".toList
  | wait => "--wait".toList
  | maxtmo => "--maxtmo".toList
  | exe_time => "--exe_time".toList
  | exe_dly_time => "--exe_dly_time".toList

def takesValue : Keyword → Bool
  | verbose | loop | maxtmo | exe_time | exe_dly_time => true
  | _ => false

/-- `i++`: the loop does not look at the value as an argument. -/
def skips : Keyword → Bool
  | verbose | loop | exe_time | exe_dly_time => true
  | _ => false

theorem eq_maxtmo {k : Keyword} (hval : k.takesValue = true) (hskip : k.skips ≠ true) :
    k = maxtmo := by
  revert hval hskip
  cases k <;> decide

theorem takesValue_of_skips {k : Keyword} (h : k.skips = true) : k.takesValue = true := by
  revert h
  cases k <;> decide

variable (B : CmdBox) (sec : Option ℤ) (value : List Char)

/-- The check of the value, of which `time_str_to_sec` makes `sec`. -/
def rejects : Keyword → Option CmdError
  | verbose =>
    if atoi value < B.TB_VERB_OFF ∨ B.TB_VERB_OFF_LOG < atoi value then
      some (.verbose (atoi value))
    else none
  | loop => if atoi value ≤ 0 then some (.loop (atoi value)) else none
  | maxtmo => if atoi value ≤ 0 then some (.maxtmo (atoi value)) else none
  | exe_time =>
    match sec with
    | none => some .exe_time_usage
    | some sec => if sec ≤ 0 then some (.exe_time sec) else none
  | exe_dly_time =>
    match sec with
    | none => some .exe_dly_time_usage
    | some sec => if sec ≤ 0 then some (.exe_dly_time sec) else none
  | _ => none

/-- The record with the option. -/
def write (a : CmdArgs) : Keyword → CmdArgs
  | verbose =>
    { a with verbose_level := atoi value, wait_for_response := ¬ B.Detached (atoi value) }
  | extend | extended => { a with extended := true }
  | xml => { a with gen_xml_file := true }
  | loop => { a with loops := atoi value }
  | stoponfail => { a with stop_on_fail := true }
  | wait =>
    { a with
      wait_for_response := true
      verbose_level := if B.Detached a.verbose_level then B.TB_VERB_RESP else a.verbose_level }
  | maxtmo => { a with max_timeout := atoi value }
  | exe_time => { a with execution_time := sec.getD 0, loops := 0x7fffffff }
  | exe_dly_time => { a with execution_dly_time := sec.getD 0 }

variable {B sec} {k : Keyword}

theorem rejects_of_not_takesValue (h : k.takesValue ≠ true) (sec : Option ℤ) (value : List Char) :
    k.rejects B sec value = none := by
  revert h
  cases k <;> first | exact fun _ => rfl | exact fun h => absurd rfl h

theorem write_of_not_takesValue (h : k.takesValue ≠ true) (sec sec' : Option ℤ)
    (value value' : List Char) (a : CmdArgs) :
    k.write B sec value a = k.write B sec' value' a := by
  revert h
  cases k <;> first | exact fun _ => rfl | exact fun h => absurd rfl h

end Keyword

/-- The keyword that an argument is. -/
def keywordOf (arg : List Char) : Option Keyword :=
  [.verbose, .extend, .extended, .xml, .loop, .stoponfail, .wait, .maxtmo, .exe_time,
    .exe_dly_time].find? fun k => k.text = arg

variable {B : CmdBox} {beyond : List Char} {s : ParseState} {i : ℕ}

theorem keywordOf_text (k : Keyword) : keywordOf k.text = some k := by
  cases k <;> decide

theorem keywordOf_eq_some_iff {arg : List Char} {k : Keyword} :
    keywordOf arg = some k ↔ arg = k.text := by
  constructor
  · intro h
    have htext := List.find?_some h
    exact (of_decide_eq_true htext).symm
  · rintro rfl
    exact keywordOf_text k

theorem keywordOf_eq_none_iff {arg : List Char} :
    keywordOf arg = none ↔ ∀ k : Keyword, arg ≠ k.text := by
  rw [Option.eq_none_iff_forall_ne_some]
  simp only [ne_eq, keywordOf_eq_some_iff]

/-- The state with another record. -/
def ParseState.withArgs (s : ParseState) (a : CmdArgs) : ParseState := { s with args := a }

/-- What `time_str_to_sec` makes of the value behind the argument with index `i`. -/
def CmdBox.seconds (B : CmdBox) (i : ℕ) (value : List Char) : Option ℤ :=
  timeStrToSec (B.tmp i) value

/-- **The body of the loop** at an option. -/
theorem parseOption_keyword (i : ℕ) (k : Keyword) (value : List Char) (s : ParseState) :
    parseOption B i k.text value s =
      match k.rejects B (B.seconds i value) value with
      | some e => .abort e
      | none =>
        if k.skips then .skip (s.withArgs (k.write B (B.seconds i value) value s.args))
        else .next (s.withArgs (k.write B (B.seconds i value) value s.args)) := by
  cases k with
  | verbose =>
    rw [parseOption, if_pos]
    · by_cases h : atoi value < B.TB_VERB_OFF ∨ B.TB_VERB_OFF_LOG < atoi value
      · simp only [Keyword.rejects, if_pos h]
      · simp only [Keyword.rejects, if_neg h]
        rfl
    · decide
  | extend =>
    rw [parseOption, if_neg, if_pos]
    · rfl
    all_goals decide
  | extended =>
    rw [parseOption, if_neg, if_pos]
    · rfl
    all_goals decide
  | xml =>
    rw [parseOption, if_neg, if_neg, if_pos]
    · rfl
    all_goals decide
  | loop =>
    rw [parseOption, if_neg, if_neg, if_neg, if_pos]
    · by_cases h : atoi value ≤ 0
      · simp only [Keyword.rejects, if_pos h]
      · simp only [Keyword.rejects, if_neg h]
        rfl
    all_goals decide
  | stoponfail =>
    rw [parseOption, if_neg, if_neg, if_neg, if_neg, if_pos]
    · rfl
    all_goals decide
  | wait =>
    rw [parseOption, if_neg, if_neg, if_neg, if_neg, if_neg, if_pos]
    · rfl
    all_goals decide
  | maxtmo =>
    rw [parseOption, if_neg, if_neg, if_neg, if_neg, if_neg, if_neg, if_pos]
    · by_cases h : atoi value ≤ 0
      · simp only [Keyword.rejects, if_pos h]
      · simp only [Keyword.rejects, if_neg h]
        rfl
    all_goals decide
  | exe_time =>
    rw [parseOption, if_neg, if_neg, if_neg, if_neg, if_neg, if_neg, if_neg, if_pos]
    · rw [CmdBox.seconds]
      cases timeStrToSec (B.tmp i) value with
      | none => rfl
      | some sec =>
        by_cases h : sec ≤ 0
        · simp only [Keyword.rejects, if_pos h]
        · simp only [Keyword.rejects, if_neg h]
          rfl
    all_goals decide
  | exe_dly_time =>
    rw [parseOption, if_neg, if_neg, if_neg, if_neg, if_neg, if_neg, if_neg, if_neg, if_pos]
    · rw [CmdBox.seconds]
      cases timeStrToSec (B.tmp i) value with
      | none => rfl
      | some sec =>
        by_cases h : sec ≤ 0
        · simp only [Keyword.rejects, if_pos h]
        · simp only [Keyword.rejects, if_neg h]
          rfl
    all_goals decide

theorem parseOption_word {arg : List Char} (h : keywordOf arg = none) (i : ℕ)
    (value : List Char) (s : ParseState) : parseOption B i arg value s = parseWord B i arg s := by
  rw [keywordOf_eq_none_iff] at h
  have h2 : ¬ (arg = "--extend".toList ∨ arg = "--extended".toList) := by
    rintro (rfl | rfl)
    · exact h .extend rfl
    · exact h .extended rfl
  rw [parseOption, if_neg, if_neg h2, if_neg, if_neg, if_neg, if_neg, if_neg, if_neg, if_neg]
  exacts [h .exe_dly_time, h .exe_time, h .maxtmo, h .wait, h .stoponfail, h .loop, h .xml,
    h .verbose]

/-! ## The loop -/

/-- **One round** at an option. -/
theorem parseOptions_keyword (k : Keyword) (rest : List (List Char)) (i : ℕ) (s : ParseState) :
    parseOptions B beyond (k.text :: rest) i s =
      match k.rejects B (B.seconds i (rest.head?.getD beyond)) (rest.head?.getD beyond) with
      | some e => .abort e
      | none =>
        parseOptions B beyond (if k.skips then rest.tail else rest)
          (if k.skips then i + 2 else i + 1)
          (s.withArgs (k.write B (B.seconds i (rest.head?.getD beyond)) (rest.head?.getD beyond)
            s.args)) := by
  rw [parseOptions, parseOption_keyword]
  cases k.rejects B (B.seconds i (rest.head?.getD beyond)) (rest.head?.getD beyond) with
  | some e => rfl
  | none =>
    cases hk : k.skips with
    | false => simp only [if_neg Bool.false_ne_true]
    | true =>
      cases rest with
      | nil => simp only [if_true, List.tail_nil, parseOptions]
      | cons value rest => simp only [if_true, List.tail_cons]

/-! ## Arguments that are not options -/

/-- The argument with index `i` is looked upon as the name of something to run. -/
def CmdBox.IsName (B : CmdBox) (i : ℕ) (arg : List Char) : Prop :=
  B.tb_exec_find_group_suite_or_case i arg ≠ .unknown ∨ B.tb_exec_check_executable i arg ≠ .unknown

instance (B : CmdBox) (i : ℕ) (arg : List Char) : Decidable (B.IsName i arg) :=
  inferInstanceAs (Decidable (_ ∨ _))

/-- The handler of what it names. -/
def CmdBox.kindOf (B : CmdBox) (i : ℕ) (arg : List Char) : Option HandlerKind :=
  if B.tb_exec_find_group_suite_or_case i arg ≠ .unknown then
    (B.tb_exec_find_group_suite_or_case i arg).handler
  else if B.tb_exec_check_executable i arg = .exec then some .executable
  else none

theorem CmdBox.isName_of_kindOf {arg : List Char} {kind : HandlerKind}
    (h : B.kindOf i arg = some kind) : B.IsName i arg := by
  unfold CmdBox.kindOf at h
  split_ifs at h with h1 h2
  · exact .inl h1
  · exact .inr (by rw [h2]; decide)

/-- What such an argument does to the record: it is a name, when none was found before, or one more
argument of the test. -/
theorem parseWord_eq (i : ℕ) (arg : List Char) (s : ParseState) :
    parseWord B i arg s =
      if s.threadfunc = none ∧ B.IsName i arg then selectTest B arg (B.kindOf i arg) s
      else
        match writeArg B s.args.argc arg s.args with
        | none => .fault
        | some a => .next (s.withArgs { a with argc := a.argc + 1 }) := by
  unfold parseWord
  by_cases hnone : s.threadfunc = none
  · by_cases hfind : B.tb_exec_find_group_suite_or_case i arg ≠ .unknown
    · rw [if_pos ⟨hnone, hfind⟩, if_pos ⟨hnone, .inl hfind⟩, CmdBox.kindOf, if_pos hfind]
    · rw [if_neg (fun h => hfind h.2)]
      by_cases hcheck : B.tb_exec_check_executable i arg ≠ .unknown
      · have hname : s.threadfunc = none ∧ B.IsName i arg := ⟨hnone, .inr hcheck⟩
        rw [if_pos ⟨hnone, hcheck⟩, if_pos hname, CmdBox.kindOf, if_neg hfind]
      · rw [if_neg (fun h => hcheck h.2), if_neg (fun h => h.2.elim hfind hcheck)]
        rfl
  · rw [if_neg (fun h => hnone h.1), if_neg (fun h => hnone h.1), if_neg (fun h => hnone h.1)]
    rfl

theorem parseWord_cases (i : ℕ) (arg : List Char) (s : ParseState) :
    parseWord B i arg s = .fault ∨ ∃ s', parseWord B i arg s = .next s' := by
  rw [parseWord_eq]
  by_cases h : s.threadfunc = none ∧ B.IsName i arg
  · rw [if_pos h, selectTest]
    split
    · exact .inl rfl
    · exact .inr ⟨_, rfl⟩
  · rw [if_neg h]
    split
    · exact .inl rfl
    · exact .inr ⟨_, rfl⟩

theorem parseOptions_word {arg : List Char} (h : keywordOf arg = none) (rest : List (List Char))
    (i : ℕ) (s : ParseState) :
    parseOptions B beyond (arg :: rest) i s =
      match parseWord B i arg s with
      | .next s => parseOptions B beyond rest (i + 1) s
      | _ => .fault := by
  rw [parseOptions, parseOption_word h]
  rcases parseWord_cases (B := B) i arg s with hw | ⟨s', hw⟩
  · rw [hw]
  · rw [hw]

theorem parseOptions_keyword_done {arg : List Char} {k : Keyword} {rest : List (List Char)}
    {s' : ParseState} (h : keywordOf arg = some k) :
    parseOptions B beyond (arg :: rest) i s = .done s' ↔
      k.rejects B (B.seconds i (rest.head?.getD beyond)) (rest.head?.getD beyond) = none ∧
        parseOptions B beyond (if k.skips then rest.tail else rest)
          (if k.skips then i + 2 else i + 1)
          (s.withArgs (k.write B (B.seconds i (rest.head?.getD beyond)) (rest.head?.getD beyond)
            s.args)) = .done s' := by
  obtain rfl := keywordOf_eq_some_iff.mp h
  rw [parseOptions_keyword]
  cases k.rejects B (B.seconds i (rest.head?.getD beyond)) (rest.head?.getD beyond) <;> simp

theorem parseOptions_word_done {arg : List Char} {rest : List (List Char)} {s' : ParseState}
    (h : keywordOf arg = none) :
    parseOptions B beyond (arg :: rest) i s = .done s' ↔
      ∃ s₁, parseWord B i arg s = .next s₁ ∧ parseOptions B beyond rest (i + 1) s₁ = .done s' := by
  rw [parseOptions_word h]
  rcases parseWord_cases (B := B) i arg s with hw | ⟨s₁, hw⟩
  · simp [hw]
  · simp [hw]

/-- The state that an argument leads to, if there is one. -/
def OptionResult.state : OptionResult → Option ParseState
  | .next s | .skip s => some s
  | .abort _ | .fault => none

/-- **What every argument keeps, the loop keeps.** -/
theorem parseOptions_keeps {I : ParseState → Prop} {rest : List (List Char)} {s' : ParseState}
    (hkeep : ∀ i, ∀ arg ∈ rest, ∀ value s s', I s →
      (parseOption B i arg value s).state = some s' → I s')
    (hs : I s) (h : parseOptions B beyond rest i s = .done s') : I s' := by
  induction rest, i, s using parseOptions.induct B beyond with
  | case1 i s =>
    obtain rfl := Parsed.done.inj h
    exact hs
  | case2 arg rest i s s₁ hopt ih =>
    rw [parseOptions, hopt] at h
    exact ih (fun i a ha => hkeep i a (List.mem_cons_of_mem _ ha))
      (hkeep _ _ List.mem_cons_self _ _ _ hs (by rw [hopt, OptionResult.state])) h
  | case3 arg i s s₁ hopt =>
    rw [parseOptions, hopt] at h
    obtain rfl := Parsed.done.inj h
    exact hkeep _ _ List.mem_cons_self _ _ _ hs (by rw [hopt, OptionResult.state])
  | case4 arg i s s₁ value rest hopt ih =>
    rw [parseOptions, hopt] at h
    exact ih (fun i a ha => hkeep i a (List.mem_cons_of_mem _ (List.mem_cons_of_mem _ ha)))
      (hkeep _ _ List.mem_cons_self _ _ _ hs (by rw [hopt, OptionResult.state])) h
  | case5 arg rest i s e hopt =>
    rw [parseOptions, hopt] at h
    cases h
  | case6 arg rest i s hopt =>
    rw [parseOptions, hopt] at h
    cases h

/-- A keyword is not a number that `--maxtmo` accepts, so that value is never an option. -/
theorem keywordOf_of_maxtmo {sec : Option ℤ} {value : List Char}
    (h : Keyword.maxtmo.rejects B sec value = none) : keywordOf value = none := by
  rw [keywordOf_eq_none_iff]
  rintro k rfl
  have hneg : atoi k.text ≤ 0 := by cases k <;> decide
  rw [Keyword.rejects, if_pos hneg] at h
  cases h

theorem accepted_duration {k : Keyword} (hk : k = .exe_time ∨ k = .exe_dly_time)
    {sec : Option ℤ} {value : List Char} (h : k.rejects B sec value = none) :
    ∃ n, sec = some n ∧ 0 < n := by
  cases sec with
  | none => rcases hk with rfl | rfl <;> cases h
  | some n =>
    refine ⟨n, rfl, ?_⟩
    rcases hk with rfl | rfl <;> simpa [Keyword.rejects] using h

variable (k : Keyword) (sec : Option ℤ) (value : List Char) (a : CmdArgs)

@[simp] theorem Keyword.write_argc : (k.write B sec value a).argc = a.argc := by cases k <;> rfl

@[simp] theorem Keyword.write_argv : (k.write B sec value a).argv = a.argv := by cases k <;> rfl

@[simp] theorem Keyword.write_node_name : (k.write B sec value a).node_name = a.node_name := by
  cases k <;> rfl

/-! ## The launch -/

/-- **What is launched**: the record that the loop leaves, if it has a handler and does not log
without a delay. -/
theorem cmdParse_launched_iff {argv : List (List Char)} {fd : ℤ} {wait : Bool}
    {kind : HandlerKind} {a : CmdArgs} {name : List Char} :
    cmdParse B argv beyond fd = .launched wait kind a name ↔
      argv.length ≠ 1 ∧ argv.find? (· ∈ utilities) = none ∧
      ∃ a₀ s, creatDefaultThreadArgs B = some a₀ ∧
        parseOptions B beyond argv.tail 1 ⟨{ a₀ with socket := fd }, none, B.zeros⟩ = .done s ∧
        ¬ (s.args.verbose_level = B.TB_VERB_OFF_LOG ∧ s.args.execution_dly_time = 0 ∧
          (s.args.execution_time ≠ 0 ∨ s.args.loops ≠ 1)) ∧
        s.threadfunc = some kind ∧ s.args = a ∧ s.args.wait_for_response = wait ∧
        cstr s.str = name := by
  unfold cmdParse
  constructor
  · intro h
    split at h
    · cases h
    next hlen =>
    split at h
    · cases h
    next hutil =>
    split at h
    · cases h
    next a₀ ha₀ =>
    split at h
    · cases h
    · cases h
    next s hs =>
    split at h
    · cases h
    next hlog =>
    split at h
    · cases h
    next kind' hkind =>
    cases h
    exact ⟨hlen, hutil, a₀, s, ha₀, hs, hlog, hkind, rfl, rfl, rfl⟩
  · rintro ⟨hlen, hutil, a₀, s, ha₀, hs, hlog, hkind, rfl, rfl, rfl⟩
    rw [if_neg hlen, hutil]
    dsimp only
    rw [ha₀]
    dsimp only
    rw [hs]
    dsimp only
    rw [if_neg hlog, hkind]

end Dib
