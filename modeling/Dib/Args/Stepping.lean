import Dib.Registry.Model

/-!
# Stepping through a suite

`stepmode` reads keys from the terminal of the daemon. It keeps a position in a suite and a pointer
to the case there.

* `StepState`, `switchKey`, `stepRound`: the position, and what a key does;
* `stepLoop`, `stepmode`: the loop up to the key `e`, and the settings of the terminal around it;
* `helpRuns`, `helpMove`: what the help text says of the keys;
* `StepState.At`, **`stepRound_at`**: the position and the pointer belong together, and a key does
  what the help text says;
* **`stepmode_steps`**: so does every sequence of keys;
* **`stepmode_ends_iff`**: the function ends well if there is a case and a key `e`.
-/

set_option autoImplicit false

namespace Dib

open CString

/-! ## The suite -/

def tbSuiteGetsizenode (suite : TestsuiteNod) : ℤ := suite.tests.length

def tbSuiteLookupcase (suite : TestsuiteNod) (i : ℤ) : Option TestcaseNod :=
  if 0 ≤ i then suite.tests[i.toNat]? else none

/-! ## Keys -/

/-- The locals `i` and `test`, the cases that were run and what was printed. -/
structure StepState where
  i : ℤ
  test : Option TestcaseNod
  runs : List TestcaseNod
  out : List String

/-- Ways the loop ends before the key `e`. -/
inductive StepStop where
  /-- `test` is `NULL`, and followed. -/
  | nullTest
  /-- The bound on the rounds is reached. -/
  | fuel
  deriving DecidableEq, Repr

/-- `help`. -/
def stepHelp : String :=
  "\nUSAGE:\n" ++
    "key:" ++
    " a            Run current case and step to next case\n" ++
    "     b            Run current case and step to previous case\n" ++
    "     c            Run current case\n" ++
    "     n            Step to next case\n" ++
    "     p            Step to previous case\n" ++
    "     r            Run until end of suite\n" ++
    "     e            End stepping mode\n" ++
    "     h            Print this help\n" ++
    "\n"

/-- What `tb_exec_test_function` returns, after so many calls. -/
abbrev TestRunner := ℕ → TestcaseNod → ℤ

def StepState.print (s : StepState) (text : String) : StepState := { s with out := s.out ++ [text] }

/-- The line that asks what to do with the case. -/
def announce (suite : TestsuiteNod) (s : StepState) : Except StepStop StepState :=
  match s.test with
  | none => .error .nullTest
  | some test => .ok (s.print ("Execute ->  " ++ String.ofList suite.name ++ "  " ++
      String.ofList (cstr test.name) ++ " ?\n"))

/-- The case is run, and its verdict printed. -/
def runCase (X : TestRunner) (s : StepState) : Except StepStop StepState :=
  match s.test with
  | none => .error .nullTest
  | some test =>
    let status := X s.runs.length test
    .ok ({ s with runs := s.runs ++ [test] }.print (String.ofList (cstr test.name) ++ " :: " ++
      (if status ≠ 0 then "TESTBOX_FAIL" else "TESTBOX_PASS") ++ "\n"))

/-- `i++`, which stops at the last case. -/
def stepForward (k : ℤ) (s : StepState) : StepState :=
  let s := { s with i := s.i + 1 }
  if k ≤ s.i then { s.print "End of suite.\n" with i := s.i - 1 } else s

/-- `i--`, which stops at the first case. -/
def stepBack (s : StepState) : StepState :=
  let s := { s with i := s.i - 1 }
  if s.i ≤ -1 then { s.print "Beginning of suite.\n" with i := 0 } else s

/-- The loop of the key `r`, `while (i < k)`. -/
def runToEnd (X : TestRunner) (suite : TestsuiteNod) (k : ℤ) :
    ℕ → StepState → Except StepStop StepState
  | 0, _ => .error .fuel
  | n + 1, s =>
    if s.i < k then
      match runCase X s with
      | .error e => .error e
      | .ok s =>
        let s := { s with i := s.i + 1 }
        if k ≤ s.i then .ok { s.print "End of suite.\n" with i := s.i - 1 }
        else runToEnd X suite k n { s with test := tbSuiteLookupcase suite s.i }
    else .ok s

/-- The `switch`, and whether `c` is not 0 behind it. -/
def switchKey (X : TestRunner) (suite : TestsuiteNod) (k : ℤ) (c : Option Char) (s : StepState) :
    Except StepStop (Bool × StepState) :=
  match c with
  | some 'a' => (runCase X s).map fun s => (true, stepForward k s)
  | some 'b' => (runCase X s).map fun s => (true, stepBack s)
  | some 'c' => (runCase X s).map fun s => (true, s)
  | some 'n' => .ok (true, stepForward k s)
  | some 'p' => .ok (true, stepBack s)
  | some 'r' => (runToEnd X suite k (k.toNat + 1) s).map fun s => (true, s)
  | some 'h' => .ok (true, s.print stepHelp)
  | _ => .ok (false, s)

/-- The body of the loop over the keys; `c` is 0 at first, and `none` is `EOF`. -/
def stepRound (X : TestRunner) (suite : TestsuiteNod) (k : ℤ) (c : Option Char) (s : StepState) :
    Except StepStop StepState :=
  match switchKey X suite k c s with
  | .error e => .error e
  | .ok (false, s) => .ok s
  | .ok (true, s) =>
    announce suite ({ s with test := tbSuiteLookupcase suite s.i }.print
      "--------------------------------------------------------------------------------\n")

/-! ## The loop -/

/-- `do ... while ((c = getchar()) != 'e')`, from the `pos`-th character of the input on: the states
behind each round. -/
def stepLoop (X : TestRunner) (suite : TestsuiteNod) (k : ℤ) (input : List Char) :
    ℕ → ℕ → Option Char → StepState → Except StepStop (List StepState)
  | 0, _, _, _ => .error .fuel
  | fuel + 1, pos, c, s =>
    match stepRound X suite k c s with
    | .error e => .error e
    | .ok s =>
      if input[pos]? = some 'e' then .ok [s]
      else (stepLoop X suite k input fuel (pos + 1) input[pos]? s).map (s :: ·)

/-- `struct termios`, as far as it is touched. -/
structure Termios where
  ICANON : Bool
  ECHO : Bool
  rest : ℕ
  deriving DecidableEq, Repr

/-- What a call leaves: the states behind each round, what was printed, and the settings of
standard input, if it is a terminal. -/
structure StepRun where
  states : List StepState
  out : List String
  term : Option Termios

/-- The first case, and the lines printed before it is announced. -/
def stepStart (suite : TestsuiteNod) : StepState where
  i := 0
  test := tbSuiteLookupcase suite 0
  runs := []
  out := ["Stepping in suite: [" ++ String.ofList suite.name ++ "]\n",
    "Number of testcases: [" ++ toString (tbSuiteGetsizenode suite) ++ "]\n", stepHelp]

/-- `stepmode`, in at most `fuel` rounds; `oldt` is what the static variable held before. -/
def stepmode (X : TestRunner) (suite : TestsuiteNod) (input : List Char) (term : Option Termios)
    (oldt : Termios) (fuel : ℕ) : Except StepStop StepRun :=
  let oldt := term.getD oldt
  let newt := { oldt with ICANON := false, ECHO := false }
  let term := term.map fun _ => newt
  match announce suite (stepStart suite) with
  | .error e => .error e
  | .ok s =>
    (stepLoop X suite (tbSuiteGetsizenode suite) input fuel 0 (some NUL) s).map fun states =>
      { states := states
        out := (states.getLast?.elim [] StepState.out) ++ ["Quit stepping...\n"]
        term := term.map fun _ => oldt }

/-! ## The help text -/

/-- The numbers of the cases that a key runs at case `i` of `k`, as the help text says; `none` is
the end of the input. -/
def helpRuns (k : ℕ) (key : Option Char) (i : ℕ) : List ℕ :=
  match key with
  | some 'a' | some 'b' | some 'c' => [i]
  | some 'r' => List.range' i (k - i)
  | _ => []

/-- Where it steps to. -/
def helpMove (k : ℕ) (key : Option Char) (i : ℕ) : ℕ :=
  match key with
  | some 'a' | some 'n' => min (i + 1) (k - 1)
  | some 'b' | some 'p' => i - 1
  | some 'r' => k - 1
  | _ => i

/-- Where a sequence of keys steps to. -/
def helpCursor (k : ℕ) (keys : List Char) (i : ℕ) : ℕ :=
  keys.foldl (fun i key => helpMove k (some key) i) i

/-- What it runs. -/
def helpSequence (k : ℕ) : List Char → ℕ → List ℕ
  | [], _ => []
  | key :: keys, i => helpRuns k (some key) i ++ helpSequence k keys (helpMove k (some key) i)

/-! ## One key -/

/-- **The position and the pointer belong together**, and are inside the suite. -/
structure StepState.At (suite : TestsuiteNod) (i : ℕ) (s : StepState) : Prop where
  i_eq : s.i = i
  lt : i < suite.tests.length
  test_eq : s.test = suite.tests[i]?

/-- The cases with the numbers `l` were run after `runs`. -/
def StepState.Ran (suite : TestsuiteNod) (runs : List TestcaseNod) (l : List ℕ) (s : StepState) :
    Prop :=
  s.runs.map some = runs.map some ++ l.map fun i => suite.tests[i]?

variable {X : TestRunner} {suite : TestsuiteNod} {s : StepState} {i : ℕ} {c : Option Char}
  {runs : List TestcaseNod}

theorem tbSuiteLookupcase_natCast (suite : TestsuiteNod) (i : ℕ) :
    tbSuiteLookupcase suite i = suite.tests[i]? := by
  rw [tbSuiteLookupcase, if_pos (Int.natCast_nonneg i), Int.toNat_natCast]

theorem StepState.At.exists_test (h : s.At suite i) :
    ∃ test, s.test = some test ∧ suite.tests[i]? = some test :=
  ⟨_, h.test_eq.trans (List.getElem?_eq_getElem h.lt), List.getElem?_eq_getElem h.lt⟩

theorem StepState.ran_nil (s : StepState) : s.Ran suite s.runs [] := by
  rw [StepState.Ran, List.map_nil, List.append_nil]

theorem runCase_at (X : TestRunner) (h : s.At suite i) :
    ∃ s', runCase X s = .ok s' ∧ s'.At suite i ∧ s'.Ran suite s.runs [i] := by
  obtain ⟨test, htest, hget⟩ := h.exists_test
  unfold runCase
  split
  · next hnull => cases htest.symm.trans hnull
  · next test' htest' =>
    obtain rfl := Option.some.inj (htest.symm.trans htest')
    refine ⟨_, rfl, ⟨h.i_eq, h.lt, h.test_eq⟩, ?_⟩
    simp [StepState.Ran, StepState.print, hget]

theorem announce_at (h : s.At suite i) :
    ∃ s', announce suite s = .ok s' ∧ s'.At suite i ∧ s'.runs = s.runs := by
  obtain ⟨test, htest, -⟩ := h.exists_test
  unfold announce
  split
  · next hnull => cases htest.symm.trans hnull
  · exact ⟨_, rfl, ⟨h.i_eq, h.lt, h.test_eq⟩, rfl⟩

theorem runToEnd_at (X : TestRunner) {n : ℕ} (h : s.At suite i) (hn : suite.tests.length ≤ i + n) :
    ∃ s', runToEnd X suite (tbSuiteGetsizenode suite) n s = .ok s' ∧
      s'.i = (suite.tests.length - 1 : ℕ) ∧
      s'.Ran suite s.runs (List.range' i (suite.tests.length - i)) := by
  induction n generalizing s i with
  | zero => exact absurd h.lt (Nat.not_lt.mpr hn)
  | succ n ih =>
    obtain ⟨s₁, hrun, hat, hran⟩ := runCase_at X h
    have hlt := h.lt
    have hi := hat.i_eq
    have hcond : s.i < tbSuiteGetsizenode suite := by
      rw [h.i_eq, tbSuiteGetsizenode]
      omega
    rw [runToEnd, if_pos hcond, hrun]
    dsimp only
    have hnext : s₁.i + 1 = (i + 1 : ℕ) := by omega
    by_cases hlast : suite.tests.length ≤ i + 1
    · have hone : suite.tests.length - i = 1 := by omega
      rw [if_pos (by rw [hnext, tbSuiteGetsizenode]; omega), hone]
      refine ⟨_, rfl, ?_, hran⟩
      show s₁.i + 1 - 1 = _
      omega
    · rw [if_neg (by rw [hnext, tbSuiteGetsizenode]; omega), hnext, tbSuiteLookupcase_natCast]
      have hat' : StepState.At suite (i + 1)
          { s₁ with i := (i + 1 : ℕ), test := suite.tests[i + 1]? } :=
        ⟨rfl, by omega, rfl⟩
      obtain ⟨s', hs', hi', hran'⟩ := ih hat' (by omega)
      refine ⟨s', hs', hi', ?_⟩
      have hsucc : suite.tests.length - i = suite.tests.length - (i + 1) + 1 := by omega
      rw [StepState.Ran, hsucc, List.range'_succ, List.map_cons, List.append_cons]
      rw [StepState.Ran] at hran hran'
      rw [hran']
      simp [hran]

theorem stepForward_i (h : s.At suite i) :
    (stepForward (tbSuiteGetsizenode suite) s).i = (min (i + 1) (suite.tests.length - 1) : ℕ) ∧
      (stepForward (tbSuiteGetsizenode suite) s).runs = s.runs := by
  have hi := h.i_eq
  have hlt := h.lt
  unfold stepForward tbSuiteGetsizenode
  dsimp only
  split
  · refine ⟨?_, rfl⟩
    show s.i + 1 - 1 = _
    omega
  · refine ⟨?_, rfl⟩
    show s.i + 1 = _
    omega

theorem stepBack_i (h : s.At suite i) :
    (stepBack s).i = (i - 1 : ℕ) ∧ (stepBack s).runs = s.runs := by
  have hi := h.i_eq
  unfold stepBack
  dsimp only
  split
  · refine ⟨?_, rfl⟩
    show (0 : ℤ) = _
    omega
  · refine ⟨?_, rfl⟩
    show s.i - 1 = _
    omega

/-- Where the position is behind the `switch`, and what was run; `moved` says whether `c` is not
0. -/
structure Switched (suite : TestsuiteNod) (c : Option Char) (s : StepState) (i : ℕ) (moved : Bool)
    (s' : StepState) : Prop where
  i_eq : s'.i = helpMove suite.tests.length c i
  ran : s'.Ran suite s.runs (helpRuns suite.tests.length c i)
  still : moved = false → s' = s ∧ helpMove suite.tests.length c i = i

theorem switchKey_at (X : TestRunner) (h : s.At suite i) (c : Option Char) :
    ∃ moved s', switchKey X suite (tbSuiteGetsizenode suite) c s = .ok (moved, s') ∧
      Switched suite c s i moved s' := by
  unfold switchKey
  split
  · obtain ⟨s₁, hrun, hat, hran⟩ := runCase_at X h
    obtain ⟨hi, hruns⟩ := stepForward_i hat
    refine ⟨_, _, by rw [hrun]; rfl, hi, ?_, by simp⟩
    rw [StepState.Ran, hruns]
    exact hran
  · obtain ⟨s₁, hrun, hat, hran⟩ := runCase_at X h
    obtain ⟨hi, hruns⟩ := stepBack_i hat
    refine ⟨_, _, by rw [hrun]; rfl, hi, ?_, by simp⟩
    rw [StepState.Ran, hruns]
    exact hran
  · obtain ⟨s₁, hrun, hat, hran⟩ := runCase_at X h
    exact ⟨_, _, by rw [hrun]; rfl, hat.i_eq, hran, by simp⟩
  · obtain ⟨hi, hruns⟩ := stepForward_i h
    refine ⟨_, _, rfl, hi, ?_, by simp⟩
    rw [StepState.Ran, hruns]
    exact s.ran_nil
  · obtain ⟨hi, hruns⟩ := stepBack_i h
    refine ⟨_, _, rfl, hi, ?_, by simp⟩
    rw [StepState.Ran, hruns]
    exact s.ran_nil
  · have hk : (tbSuiteGetsizenode suite).toNat = suite.tests.length := Int.toNat_natCast _
    obtain ⟨s₁, hrun, hi, hran⟩ := runToEnd_at X h (n := suite.tests.length + 1) (by omega)
    exact ⟨_, _, by rw [hk, hrun]; rfl, hi, hran, by simp⟩
  · exact ⟨_, _, rfl, h.i_eq, s.ran_nil, by simp⟩
  · next ha hb hc hn hp hr hh =>
    have hmove : helpMove suite.tests.length c i = i := by
      unfold helpMove
      split <;> simp_all
    have hruns : helpRuns suite.tests.length c i = [] := by
      unfold helpRuns
      split <;> simp_all
    refine ⟨_, _, rfl, ?_, ?_, fun _ => ⟨rfl, hmove⟩⟩
    · rw [hmove]
      exact h.i_eq
    · rw [hruns]
      exact s.ran_nil

theorem helpMove_lt {k : ℕ} (hi : i < k) (c : Option Char) : helpMove k c i < k := by
  unfold helpMove
  split <;> omega

/-- **One key** does what the help text says. -/
theorem stepRound_at (X : TestRunner) (h : s.At suite i) (c : Option Char) :
    ∃ s', stepRound X suite (tbSuiteGetsizenode suite) c s = .ok s' ∧
      s'.At suite (helpMove suite.tests.length c i) ∧
      s'.Ran suite s.runs (helpRuns suite.tests.length c i) := by
  obtain ⟨moved, s₁, hswitch, hi, hran, hstill⟩ := switchKey_at X h c
  unfold stepRound
  rw [hswitch]
  cases moved with
  | false =>
    obtain ⟨rfl, hmove⟩ := hstill rfl
    refine ⟨_, rfl, ?_, hran⟩
    rw [hmove]
    exact h
  | true =>
    have hat : StepState.At suite (helpMove suite.tests.length c i)
        ({ s₁ with test := tbSuiteLookupcase suite s₁.i }.print
          "--------------------------------------------------------------------------------\n") :=
      ⟨hi, helpMove_lt h.lt c, by
        show tbSuiteLookupcase suite s₁.i = _
        rw [hi, tbSuiteLookupcase_natCast]⟩
    obtain ⟨s', hs', hat', hruns⟩ := announce_at hat
    refine ⟨s', hs', hat', ?_⟩
    rw [StepState.Ran, hruns]
    exact hran

/-! ## Sequences of keys -/

theorem StepState.Ran.trans {s' : StepState} {l l' : List ℕ} (h : s.Ran suite runs l)
    (h' : s'.Ran suite s.runs l') : s'.Ran suite runs (l ++ l') := by
  rw [StepState.Ran] at h h' ⊢
  rw [h', h, List.map_append, List.append_assoc]

/-- **The loop** over the keys up to the first `e`, and the state behind each of them. -/
theorem stepLoop_at (X : TestRunner) {input keys rest : List Char} {pos : ℕ} (h : s.At suite i)
    (c : Option Char) (hinput : input.drop pos = keys ++ 'e' :: rest) (hkeys : 'e' ∉ keys) :
    ∃ states, stepLoop X suite (tbSuiteGetsizenode suite) input (keys.length + 1) pos c s =
        .ok states ∧ states.length = keys.length + 1 ∧
      ∀ n ≤ keys.length, ∃ s', states[n]? = some s' ∧
        s'.At suite (helpCursor suite.tests.length (keys.take n)
          (helpMove suite.tests.length c i)) ∧
        s'.Ran suite s.runs (helpRuns suite.tests.length c i ++
          helpSequence suite.tests.length (keys.take n) (helpMove suite.tests.length c i)) := by
  induction keys generalizing pos c s i with
  | nil =>
    obtain ⟨s₁, hround, hat, hran⟩ := stepRound_at X h c
    have hget : input[pos]? = some 'e' := by
      rw [← List.head?_drop, hinput]
      rfl
    refine ⟨[s₁], by rw [stepLoop, hround]; exact if_pos hget, rfl, fun n hn => ?_⟩
    obtain rfl := Nat.le_zero.mp hn
    refine ⟨s₁, rfl, hat, ?_⟩
    simpa [helpSequence] using hran
  | cons key keys ih =>
    obtain ⟨s₁, hround, hat, hran⟩ := stepRound_at X h c
    rw [List.mem_cons, not_or] at hkeys
    have hget : input[pos]? = some key := by
      rw [← List.head?_drop, hinput]
      rfl
    have hdrop : input.drop (pos + 1) = keys ++ 'e' :: rest := by
      rw [← List.tail_drop, hinput]
      rfl
    obtain ⟨states, hloop, hlen, hstates⟩ := ih hat (some key) hdrop hkeys.2
    refine ⟨s₁ :: states, ?_, by rw [List.length_cons, List.length_cons, hlen], fun n hn => ?_⟩
    · rw [List.length_cons, stepLoop, hround]
      dsimp only
      rw [hget, if_neg (by simpa using Ne.symm hkeys.1), hloop]
      rfl
    · cases n with
      | zero =>
        refine ⟨s₁, rfl, hat, ?_⟩
        simpa [helpSequence] using hran
      | succ n =>
        obtain ⟨s', hget', hat', hran'⟩ := hstates n (Nat.le_of_succ_le_succ hn)
        exact ⟨s', hget', hat', hran.trans hran'⟩

theorem exists_ok_of_map {ε α β : Type} {f : α → β} {x : Except ε α} {b : β}
    (h : x.map f = .ok b) : ∃ a, x = .ok a ∧ f a = b := by
  cases x with
  | error e => cases h
  | ok a => exact ⟨a, rfl, Except.ok.inj h⟩

theorem mem_of_stepLoop {input : List Char} {fuel pos : ℕ} {k : ℤ} {states : List StepState}
    (h : stepLoop X suite k input fuel pos c s = .ok states) : 'e' ∈ input := by
  induction fuel generalizing pos c s states with
  | zero => cases h
  | succ fuel ih =>
    rw [stepLoop] at h
    split at h
    · cases h
    split at h
    · next hget => exact List.mem_of_getElem? hget
    · obtain ⟨states', hloop, -⟩ := exists_ok_of_map h
      exact ih hloop

/-! ## The whole call -/

theorem stepStart_at (hsuite : suite.tests ≠ []) : (stepStart suite).At suite 0 :=
  ⟨rfl, List.length_pos_of_ne_nil hsuite, tbSuiteLookupcase_natCast suite 0⟩

theorem stepmode_ok (X : TestRunner) (hsuite : suite.tests ≠ []) {keys : List Char}
    (hkeys : 'e' ∉ keys) (rest : List Char) (term : Option Termios) (oldt : Termios) :
    ∃ run, stepmode X suite (keys ++ 'e' :: rest) term oldt (keys.length + 1) = .ok run ∧
      run.term = term ∧ run.states.length = keys.length + 1 ∧
      ∀ n ≤ keys.length, ∃ s, run.states[n]? = some s ∧
        s.At suite (helpCursor suite.tests.length (keys.take n) 0) ∧
        s.Ran suite [] (helpSequence suite.tests.length (keys.take n) 0) := by
  obtain ⟨s, hs, hat, hruns⟩ := announce_at (stepStart_at hsuite)
  obtain ⟨states, hloop, hlen, hstates⟩ :=
    stepLoop_at X hat (some NUL) (List.drop_zero (l := keys ++ 'e' :: rest)) hkeys
  rw [hruns] at hstates
  unfold stepmode
  rw [hs]
  dsimp only
  rw [hloop]
  refine ⟨_, rfl, ?_, hlen, hstates⟩
  cases term with
  | none => rfl
  | some t => rfl

/-- **Stepping follows its cursor.** In a suite with cases, every sequence of keys that `e` ends is
gone through; behind each of them the position is in the suite, the pointer is that of the case
there, and the cases that were run are those that the help text says. -/
theorem stepmode_steps (X : TestRunner) (hsuite : suite.tests ≠ []) {keys : List Char}
    (hkeys : 'e' ∉ keys) (rest : List Char) (term : Option Termios) (oldt : Termios) :
    ∃ fuel run, stepmode X suite (keys ++ 'e' :: rest) term oldt fuel = .ok run ∧
      run.states.length = keys.length + 1 ∧
      ∀ n ≤ keys.length, ∃ s, run.states[n]? = some s ∧
        s.At suite (helpCursor suite.tests.length (keys.take n) 0) ∧
        s.Ran suite [] (helpSequence suite.tests.length (keys.take n) 0) := by
  obtain ⟨run, hrun, -, hlen, hstates⟩ := stepmode_ok X hsuite hkeys rest term oldt
  exact ⟨_, run, hrun, hlen, hstates⟩

/-- A suite of two cases. -/
def twoCases : TestsuiteNod where
  addr := 0
  name := ['U']
  descr := []
  tests := ["t0".toList, "t1".toList].map fun name => ⟨name, [], 1, false, false, none, 1, [name]⟩

/-- Run and step, run until the end, step back. -/
theorem stepmode_steps_arp : ∃ fuel run,
    stepmode (fun _ _ => 0) twoCases ("arp".toList ++ ['e']) none ⟨true, true, 0⟩ fuel =
      .ok run ∧
    run.states.length = "arp".toList.length + 1 ∧
    ∀ n ≤ "arp".toList.length, ∃ s, run.states[n]? = some s ∧
      s.At twoCases (helpCursor twoCases.tests.length ("arp".toList.take n) 0) ∧
      s.Ran twoCases [] (helpSequence twoCases.tests.length ("arp".toList.take n) 0) :=
  stepmode_steps _ (by decide) (by decide) [] none ⟨true, true, 0⟩

example : helpSequence 2 "arp".toList 0 = [0, 1] ∧ helpCursor 2 "arp".toList 0 = 0 := by decide

/-- **Stepping ends well if and only if there is a case and a key `e`**: the function returns, the
terminal has its settings back, and no case was used that was not found. -/
theorem stepmode_ends_iff (X : TestRunner) (suite : TestsuiteNod) (input : List Char)
    (term : Option Termios) (oldt : Termios) :
    (∃ fuel run, stepmode X suite input term oldt fuel = .ok run ∧ run.term = term) ↔
      suite.tests ≠ [] ∧ 'e' ∈ input := by
  constructor
  · rintro ⟨fuel, run, hrun, -⟩
    unfold stepmode at hrun
    dsimp only at hrun
    split at hrun
    · cases hrun
    next s hs =>
    refine ⟨fun hnil => ?_, ?_⟩
    · have htest : (stepStart suite).test = none := by
        show tbSuiteLookupcase suite (0 : ℕ) = none
        rw [tbSuiteLookupcase_natCast, hnil]
        rfl
      unfold announce at hs
      rw [htest] at hs
      cases hs
    · obtain ⟨states, hloop, -⟩ := exists_ok_of_map hrun
      exact mem_of_stepLoop hloop
  · rintro ⟨hsuite, he⟩
    obtain ⟨keys, rest, rfl, hkeys⟩ := List.eq_append_cons_of_mem he
    obtain ⟨run, hrun, hterm, -⟩ := stepmode_ok X hsuite hkeys rest term oldt
    exact ⟨_, run, hrun, hterm⟩

theorem stepLoop_never_ends (X : TestRunner) {input : List Char} (h : s.At suite i)
    (he : 'e' ∉ input) (fuel pos : ℕ) (c : Option Char) :
    stepLoop X suite (tbSuiteGetsizenode suite) input fuel pos c s = .error .fuel := by
  induction fuel generalizing pos c s i with
  | zero => rfl
  | succ fuel ih =>
    obtain ⟨s₁, hround, hat, -⟩ := stepRound_at X h c
    rw [stepLoop, hround]
    dsimp only
    rw [if_neg fun hget => he (List.mem_of_getElem? hget), ih hat]
    rfl

theorem stepmode_never_ends (X : TestRunner) (hsuite : suite.tests ≠ []) {input : List Char}
    (he : 'e' ∉ input) (term : Option Termios) (oldt : Termios) (fuel : ℕ) :
    stepmode X suite input term oldt fuel = .error .fuel := by
  obtain ⟨s, hs, hat, -⟩ := announce_at (stepStart_at hsuite)
  unfold stepmode
  rw [hs]
  dsimp only
  rw [stepLoop_never_ends X hat he]
  rfl

/-- The standard input of the daemon is empty. -/
theorem stepping_never_ends :
    (∀ fuel, stepmode (fun _ _ => 0) twoCases [] none ⟨true, true, 0⟩ fuel = .error .fuel) ∧
    ¬ ∀ (X : TestRunner) (suite : TestsuiteNod) (input : List Char) (term : Option Termios)
      (oldt : Termios), ∃ fuel run, stepmode X suite input term oldt fuel = .ok run ∧
        run.term = term := by
  have hnever : ∀ fuel, stepmode (fun _ _ => 0) twoCases [] none ⟨true, true, 0⟩ fuel =
      .error .fuel :=
    stepmode_never_ends _ (by decide) List.not_mem_nil none _
  refine ⟨hnever, fun hall => ?_⟩
  obtain ⟨fuel, run, hrun, -⟩ := hall (fun _ _ => 0) twoCases [] none ⟨true, true, 0⟩
  rw [hnever] at hrun
  cases hrun

end Dib
