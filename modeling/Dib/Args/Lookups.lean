import Dib.Args.Options
import Dib.Args.Utilities
import Dib.Args.Startup
import Dib.Wire.Delivery

/-!
# Which arguments are looked at

`cmd_parse`, `startup_args` and `main` of `dibc` look at the argument behind an option, most of them
without asking whether there is one.

* `Utility.looks`, `utilitiesLooked`, `optionsLooked`, `cmdParseLooked`: the indices of the
  arguments that `cmd_parse` looks at; `packLooked`: those of `main`;
* `Dangles`: the loop over the options comes to an option with a value as the last argument;
* `utilities_looked_iff`, `options_looked_iff`, `pack_looked_iff`: when all of them are there;
* **`looked_iff`**: the three programs together.
-/

set_option autoImplicit false

namespace Dib

open CString Framing

/-! ## Indices -/

/-- The branch of a utility that was found at `i` looks at the argument behind it. -/
def Utility.looks (argc i : ℕ) : Utility → Bool
  | clear | descr | kill | group_from_file | loadlib | unloadlib | xml_file => true
  | list => i + 1 < argc
  | step | log_level | verbose_level => argc = 3
  | find => 2 < argc
  | help | status | examples | listlib | log_read | log_clear => false

/-- A utility that makes no sense without its value; `--list` does. -/
def Utility.needsValue : Utility → Bool
  | clear | descr | kill | step | group_from_file | loadlib | unloadlib | find | log_level
  | verbose_level | xml_file => true
  | _ => false

/-- The loop that looks for a utility. -/
def utilitiesLooked (argc : ℕ) : List (List Char) → ℕ → List ℕ
  | [], _ => []
  | arg :: rest, i =>
    i :: match utilityOf arg with
      | some u => if u.looks argc i then [i + 1] else []
      | none => utilitiesLooked argc rest (i + 1)

def optionsLooked (B : CmdBox) (beyond : List Char) : List (List Char) → ℕ → ParseState → List ℕ
  | [], _, _ => []
  | arg :: rest, i, s =>
    (if (keywordOf arg).any Keyword.takesValue then [i, i + 1] else [i]) ++
      match parseOption B i arg (rest.head?.getD beyond) s with
      | .next s => optionsLooked B beyond rest (i + 1) s
      | .skip s =>
        match rest with
        | [] => []
        | _ :: rest => optionsLooked B beyond rest (i + 2) s
      | .abort _ => []
      | .fault => []

/-- **`cmd_parse`.** -/
def cmdParseLooked (B : CmdBox) (argv : List (List Char)) (beyond : List Char)
    (client_sock_fd : ℤ) : List ℕ :=
  if argv.length = 1 then []
  else
    utilitiesLooked argv.length argv 0 ++
      match utilityAt argv with
      | some _ => []
      | none =>
        match creatDefaultThreadArgs B with
        | none => []
        | some a =>
          optionsLooked B beyond argv.tail 1 ⟨{ a with socket := client_sock_fd }, none, B.zeros⟩

/-- **`main` of `dibc`**: an invalid socket type ends the program, a write outside `pBuf` does
not. -/
def packLooked : List (List Char) → ℕ → List ℕ
  | [], _ => []
  | [a], i => if a = optSocketType ∨ a = optIpAddr then [i, i + 1] else [i]
  | a :: v :: rest, i =>
    if a = optSocketType then
      i :: (i + 1) :: if v = valLocal ∨ v = valInet then packLooked rest (i + 2) else []
    else if a = optIpAddr then i :: (i + 1) :: packLooked rest (i + 2)
    else i :: packLooked (v :: rest) (i + 1)

/-! ## Conditions -/

/-- The loop over the options, at the `i`-th argument, comes to an option with a value as the last
argument. -/
def Dangles (B : CmdBox) : List (List Char) → ℕ → Prop
  | [], _ => False
  | arg :: rest, i =>
    match keywordOf arg with
    | none => Dangles B rest (i + 1)
    | some k =>
      if k.takesValue then
        match rest with
        | [] => True
        | value :: rest =>
          k.rejects B (B.seconds i value) value = none ∧ Dangles B rest (i + 2)
      else Dangles B rest (i + 1)

variable {B : CmdBox} {U : UtilBox} {argv : List (List Char)} {beyond : List Char}

/-! ## Utilities -/

theorem utilities_looked_iff (argc i : ℕ) (rest : List (List Char)) :
    (∀ j ∈ utilitiesLooked argc rest i, j < i + rest.length) ↔
      ∀ u, utilityAt rest = some (u, none) → u.looks argc (i + rest.length - 1) = false := by
  induction rest generalizing i with
  | nil => simp [utilitiesLooked, utilityAt]
  | cons arg rest ih =>
    have hi : i < i + (arg :: rest).length := by
      rw [List.length_cons]
      omega
    rw [utilitiesLooked, utilityAt, List.forall_mem_cons, and_iff_right hi]
    cases utilityOf arg with
    | some u =>
      cases rest with
      | nil => by_cases h : u.looks argc i = true <;> simp [h]
      | cons value rest => by_cases h : u.looks argc i = true <;> simp [h]
    | none =>
      rw [end_after_one]
      exact ih (i + 1)

/-! ## Options -/

variable {s : ParseState} {i : ℕ}

/-- There are as many rows left as arguments. -/
structure HasRoom (B : CmdBox) (n : ℕ) (s : ParseState) : Prop where
  rows : s.args.argv.length = B.TB_MAX_ARGS
  room : s.args.argc + n ≤ B.TB_MAX_ARGS

theorem HasRoom.write {n m : ℕ} (h : HasRoom B n s) (hm : m ≤ n) (k : Keyword)
    (sec : Option ℤ) (value : List Char) :
    HasRoom B m (s.withArgs (k.write B sec value s.args)) := by
  refine ⟨?_, ?_⟩
  · show (k.write B sec value s.args).argv.length = _
    rw [Keyword.write_argv, h.rows]
  · show (k.write B sec value s.args).argc + m ≤ _
    rw [Keyword.write_argc]
    exact (Nat.add_le_add_left hm _).trans h.room

theorem HasRoom.word {n : ℕ} (h : HasRoom B (n + 1) s) (i : ℕ) (arg : List Char) :
    ∃ s', parseWord B i arg s = .next s' ∧ HasRoom B n s' := by
  have hroom := h.room
  have hrows := h.rows
  rw [parseWord_eq]
  by_cases hname : s.threadfunc = none ∧ B.IsName i arg
  · rw [if_pos hname, selectTest, writeArg, if_pos (by dsimp only; omega)]
    refine ⟨_, rfl, ?_, ?_⟩
    · simp [hrows]
    · show s.args.argc + 1 + n ≤ _
      omega
  · rw [if_neg hname, writeArg, if_pos (by omega)]
    refine ⟨_, rfl, ?_, ?_⟩
    · simp [ParseState.withArgs, hrows]
    · show s.args.argc + 1 + n ≤ _
      omega

theorem optionsLooked_word {arg : List Char} {rest : List (List Char)} {s' : ParseState}
    (hkey : keywordOf arg = none) (hword : parseWord B i arg s = .next s') :
    optionsLooked B beyond (arg :: rest) i s = i :: optionsLooked B beyond rest (i + 1) s' := by
  rw [optionsLooked, parseOption_word hkey, hword, hkey]
  rfl

theorem optionsLooked_keyword {arg : List Char} {rest : List (List Char)} {k : Keyword}
    (hkey : keywordOf arg = some k) :
    optionsLooked B beyond (arg :: rest) i s =
      (if k.takesValue then [i, i + 1] else [i]) ++
        match k.rejects B (B.seconds i (rest.head?.getD beyond)) (rest.head?.getD beyond) with
        | some _ => []
        | none =>
          optionsLooked B beyond (if k.skips then rest.tail else rest)
            (if k.skips then i + 2 else i + 1)
            (s.withArgs (k.write B (B.seconds i (rest.head?.getD beyond))
              (rest.head?.getD beyond) s.args)) := by
  obtain rfl := keywordOf_eq_some_iff.mp hkey
  rw [optionsLooked, parseOption_keyword, hkey]
  congr 1
  cases k.rejects B (B.seconds i (rest.head?.getD beyond)) (rest.head?.getD beyond) with
  | some e => rfl
  | none =>
    cases hk : k.skips with
    | false => simp only [if_neg Bool.false_ne_true]
    | true =>
      cases rest with
      | nil => simp only [if_true, List.tail_nil, optionsLooked]
      | cons value rest => simp only [if_true, List.tail_cons]

/-- **The loop over the options** of a command that has a row for each argument. -/
theorem options_looked_iff {rest : List (List Char)} (h : HasRoom B rest.length s) :
    (∀ j ∈ optionsLooked B beyond rest i s, j < i + rest.length) ↔ ¬ Dangles B rest i := by
  fun_induction Dangles B rest i generalizing s with
  | case1 i => simp [optionsLooked]
  | case2 arg rest i hkey ih =>
    obtain ⟨s', hword, h'⟩ := HasRoom.word h i arg
    rw [optionsLooked_word hkey hword, end_after_one, List.forall_mem_cons, ih h']
    exact and_iff_right (by omega)
  | case3 arg i k hkey hval =>
    rw [optionsLooked_keyword hkey, if_pos hval]
    refine iff_of_false (fun h => ?_) (fun h => h trivial)
    have := h (i + 1) (by simp)
    simp at this
  | case4 arg i k hkey hval value rest ih =>
    have htwo : ∀ j ∈ [i, i + 1], j < i + 2 + rest.length := by
      intro j hj
      rcases List.mem_pair.mp hj with rfl | rfl <;> omega
    rw [optionsLooked_keyword hkey, if_pos hval, end_after_two, List.forall_mem_append,
      and_iff_right htwo]
    simp only [List.head?_cons, Option.getD_some, List.tail_cons]
    cases hacc : k.rejects B (B.seconds i value) value with
    | some e => simp
    | none =>
      rw [and_iff_right rfl]
      by_cases hskip : k.skips = true
      · simp only [hskip, if_true]
        exact ih (h.write (by simp only [List.length_cons]; omega) k _ value)
      · obtain rfl := Keyword.eq_maxtmo hval hskip
        have h1 := h.write (m := rest.length + 1) (by simp) .maxtmo (B.seconds i value) value
        obtain ⟨s', hword, h'⟩ := h1.word (i + 1) value
        simp only [if_neg hskip]
        rw [optionsLooked_word (keywordOf_of_maxtmo hacc) hword, List.forall_mem_cons,
          and_iff_right (by omega)]
        exact ih h'
  | case5 arg rest i k hkey hval ih =>
    have hskip : k.skips ≠ true := fun hskip => hval (Keyword.takesValue_of_skips hskip)
    rw [optionsLooked_keyword hkey, if_neg hval, end_after_one,
      Keyword.rejects_of_not_takesValue hval]
    simp only [if_neg hskip]
    rw [List.singleton_append, List.forall_mem_cons, and_iff_right (by omega)]
    exact ih (h.write (by simp) k _ _)

/-! ## The client -/

/-- **The loop of the client** looks only at arguments that are there, unless it comes to an option
without its value. -/
theorem pack_looked_iff (argv : List (List Char)) (i : ℕ) :
    (∀ j ∈ packLooked argv i, j < i + argv.length) ↔ (scan argv).2 ≠ .nullArg := by
  fun_induction packLooked argv i with
  | case1 i => simp [scan]
  | case2 a i h => simp [scan, h]
  | case3 a i h => simp [scan, h]
  | case4 v rest i ih =>
    rw [scan, if_pos rfl, end_after_two, List.forall_mem_cons, and_iff_right (by omega),
      List.forall_mem_cons, and_iff_right (by omega)]
    split_ifs
    · exact ih
    · exact iff_of_true (List.forall_mem_nil _) (fun h => by cases h)
  | case5 v rest i hne ih =>
    rw [scan, if_neg hne, if_pos rfl, end_after_two, List.forall_mem_cons,
      and_iff_right (by omega), List.forall_mem_cons, and_iff_right (by omega)]
    exact ih
  | case6 a v rest i h1 h2 ih =>
    rw [scan, if_neg h1, if_neg h2, end_after_one, List.forall_mem_cons, and_iff_right (by omega)]
    exact ih

/-- The loop of the client comes to an option without its value, whether what it packs fits or
not. -/
def PackDangles (argv : List (List Char)) : Prop := (scan argv).2 = .nullArg

/-! ## The three programs -/

/-- **`cmd_parse` looks only at arguments that are there**, and answers with an error when the value
of a utility is missing. -/
structure CmdInside (U : UtilBox) (argv : List (List Char)) (beyond : List Char) (fd : ℤ) :
    Prop where
  looked : ∀ j ∈ cmdParseLooked U.toCmdBox argv beyond fd, j < argv.length
  error : argv.length ≠ 1 → ∀ u, utilityAt argv = some (u, none) → u.needsValue = true →
    ∃ r, cmdUtility U argv beyond = some (some r) ∧ r.resp = "TESTBOX_ERROR"

/-- The last argument is not a utility that looks at the next, nor one of the two that do nothing
without their value and say that all is well; without a utility, the loop over the options does not
come to an option with a value as the last argument. -/
def CmdPresent (U : UtilBox) (argv : List (List Char)) : Prop :=
  argv.length ≠ 1 →
    (∀ u, utilityAt argv = some (u, none) → u.looks argv.length (argv.length - 1) = false ∧
      u ≠ .log_level ∧ u ≠ .verbose_level) ∧
      (utilityAt argv = none → U.calloc = true → ¬ Dangles U.toCmdBox argv.tail 1)

theorem run_of_not_looks {u : Utility} {argc i : ℕ} (hlooks : u.looks argc i = false)
    (hneeds : u.needsValue = true) (value : List Char) :
    u.run U argc value = some ⟨[], u ≠ .log_level ∧ u ≠ .verbose_level⟩ := by
  cases u with
  | clear | descr | kill | group_from_file | loadlib | unloadlib | xml_file => cases hlooks
  | list | help | status | examples | listlib | log_read | log_clear => cases hneeds
  | step | find | log_level | verbose_level => exact if_neg (of_decide_eq_false hlooks)

theorem hasRoom_creatDefaultThreadArgs {a : CmdArgs} (h : creatDefaultThreadArgs B = some a)
    (hmax : argv.length ≤ B.TB_MAX_ARGS) (socket : ℤ) :
    HasRoom B argv.tail.length ⟨{ a with socket := socket }, none, B.zeros⟩ := by
  unfold creatDefaultThreadArgs at h
  obtain ⟨-, ⟨⟩⟩ := Option.ite_none_right_eq_some.mp h
  refine ⟨List.length_replicate, ?_⟩
  rw [List.length_tail]
  dsimp only
  omega

theorem cmdParse_looked_iff {fd : ℤ} (hmax : argv.length ≤ B.TB_MAX_ARGS)
    (hargc : argv.length ≠ 1) :
    (∀ j ∈ cmdParseLooked B argv beyond fd, j < argv.length) ↔
      (∀ u, utilityAt argv = some (u, none) → u.looks argv.length (argv.length - 1) = false) ∧
        (utilityAt argv = none → B.calloc = true → ¬ Dangles B argv.tail 1) := by
  have hutil := utilities_looked_iff argv.length 0 argv
  rw [Nat.zero_add] at hutil
  rw [cmdParseLooked, if_neg hargc, List.forall_mem_append, hutil]
  refine and_congr_right fun _ => ?_
  cases hat : utilityAt argv with
  | some x => simp
  | none =>
    cases hcreat : creatDefaultThreadArgs B with
    | none =>
      have hcalloc : B.calloc = false := by
        unfold creatDefaultThreadArgs at hcreat
        split_ifs at hcreat with hc
        exact Bool.eq_false_iff.mpr hc
      simp [hcalloc]
    | some a =>
      have hcalloc : B.calloc = true := by
        unfold creatDefaultThreadArgs at hcreat
        exact (Option.ite_none_right_eq_some.mp hcreat).1
      have hopt : (∀ j ∈ optionsLooked B beyond argv.tail 1 _, j < 1 + argv.tail.length) ↔ _ :=
        options_looked_iff (hasRoom_creatDefaultThreadArgs hcreat hmax fd)
      rw [forall_prop_of_true rfl, forall_prop_of_true hcalloc, ← hopt]
      cases argv with
      | nil => simp [optionsLooked]
      | cons arg rest => simp only [List.length_cons, List.tail_cons, add_comm]

theorem cmdInside_iff {fd : ℤ} (hmax : argv.length ≤ U.TB_MAX_ARGS) :
    CmdInside U argv beyond fd ↔ CmdPresent U argv := by
  unfold CmdPresent
  by_cases hargc : argv.length = 1
  · refine iff_of_true ⟨?_, fun h => absurd hargc h⟩ fun h => absurd hargc h
    rw [cmdParseLooked, if_pos hargc]
    exact List.forall_mem_nil _
  have hlooked : (∀ j ∈ cmdParseLooked U.toCmdBox argv beyond fd, j < argv.length) ↔ _ :=
    cmdParse_looked_iff hmax hargc
  have hrun : ∀ u, utilityAt argv = some (u, none) →
      u.looks argv.length (argv.length - 1) = false → u.needsValue = true →
      cmdUtility U argv beyond =
        some (some ⟨[], u ≠ .log_level ∧ u ≠ .verbose_level⟩) := by
    intro u hat hlooks hneeds
    rw [cmdUtility, if_neg hargc, hat]
    exact congrArg some (run_of_not_looks hlooks hneeds _)
  rw [forall_prop_of_true hargc]
  constructor
  · rintro ⟨hinside, herror⟩
    obtain ⟨hlooks, hdangles⟩ := hlooked.mp hinside
    refine ⟨fun u hat => ⟨hlooks u hat, ?_⟩, hdangles⟩
    by_contra hsilent
    have hneeds : u.needsValue = true := by
      revert hsilent
      cases u <;> simp [Utility.needsValue]
    obtain ⟨r, hr, hresp⟩ := herror hargc u hat hneeds
    rw [hrun u hat (hlooks u hat) hneeds] at hr
    obtain rfl := Option.some.inj (Option.some.inj hr)
    rw [UtilRun.resp_eq_error_iff, decide_eq_true_iff] at hresp
    exact hsilent hresp
  · rintro ⟨hutil, hdangles⟩
    refine ⟨hlooked.mpr ⟨fun u hat => (hutil u hat).1, hdangles⟩, fun _ u hat hneeds => ?_⟩
    refine ⟨_, hrun u hat (hutil u hat).1 hneeds, ?_⟩
    rw [UtilRun.resp_eq_error_iff, decide_eq_true_iff]
    exact (hutil u hat).2

/-- **Arguments are looked at only when they are there**: exactly when in `cmd_parse` and in
`startup_args` no option that does not check for its value, and in `main` of the client neither of
its two, is the last argument that is read. -/
theorem looked_iff {fd : ℤ} (hmax : argv.length ≤ U.TB_MAX_ARGS) (S : StartupBox)
    (startupArgv : List (List Char)) (start : Startup) (clientArgv : List (List Char)) :
    (CmdInside U argv beyond fd ↔ CmdPresent U argv) ∧
      ((∀ j ∈ (startupArgs S startupArgv 0 start).looked, j < startupArgv.length) ↔
        ¬ StartupDangles S startupArgv) ∧
      ((∀ j ∈ packLooked clientArgv 0, j < clientArgv.length) ↔ ¬ PackDangles clientArgv) := by
  have hstartup := startup_looked_iff (S := S) startupArgv 0 start
  have hclient := pack_looked_iff clientArgv 0
  rw [Nat.zero_add] at hstartup hclient
  exact ⟨cmdInside_iff hmax, hstartup, hclient⟩

/-- `dibc --find`, `testboxd --log_level 3`, and a client that reads `--ip_addr 10.0.0.1`. -/
theorem looked_iff_find :
    CmdInside idleBox (["dibc", "--find"].map String.toList) [] 4 ∧
      (∀ j ∈ (startupArgs ⟨fun _ => true, fun _ => true⟩
        (["testboxd", "--log_level", "3"].map String.toList) 0 ⟨none, none, none, true⟩).looked,
          j < 3) ∧
      ∀ j ∈ packLooked (["dibc", "--ip_addr", "10.0.0.1"].map String.toList) 0, j < 3 := by
  obtain ⟨hcmd, hstartup, hclient⟩ :=
    @looked_iff idleBox (["dibc", "--find"].map String.toList) [] 4 (by decide)
      ⟨fun _ => true, fun _ => true⟩
      (["testboxd", "--log_level", "3"].map String.toList) ⟨none, none, none, true⟩
      (["dibc", "--ip_addr", "10.0.0.1"].map String.toList)
  have hfind : utilityAt (["dibc", "--find"].map String.toList) = some (.find, none) := by decide
  have hscan : (scan (["dibc", "--ip_addr", "10.0.0.1"].map String.toList)).2 = .done := by decide
  refine ⟨hcmd.mpr fun _ => ⟨fun u hu => ?_, fun h => ?_⟩, hstartup.mpr ?_, hclient.mpr ?_⟩
  · have hsome := Option.some.inj (hfind.symm.trans hu)
    obtain rfl : Utility.find = u := congrArg Prod.fst hsome
    have hlooks : Utility.find.looks 2 1 = false := by decide
    exact ⟨hlooks, by decide, by decide⟩
  · rw [hfind] at h
    cases h
  · intro h
    rw [List.map_cons, List.map_cons, List.map_cons, List.map_nil, StartupDangles,
      if_neg (by decide), if_neg (by decide), if_neg (by decide), StartupDangles,
      if_neg (by decide), if_pos (by decide), StartupDangles] at h
    exact h
  · rw [PackDangles, hscan]
    decide

/-- `dibc --kill`: `argv[2]` is converted. -/
theorem killCommand_looks :
    ¬ CmdInside idleBox (["dibc", "--kill"].map String.toList) [] 4 := by
  intro h
  have hlooked :
      2 ∈ cmdParseLooked idleBox.toCmdBox (["dibc", "--kill"].map String.toList) [] 4 := by decide
  exact absurd (h.looked 2 hlooked) (by decide)

end Dib
