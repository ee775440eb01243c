import Dib.Registry.Contents
import Dib.Registry.Names

/-!
# What the load of a library registers

* `IsEntryOf`: the entry for a test; `Binds`, `Gives`: the names that are bound and the entries that
  suites get, in the order of the tests;
* `RegistersTests`: both, from one registry to a later one; `RegistersTests.trans`: one after the
  other;
* `registers_testcase`, `registers_testsuite`, `registers_testgroup`: the three loops;
* **`load_registers`**: after a load the names are bound as before, or to the first test that the
  library has for them, and every suite has got its tests.
-/

set_option autoImplicit false

namespace Dib

open CString

/-! ## Statement -/

/-- What libtestbox does when nothing fails: a suite that it returns for a name has that name. -/
structure LibTestbox.Adds (T : LibTestbox) : Prop where
  tb_case_addnode : ∀ r c, T.tb_case_addnode r c = true
  tb_suite_addtest : ∀ r p t, T.tb_suite_addtest r p t = true
  tb_group_addsuite : ∀ r g p, T.tb_group_addsuite r g p = true
  tb_suite_addnode : ∀ r name p, T.tb_suite_addnode r name = some p →
    ∃ s, r.suiteAt p = some s ∧ s.name = name

/-- The entry for a test of the library with this handle: its only argument is its name. -/
structure IsEntryOf (handle : ℕ) (tc : TestboxTestcase) (c : TestcaseNod) : Prop where
  name : cstr c.name = tc.test_name
  valid_board : c.valid_board = tc.valid_board
  is_extended : c.is_extended = tc.is_extended
  is_executable : c.is_executable = false
  function : c.function = some ⟨handle, tc.function⟩
  argc : c.argc = 1
  args : c.args[0]?.map cstr = some tc.test_name

/-- The suite at an address has this name. -/
def Registry.Named (r : Registry) (p : ℕ) (name : List Char) : Prop :=
  ∃ s, r.suiteAt p = some s ∧ s.name = name

/-- The entries of the suite at an address. -/
def Registry.testsAt (r : Registry) (p : ℕ) : List TestcaseNod :=
  ((r.suiteAt p).map TestsuiteNod.tests).getD []

section Statement

variable (T : LibTestbox) (handle : ℕ)

/-- **The names** bound in `r'`: those of `r`, as they were; each other one to the first of the
tests that is valid for the board and has this name; and no more. -/
structure Binds (tests : List TestboxTestcase) (r r' : Registry) : Prop where
  kept : ∀ name c, tbCaseLookupnode r name = some c → tbCaseLookupnode r' name = some c
  added : ∀ name tc, tbCaseLookupnode r name = none →
    tests.find? (fun tc => tc.Valid T ∧ tc.test_name = name) = some tc →
      ∃ c, tbCaseLookupnode r' name = some c ∧ IsEntryOf handle tc c
  others : ∀ name, tbCaseLookupnode r name = none →
    tests.find? (fun tc => tc.Valid T ∧ tc.test_name = name) = none →
      tbCaseLookupnode r' name = none

/-- **The entries** of `r'`: those of `r`, and in each suite those for the tests that were given to
it, in order, if they are valid for the board. -/
def Gives (given : List (ℕ × TestboxTestcase)) (r r' : Registry) : Prop :=
  ∀ p, ∃ added, r'.testsAt p = r.testsAt p ++ added ∧ List.Forall₂ (IsEntryOf handle)
    ((given.filter fun x => x.1 = p ∧ x.2.Valid T).map Prod.snd) added

end Statement

/-- The suites of a library, in order. -/
def suitesOf (lib_group : List TestboxTestgroup) : List TestboxTestsuite :=
  lib_group.flatMap (·.suites)

/-- The tests of suites, each with the address of its suite. -/
def givenTo (xs : List (TestboxTestsuite × ℕ)) : List (ℕ × TestboxTestcase) :=
  xs.flatMap fun x => x.1.testcases.map (x.2, ·)

/-! ## One registration after the other -/

variable {T : LibTestbox} {handle p g : ℕ} {r r' r'' : Registry} {tests : List TestboxTestcase}
  {given given' : List (ℕ × TestboxTestcase)}

theorem Binds.trans {tests' : List TestboxTestcase} (h : Binds T handle tests r r')
    (h' : Binds T handle tests' r' r'') : Binds T handle (tests ++ tests') r r'' where
  kept name c hc := h'.kept name c (h.kept name c hc)
  added name tc hnone hfind := by
    rw [List.find?_append] at hfind
    cases hfirst : tests.find? (fun tc => tc.Valid T ∧ tc.test_name = name) with
    | some tc₁ =>
      rw [hfirst] at hfind
      obtain rfl := Option.some.inj hfind
      obtain ⟨c, hc, hentry⟩ := h.added name _ hnone hfirst
      exact ⟨c, h'.kept name c hc, hentry⟩
    | none =>
      rw [hfirst] at hfind
      exact h'.added name tc (h.others name hnone hfirst) hfind
  others name hnone hfind := by
    rw [List.find?_append, Option.or_eq_none_iff] at hfind
    exact h'.others name (h.others name hnone hfind.1) hfind.2

theorem Gives.trans (h : Gives T handle given r r') (h' : Gives T handle given' r' r'') :
    Gives T handle (given ++ given') r r'' := by
  intro p
  obtain ⟨added, htests, hentries⟩ := h p
  obtain ⟨added', htests', hentries'⟩ := h' p
  refine ⟨added ++ added', ?_, ?_⟩
  · rw [htests', htests, List.append_assoc]
  · rw [List.filter_append, List.map_append]
    exact List.rel_append hentries hentries'

/-- What is registered from `r` to `r'`; suites keep their names, and new ones get new addresses. -/
structure RegistersTests (T : LibTestbox) (handle : ℕ) (given : List (ℕ × TestboxTestcase))
    (r r' : Registry) : Prop where
  binds : Binds T handle (given.map Prod.snd) r r'
  gives : Gives T handle given r r'
  named : ∀ p name, r.Named p name → r'.Named p name
  fresh : ∀ s ∈ r'.suites, s.addr < r'.next

theorem RegistersTests.trans (h : RegistersTests T handle given r r')
    (h' : RegistersTests T handle given' r' r'') :
    RegistersTests T handle (given ++ given') r r'' where
  binds := by
    rw [List.map_append]
    exact h.binds.trans h'.binds
  gives := h.gives.trans h'.gives
  named p name hn := h'.named p name (h.named p name hn)
  fresh := h'.fresh

theorem registers_nil (hcases : r'.cases = r.cases) (htests : ∀ p, r'.testsAt p = r.testsAt p)
    (hnamed : ∀ p name, r.Named p name → r'.Named p name)
    (hfresh : ∀ s ∈ r'.suites, s.addr < r'.next) : RegistersTests T handle [] r r' := by
  have hlookup : ∀ name, tbCaseLookupnode r' name = tbCaseLookupnode r name := fun name => by
    rw [tbCaseLookupnode, hcases, tbCaseLookupnode]
  refine ⟨⟨fun name c hc => ?_, fun name tc _ hfind => ?_, fun name hnone _ => ?_⟩, fun p => ?_,
    hnamed, hfresh⟩
  · rwa [hlookup]
  · cases hfind
  · rwa [hlookup]
  · exact ⟨[], by rw [htests, List.append_nil], .nil⟩

/-! ## Suites -/

theorem suiteAt_onSuite {f : TestsuiteNod → TestsuiteNod} (hf : ∀ s, (f s).addr = s.addr)
    (r : Registry) (p q : ℕ) :
    (r.onSuite p f).suiteAt q = (r.suiteAt q).map fun s => if q = p then f s else s := by
  rw [Registry.suiteAt, Registry.onSuite, Registry.suiteAt]
  induction r.suites with
  | nil => rfl
  | cons s l ih =>
    have haddr : (if s.addr = p then f s else s).addr = s.addr := by
      split_ifs
      · exact hf s
      · rfl
    rw [List.map_cons, List.find?_cons, List.find?_cons, haddr]
    by_cases hs : s.addr = q
    · subst hs
      simp
    · simp only [hs, decide_false]
      exact ih

theorem named_onSuite {f : TestsuiteNod → TestsuiteNod} (hf : ∀ s, (f s).addr = s.addr)
    (hname : ∀ s, (f s).name = s.name) {q : ℕ} {name : List Char} (h : r.Named q name) :
    (r.onSuite p f).Named q name := by
  obtain ⟨s, hs, rfl⟩ := h
  refine ⟨_, by rw [suiteAt_onSuite hf, hs, Option.map_some], ?_⟩
  split_ifs
  · exact hname s
  · rfl

theorem fresh_onSuite {f : TestsuiteNod → TestsuiteNod} (hf : ∀ s, (f s).addr = s.addr)
    (h : ∀ s ∈ r.suites, s.addr < r.next) :
    ∀ s ∈ (r.onSuite p f).suites, s.addr < (r.onSuite p f).next := by
  refine List.forall_mem_map.mpr fun s hs => ?_
  split_ifs
  · rw [hf]
    exact h s hs
  · exact h s hs

theorem testsAt_setDescr (r : Registry) (p : ℕ) (descr : List Char) (q : ℕ) :
    (setDescr T r p descr).testsAt q = r.testsAt q := by
  have haddr : ∀ s : TestsuiteNod,
      { s with descr := strncpy s.descr descr (T.TB_STR_LEN - 1) }.addr = s.addr := fun _ => rfl
  rw [Registry.testsAt, setDescr, suiteAt_onSuite haddr, Option.map_map, Registry.testsAt]
  congr 2
  funext s
  rw [Function.comp_apply]
  split_ifs <;> rfl

theorem registers_setDescr (handle p : ℕ) (h : ∀ s ∈ r.suites, s.addr < r.next)
    (descr : List Char) :
    RegistersTests T handle [] r (setDescr T r p descr) := by
  have haddr : ∀ s : TestsuiteNod,
      { s with descr := strncpy s.descr descr (T.TB_STR_LEN - 1) }.addr = s.addr := fun _ => rfl
  exact registers_nil rfl (testsAt_setDescr r p descr)
    (fun q name hn => named_onSuite haddr (fun _ => rfl) hn) (fresh_onSuite haddr h)

theorem registers_suiteAddnode (handle : ℕ) (h : ∀ s ∈ r.suites, s.addr < r.next)
    (name : List Char) :
    RegistersTests T handle [] r (tbSuiteAddnode T r name).1 := by
  unfold tbSuiteAddnode
  split
  · exact registers_nil rfl (fun _ => rfl) (fun _ _ h => h) h
  refine registers_nil rfl (fun q => ?_) (fun q name hn => ?_) fun s hs => ?_
  · rw [Registry.testsAt, Registry.suiteAt, List.find?_append, Registry.testsAt, Registry.suiteAt]
    cases r.suites.find? (·.addr = q) with
    | some s => rfl
    | none =>
      by_cases hq : r.next = q
      · simp [hq]
      · simp [hq]
  · obtain ⟨s, hs, hname⟩ := hn
    rw [Registry.suiteAt] at hs
    exact ⟨s, by rw [Registry.suiteAt, List.find?_append, hs]; rfl, hname⟩
  · rcases List.mem_append.mp hs with hs | hs
    · exact Nat.lt_succ_of_lt (h s hs)
    · rw [List.mem_singleton.mp hs]
      exact Nat.lt_succ_self _

theorem named_suiteAddnode (hT : T.Adds) (h : ∀ s ∈ r.suites, s.addr < r.next)
    (name : List Char) : (tbSuiteAddnode T r name).1.Named (tbSuiteAddnode T r name).2 name := by
  unfold tbSuiteAddnode
  split
  · next p hp => exact hT.tb_suite_addnode r name p hp
  · refine ⟨⟨r.next, name, List.replicate T.TB_STR_LEN NUL, []⟩, ?_, rfl⟩
    have hnone : r.suites.find? (·.addr = r.next) = none := by
      rw [List.find?_eq_none]
      intro s hs
      simpa using (h s hs).ne
    rw [Registry.suiteAt, List.find?_append, hnone]
    simp

theorem registers_groupAddnode (handle : ℕ) (h : ∀ s ∈ r.suites, s.addr < r.next)
    (name : List Char) :
    RegistersTests T handle [] r (tbGroupAddnode T r name).1 := by
  unfold tbGroupAddnode
  split
  · exact registers_nil rfl (fun _ => rfl) (fun _ _ h => h) h
  · exact registers_nil rfl (fun _ => rfl) (fun _ _ h => h) fun s hs => Nat.lt_succ_of_lt (h s hs)

theorem registers_groupAddsuite (handle : ℕ) (h : ∀ s ∈ r.suites, s.addr < r.next)
    (hr : tbGroupAddsuite T r g p = some r') : RegistersTests T handle [] r r' := by
  obtain ⟨-, ⟨⟩⟩ := Option.ite_none_right_eq_some.mp hr
  exact registers_nil rfl (fun _ => rfl) (fun _ _ h => h) h

/-! ## Tests -/

theorem isEntryOf_fill {info : TestcaseNod} {tc : TestboxTestcase} (hinfo : info.args ≠ [])
    (hfit : tc.Fits T) : IsEntryOf handle tc (fillTestcaseInfo T handle tc info) := by
  have hname : cstr (strncpy info.name tc.test_name (T.TB_STR_LEN - 1)) = tc.test_name :=
    cstr_strncpy tc.name_ok hfit
  refine ⟨hname, rfl, rfl, rfl, rfl, rfl, ?_⟩
  obtain ⟨arg, args, hargs⟩ := List.exists_cons_of_ne_nil hinfo
  rw [fillTestcaseInfo, hargs]
  show some (cstr (strncpy arg (cstr (strncpy info.name tc.test_name (T.TB_STR_LEN - 1)))
    (T.TB_STR_LEN - 1))) = some tc.test_name
  rw [hname, cstr_strncpy tc.name_ok hfit]

theorem testsAt_addtest {t : TestcaseNod} (q : ℕ) (hp : ∃ name, r.Named p name)
    (hr : tbSuiteAddtest T r p t = some r') :
    r'.testsAt q = r.testsAt q ++ if q = p then [t] else [] := by
  obtain ⟨-, ⟨⟩⟩ := Option.ite_none_right_eq_some.mp hr
  have haddr : ∀ s : TestsuiteNod, { s with tests := s.tests ++ [t] }.addr = s.addr := fun _ => rfl
  rw [Registry.testsAt, suiteAt_onSuite haddr, Registry.testsAt]
  split_ifs with hq
  · subst hq
    obtain ⟨name, s, hs, -⟩ := hp
    rw [hs]
    rfl
  · simp

variable {st : LibImport}

theorem lookup_addToCases (hT : T.Adds) {name : List Char}
    (hself : cstr st.testcase_info.name = name) (other : List Char) :
    tbCaseLookupnode (addToCases T name st).registry other =
      (tbCaseLookupnode st.registry other).or
        (if other = name then some st.testcase_info else none) := by
  unfold addToCases
  cases hlookup : tbCaseLookupnode st.registry name with
  | some c =>
    split_ifs with hname
    · rw [hname, hlookup]
      rfl
    · exact (Option.or_none).symm
  | none =>
    rw [tbCaseAddnode, if_pos (hT.tb_case_addnode _ _)]
    simp only [tbCaseLookupnode, List.find?_append, List.find?_singleton, hself,
      decide_eq_true_eq, eq_comm (a := other)]

theorem addToCases_frame (name : List Char) (st : LibImport) :
    (addToCases T name st).registry.suites = st.registry.suites ∧
      (addToCases T name st).registry.next = st.registry.next ∧
      (addToCases T name st).testcase_info = st.testcase_info := by
  unfold addToCases
  split
  · exact ⟨rfl, rfl, rfl⟩
  split
  · next hr =>
    obtain ⟨-, ⟨⟩⟩ := Option.ite_none_right_eq_some.mp hr
    exact ⟨rfl, rfl, rfl⟩
  · exact ⟨rfl, rfl, rfl⟩

theorem registers_invalid (hfresh : ∀ s ∈ r.suites, s.addr < r.next) {tc : TestboxTestcase}
    (hvalid : ¬ tc.Valid T) : RegistersTests T handle [(p, tc)] r r := by
  refine ⟨⟨fun _ _ hc => hc, fun name tc' _ hfind => ?_, fun _ hnone _ => hnone⟩, fun q => ?_,
    fun _ _ hn => hn, hfresh⟩
  · simp [hvalid] at hfind
  · exact ⟨[], (List.append_nil _).symm, by simp [hvalid]⟩

theorem registers_valid {tc : TestboxTestcase} {info : TestcaseNod} (hvalid : tc.Valid T)
    (hentry : IsEntryOf handle tc info)
    (hlookup : ∀ name, tbCaseLookupnode r' name =
      (tbCaseLookupnode r name).or (if name = tc.test_name then some info else none))
    (htests : ∀ q, r'.testsAt q = r.testsAt q ++ if q = p then [info] else [])
    (hnamed : ∀ q name, r.Named q name → r'.Named q name)
    (hfresh : ∀ s ∈ r'.suites, s.addr < r'.next) : RegistersTests T handle [(p, tc)] r r' := by
  refine ⟨⟨fun name c hc => ?_, fun name tc' hnone hfind => ?_, fun name hnone hfind => ?_⟩,
    fun q => ?_, hnamed, hfresh⟩
  · rw [hlookup, hc]
    rfl
  · obtain ⟨rfl, rfl⟩ : tc.test_name = name ∧ tc = tc' := by simpa [hvalid] using hfind
    exact ⟨info, by rw [hlookup, hnone, if_pos rfl]; rfl, hentry⟩
  · have hne : tc.test_name ≠ name := by simpa [hvalid] using hfind
    rw [hlookup, hnone, if_neg hne.symm]
    rfl
  · refine ⟨_, htests q, ?_⟩
    by_cases hq : q = p
    · subst hq
      simpa [hvalid] using hentry
    · simp [hq, Ne.symm hq]

/-- **One test.** -/
theorem registers_testcase (hT : T.Adds) (handle : ℕ) (hp : ∃ name, st.registry.Named p name)
    (hfresh : ∀ s ∈ st.registry.suites, s.addr < st.registry.next)
    (hinfo : st.testcase_info.args ≠ []) {tc : TestboxTestcase} (hfit : tc.Fits T) :
    (loadTestcase T handle p st tc).testcase_info.args ≠ [] ∧
      RegistersTests T handle [(p, tc)] st.registry (loadTestcase T handle p st tc).registry := by
  by_cases hvalid : tc.Valid T
  · rw [loadTestcase, if_pos hvalid]
    generalize hfill : fillTestcaseInfo T handle tc st.testcase_info = info
    have hentry : IsEntryOf handle tc info := hfill ▸ isEntryOf_fill hinfo hfit
    have hargs : info.args ≠ [] := by
      rw [← hfill]
      simpa [fillTestcaseInfo] using hinfo
    -- the registry with the entry in the suite
    obtain ⟨r₁, hr₁⟩ : ∃ r₁, tbSuiteAddtest T st.registry p info = some r₁ :=
      ⟨_, if_pos (hT.tb_suite_addtest _ _ _)⟩
    have hsuite : addToSuite T p { st with testcase_info := info } = ⟨r₁, info, st.status⟩ := by
      rw [addToSuite, hr₁]
    have hr₁' : r₁ = st.registry.onSuite p fun s => { s with tests := s.tests ++ [info] } :=
      (Option.some.inj ((if_pos (hT.tb_suite_addtest _ _ _)).symm.trans hr₁)).symm
    have haddr : ∀ s : TestsuiteNod, { s with tests := s.tests ++ [info] }.addr = s.addr :=
      fun _ => rfl
    rw [hsuite]
    obtain ⟨hsuites, hnext, hsame⟩ := addToCases_frame (T := T) tc.test_name ⟨r₁, info, st.status⟩
    have hsuiteAt : ∀ q, (addToCases T tc.test_name ⟨r₁, info, st.status⟩).registry.suiteAt q =
        r₁.suiteAt q := fun q => by rw [Registry.suiteAt, hsuites, Registry.suiteAt]
    refine ⟨by rwa [hsame], registers_valid hvalid hentry (fun name => ?_) (fun q => ?_)
      (fun q name hn => ?_) ?_⟩
    · rw [lookup_addToCases hT hentry.name, hr₁']
      rfl
    · rw [Registry.testsAt, hsuiteAt]
      exact testsAt_addtest q hp hr₁
    · rw [Registry.Named, hsuiteAt, hr₁']
      exact named_onSuite haddr (fun _ => rfl) hn
    · rw [hsuites, hnext, hr₁']
      exact fresh_onSuite haddr hfresh
  · rw [loadTestcase, if_neg hvalid]
    exact ⟨hinfo, registers_invalid hfresh hvalid⟩

theorem registers_testcases (hT : T.Adds) (handle : ℕ) (tests : List TestboxTestcase)
    (hp : ∃ name, st.registry.Named p name)
    (hfresh : ∀ s ∈ st.registry.suites, s.addr < st.registry.next)
    (hinfo : st.testcase_info.args ≠ []) (hfit : ∀ tc ∈ tests, tc.Fits T) :
    (tests.foldl (loadTestcase T handle p) st).testcase_info.args ≠ [] ∧
      RegistersTests T handle (tests.map (p, ·)) st.registry
        (tests.foldl (loadTestcase T handle p) st).registry := by
  induction tests generalizing st with
  | nil => exact ⟨hinfo, registers_nil rfl (fun _ => rfl) (fun _ _ h => h) hfresh⟩
  | cons tc tests ih =>
    obtain ⟨hinfo', hreg⟩ := registers_testcase hT handle hp hfresh hinfo
      (hfit tc List.mem_cons_self)
    obtain ⟨hinfo'', hrest⟩ := ih (hp.imp (hreg.named p)) hreg.fresh hinfo'
      fun tc' htc' => hfit tc' (List.mem_cons_of_mem _ htc')
    exact ⟨hinfo'', hreg.trans hrest⟩

/-! ## Suites and groups -/

/-- **One suite.** -/
theorem registers_testsuite (hT : T.Adds) (handle g : ℕ)
    (hfresh : ∀ s ∈ st.registry.suites, s.addr < st.registry.next)
    (hinfo : st.testcase_info.args ≠ []) (suite : TestboxTestsuite)
    (hfit : ∀ tc ∈ suite.testcases, tc.Fits T) :
    (loadTestsuite T handle g st suite).testcase_info.args ≠ [] ∧
      ∃ p, (loadTestsuite T handle g st suite).registry.Named p suite.suite_name ∧
        RegistersTests T handle (suite.testcases.map (p, ·)) st.registry
          (loadTestsuite T handle g st suite).registry := by
  have hadd := registers_suiteAddnode (T := T) handle hfresh suite.suite_name
  have hname := named_suiteAddnode hT hfresh suite.suite_name
  unfold loadTestsuite
  generalize tbSuiteAddnode T st.registry suite.suite_name = x at hadd hname
  obtain ⟨r₁, p⟩ := x
  dsimp only at hadd hname ⊢
  have hdescr := registers_setDescr (T := T) handle p hadd.fresh
    suite.suite_descr
  have hname' := hdescr.named p suite.suite_name hname
  let st₁ : LibImport := { st with registry := setDescr T r₁ p suite.suite_descr }
  have hfresh₁ : ∀ s ∈ st₁.registry.suites, s.addr < st₁.registry.next := hdescr.fresh
  obtain ⟨hinfo', htests⟩ :=
    registers_testcases hT handle suite.testcases ⟨_, hname'⟩ hfresh₁ hinfo hfit
  generalize suite.testcases.foldl (loadTestcase T handle p) st₁ = st' at hinfo' htests
  obtain ⟨r₂, hr₂⟩ : ∃ r₂, tbGroupAddsuite T st'.registry g p = some r₂ :=
    ⟨_, if_pos (hT.tb_group_addsuite _ _ _)⟩
  have hgroup := registers_groupAddsuite handle htests.fresh hr₂
  rw [hr₂]
  refine ⟨hinfo', p, hgroup.named p _ (htests.named p _ hname'), ?_⟩
  have hall := ((hadd.trans hdescr).trans htests).trans hgroup
  rwa [List.append_nil] at hall

theorem registers_foldl {α : Type} {f : LibImport → α → LibImport} (handle : ℕ)
    (part : α → List TestboxTestsuite) (l : List α) (st : LibImport)
    (hf : ∀ a ∈ l, ∀ st : LibImport, (∀ s ∈ st.registry.suites, s.addr < st.registry.next) →
      st.testcase_info.args ≠ [] → (f st a).testcase_info.args ≠ [] ∧
        ∃ xs : List (TestboxTestsuite × ℕ), xs.map Prod.fst = part a ∧
          (∀ x ∈ xs, (f st a).registry.Named x.2 x.1.suite_name) ∧
          RegistersTests T handle (givenTo xs) st.registry (f st a).registry)
    (hfresh : ∀ s ∈ st.registry.suites, s.addr < st.registry.next)
    (hinfo : st.testcase_info.args ≠ []) :
    (l.foldl f st).testcase_info.args ≠ [] ∧
      ∃ xs : List (TestboxTestsuite × ℕ), xs.map Prod.fst = l.flatMap part ∧
        (∀ x ∈ xs, (l.foldl f st).registry.Named x.2 x.1.suite_name) ∧
        RegistersTests T handle (givenTo xs) st.registry (l.foldl f st).registry := by
  induction l generalizing st with
  | nil =>
    exact ⟨hinfo, [], rfl, fun _ hx => absurd hx List.not_mem_nil,
      registers_nil rfl (fun _ => rfl) (fun _ _ h => h) hfresh⟩
  | cons a l ih =>
    obtain ⟨hinfo₁, xs, hxs, hnamed, hreg⟩ := hf a List.mem_cons_self st hfresh hinfo
    obtain ⟨hinfo₂, ys, hys, hnamed', hreg'⟩ :=
      ih (f st a) (fun b hb => hf b (List.mem_cons_of_mem _ hb)) hreg.fresh hinfo₁
    refine ⟨hinfo₂, xs ++ ys, ?_, fun x hx => ?_, ?_⟩
    · rw [List.map_append, hxs, hys, List.flatMap_cons]
    · rcases List.mem_append.mp hx with hx | hx
      · exact hreg'.named _ _ (hnamed x hx)
      · exact hnamed' x hx
    · rw [givenTo, List.flatMap_append]
      exact hreg.trans hreg'

/-- **One group.** -/
theorem registers_testgroup (hT : T.Adds)
    (hfresh : ∀ s ∈ st.registry.suites, s.addr < st.registry.next)
    (hinfo : st.testcase_info.args ≠ []) (group : TestboxTestgroup)
    (hfit : ∀ tc ∈ group.tests, tc.Fits T) :
    (loadTestgroup T handle st group).testcase_info.args ≠ [] ∧
      ∃ xs : List (TestboxTestsuite × ℕ), xs.map Prod.fst = group.suites ∧
        (∀ x ∈ xs, (loadTestgroup T handle st group).registry.Named x.2 x.1.suite_name) ∧
        RegistersTests T handle (givenTo xs) st.registry
          (loadTestgroup T handle st group).registry := by
  have hadd := registers_groupAddnode (T := T) handle hfresh group.group_name
  unfold loadTestgroup
  generalize tbGroupAddnode T st.registry group.group_name = x at hadd
  obtain ⟨r₁, g⟩ := x
  dsimp only at hadd ⊢
  obtain ⟨hinfo', xs, hxs, hnamed, hreg⟩ := registers_foldl (T := T) handle
    (fun suite => [suite]) group.suites { st with registry := r₁ }
    (fun suite hsuite st hfresh hinfo => by
      obtain ⟨hinfo', p, hname, hreg⟩ := registers_testsuite hT handle g hfresh hinfo suite
        fun tc htc => hfit tc (List.mem_flatMap.mpr ⟨suite, hsuite, htc⟩)
      exact ⟨hinfo', [(suite, p)], rfl, by simpa using hname, by simpa [givenTo] using hreg⟩)
    hadd.fresh hinfo
  exact ⟨hinfo', xs, by simpa using hxs, hnamed, hadd.trans hreg⟩

theorem map_givenTo (xs : List (TestboxTestsuite × ℕ)) :
    (givenTo xs).map Prod.snd = (xs.map Prod.fst).flatMap (·.testcases) := by
  rw [givenTo, List.map_flatMap, List.flatMap_map]
  congr 1
  funext x
  simp

theorem testsOf_eq (lib_group : List TestboxTestgroup) :
    testsOf lib_group = (suitesOf lib_group).flatMap (·.testcases) := by
  rw [suitesOf, List.flatMap_assoc]
  rfl

/-- **A load that succeeds** binds the names of the tests that are valid for the board, unless they
are bound already, each to the first of them; and each suite gets its own. -/
theorem load_registers {H : Host} {s s' : Daemon} {lib : List Char} {info : TestcaseNod}
    (hst : s.Step H (.load lib ⟨true, true, true⟩ info) s') (hT : H.testbox.Adds)
    (hfresh : s.registry.Fresh) (hinfo : info.args.length = H.testbox.TB_MAX_ARGS)
    (hmax : 0 < H.testbox.TB_MAX_ARGS)
    (hfit : ∀ tc ∈ testsOf (H.groupsOf lib), tc.Fits H.testbox) :
    Binds H.testbox (H.loader.handle lib) (testsOf (H.groupsOf lib)) s.registry s'.registry ∧
      ∃ xs : List (TestboxTestsuite × ℕ), xs.map Prod.fst = suitesOf (H.groupsOf lib) ∧
        (∀ x ∈ xs, s'.registry.Named x.2 x.1.suite_name) ∧
        Gives H.testbox (H.loader.handle lib) (givenTo xs) s.registry s'.registry := by
  cases hst with
  | loadFails _ _ _ hl =>
    simp [loadLib] at hl
  | load _ _ _ hl =>
    have hargs : info.args ≠ [] := List.ne_nil_of_length_pos (hinfo ▸ hmax)
    obtain ⟨-, xs, hxs, hnamed, hreg⟩ := registers_foldl (T := H.testbox)
      (H.loader.handle lib) (fun group => group.suites) (H.groupsOf lib) ⟨s.registry, info, 0⟩
      (fun group hgroup st hfresh hinfo => registers_testgroup hT hfresh hinfo group
        fun tc htc => hfit tc (List.mem_flatMap.mpr ⟨group, hgroup, htc⟩))
      hfresh.suites hargs
    refine ⟨?_, xs, hxs, hnamed, hreg.gives⟩
    have hbinds := hreg.binds
    rw [map_givenTo, hxs] at hbinds
    rw [testsOf_eq]
    exact hbinds

/-- The suite `U` declares `v` twice, and `w` for another board. -/
def repeatedTest : Host where
  loader := oneLibrary.loader
  testbox := plainTestbox
  lib_group _ := [⟨['A'], [⟨['U'], [], [⟨['v'], [], 1, false, 0, by decide⟩,
    ⟨['w'], [], 2, false, 1, by decide⟩, ⟨['v'], [], 1, false, 2, by decide⟩]⟩]⟩]

theorem adds_plainTestbox : plainTestbox.Adds where
  tb_case_addnode _ _ := rfl
  tb_suite_addtest _ _ _ := rfl
  tb_group_addsuite _ _ _ := rfl
  tb_suite_addnode _ _ _ h := by cases h

/-- The name `v` is bound to the first of the two. -/
theorem load_registers_repeatedTest : ∃ s',
    Daemon.start.Step repeatedTest (.load ['x'] ⟨true, true, true⟩ plainTestbox.zeroInfo) s' ∧
      Binds plainTestbox 1 (testsOf (repeatedTest.groupsOf ['x'])) .start s'.registry := by
  have hst := Daemon.Step.load (H := repeatedTest) (s := .start) ['x'] ⟨true, true, true⟩
    plainTestbox.zeroInfo rfl
  have hfresh : Daemon.start.registry.Fresh := by
    constructor <;> simp [Daemon.start, Registry.start]
  have hfit : ∀ tc ∈ testsOf (repeatedTest.groupsOf ['x']), tc.Fits plainTestbox := by
    have htests : testsOf (repeatedTest.groupsOf ['x']) = [⟨['v'], [], 1, false, 0, by decide⟩,
      ⟨['w'], [], 2, false, 1, by decide⟩, ⟨['v'], [], 1, false, 2, by decide⟩] := rfl
    rw [htests]
    simp [TestboxTestcase.Fits, plainTestbox]
  exact ⟨_, hst, (load_registers hst adds_plainTestbox hfresh rfl (by decide) hfit).1⟩

end Dib
