import Dib.Registry.Daemon

/-!
# Names that libraries share

A load registers a test unless its name is taken; an unload deletes every name that its library
declares, whoever registered it.

* `Registry.Has`, `Daemon.AllFound`: the case is found; so is every test, valid for the board, of a
  loaded library;
* `importInv_has`, **`has_of_mem_testsOf`**, **`has_unregisterLib`**: what loads and unloads do to
  the names;
* `KeepsNames`, `allFound_step`: the steps that lose no test of a loaded library;
* **`kept_iff`**: after these, an unload keeps the tests of the other libraries exactly when it
  shares no name with them.
-/

set_option autoImplicit false

namespace Dib

open CString Lts

/-! ## Names in the case registry -/

/-- `tb_case_lookupnode` finds a case. -/
def Registry.Has (r : Registry) (name : List Char) : Prop := (tbCaseLookupnode r name).isSome

instance (r : Registry) (name : List Char) : Decidable (r.Has name) :=
  inferInstanceAs (Decidable (_ = true))

variable {T : LibTestbox} {r r' : Registry} {name : List Char} {p g handle : ℕ} {st : LibImport}

theorem has_iff : r.Has name ↔ ∃ c ∈ r.cases, cstr c.name = name := by
  simp [Registry.Has, tbCaseLookupnode]

theorem Registry.Has.of_cases (h : r.Has name) (hc : r'.cases = r.cases) : r'.Has name := by
  rw [has_iff] at h ⊢
  rwa [hc]

theorem has_tbCaseAddnode {c : TestcaseNod} (h : tbCaseAddnode T r c = some r') :
    r'.Has name ↔ r.Has name ∨ cstr c.name = name := by
  obtain ⟨-, ⟨⟩⟩ := Option.ite_none_right_eq_some.mp h
  simp [has_iff, or_and_right, exists_or]

/-- **The names left by an unload.** -/
theorem has_unregisterLib (lib_group : List TestboxTestgroup) :
    (unregisterLib lib_group r).Has name ↔ r.Has name ∧ name ∉ testNames lib_group := by
  simp only [has_iff, mem_cases_unregisterLib]
  constructor
  · rintro ⟨c, ⟨hc, hn⟩, rfl⟩
    exact ⟨⟨c, hc, rfl⟩, hn⟩
  · rintro ⟨⟨c, hc, rfl⟩, hn⟩
    exact ⟨c, ⟨hc, hn⟩, rfl⟩

/-! ## Imports -/

theorem cases_addToSuite : (addToSuite T p st).registry.cases = st.registry.cases := by
  unfold addToSuite
  split
  · next h => exact cases_tbSuiteAddtest h
  · rfl

theorem has_addToCases (h : st.registry.Has name) (test_name : List Char) :
    (addToCases T test_name st).registry.Has name := by
  unfold addToCases
  split
  · exact h
  · split
    · next hr => exact (has_tbCaseAddnode hr).mpr (.inl h)
    · exact h

theorem has_loadTestcase (h : st.registry.Has name) (tc : TestboxTestcase) :
    (loadTestcase T handle p st tc).registry.Has name := by
  unfold loadTestcase
  split
  · refine has_addToCases (Registry.Has.of_cases ?_ cases_addToSuite) _
    exact h
  · exact h

theorem has_foldl_of_mem {α : Type} {f : LibImport → α → LibImport}
    (hf : ∀ st a, st.registry.Has name → (f st a).registry.Has name) {l : List α} {a : α}
    (ha : a ∈ l) (hset : ∀ st, (f st a).registry.Has name) (st : LibImport) :
    (l.foldl f st).registry.Has name := by
  obtain ⟨l₁, l₂, rfl⟩ := List.append_of_mem ha
  rw [List.foldl_append, List.foldl_cons]
  exact registry_foldl (P := (Registry.Has · name)) hf l₂ (hset _)

theorem cases_loadTestsuite (suite : TestboxTestsuite) :
    (loadTestsuite T handle g st suite).registry.cases =
      (suite.testcases.foldl
        (loadTestcase T handle (tbSuiteAddnode T st.registry suite.suite_name).2)
        { st with
          registry := setDescr T (tbSuiteAddnode T st.registry suite.suite_name).1
            (tbSuiteAddnode T st.registry suite.suite_name).2
            suite.suite_descr }).registry.cases := by
  unfold loadTestsuite
  dsimp only
  split
  · next h => exact cases_tbGroupAddsuite h
  · rfl

/-- **An import** keeps the names. -/
theorem importInv_has : ImportInv T handle (·.Has name) where
  suiteAddnode r suite_name h := h.of_cases (cases_tbSuiteAddnode T r suite_name)
  setDescr _ _ _ h := h
  groupAddnode r group_name h := h.of_cases (cases_tbGroupAddnode T r group_name)
  groupAddsuite _ _ _ _ h hr := h.of_cases (cases_tbGroupAddsuite hr)
  testcase _ _ tc h := has_loadTestcase h tc

/-- The name fits into that of a `tb_testcase_nod_t`. -/
def TestboxTestcase.Fits (T : LibTestbox) (tc : TestboxTestcase) : Prop :=
  tc.test_name.length < T.TB_STR_LEN - 1

theorem has_loadTestcase_self (hadd : ∀ r c, T.tb_case_addnode r c = true) {tc : TestboxTestcase}
    (hv : tc.Valid T) (hfit : tc.Fits T) (st : LibImport) :
    (loadTestcase T handle p st tc).registry.Has tc.test_name := by
  rw [loadTestcase, if_pos hv, addToCases]
  split
  · next c h =>
    rw [Registry.Has, h]
    rfl
  · rw [testcase_info_addToSuite, tbCaseAddnode, if_pos (hadd _ _)]
    refine (has_tbCaseAddnode (T := T) (by rw [tbCaseAddnode, if_pos (hadd _ _)])).mpr (.inr ?_)
    exact cstr_strncpy tc.name_ok hfit

/-- **An import registers the tests of its library.** -/
theorem has_of_mem_testsOf (hadd : ∀ r c, T.tb_case_addnode r c = true)
    {lib_group : List TestboxTestgroup} {tc : TestboxTestcase} (htc : tc ∈ testsOf lib_group)
    (hv : tc.Valid T) (hfit : tc.Fits T) (info : TestcaseNod) :
    (registerLib T handle lib_group info r).registry.Has tc.test_name := by
  obtain ⟨group, hgroup, htc⟩ := List.mem_flatMap.mp htc
  obtain ⟨suite, hsuite, htc⟩ := List.mem_flatMap.mp htc
  apply has_foldl_of_mem (fun _ group hst => importInv_has.testgroup group hst) hgroup
  intro st
  apply has_foldl_of_mem (fun _ suite hst => importInv_has.testsuite suite hst) hsuite
  intro st
  refine Registry.Has.of_cases ?_ (cases_loadTestsuite suite)
  exact has_foldl_of_mem (fun _ tc hst => has_loadTestcase hst tc) htc
    (has_loadTestcase_self hadd hv hfit) _

/-! ## The property and the condition -/

/-- Every test of the library that is valid for the board is found. -/
def Host.Found (H : Host) (h : ℕ) (r : Registry) : Prop :=
  ∀ tc ∈ testsOf (H.lib_group h), tc.Valid H.testbox → r.Has tc.test_name

/-- The library `b` declares the name of a test of `a` that is valid for the board. -/
def Host.Shares (H : Host) (a b : ℕ) : Prop :=
  ∃ tc ∈ testsOf (H.lib_group a), tc.Valid H.testbox ∧ tc.test_name ∈ testNames (H.lib_group b)

/-- The tests of all loaded libraries are found. -/
def Daemon.AllFound (H : Host) (s : Daemon) : Prop :=
  ∀ h, s.libs.Loaded h → H.Found h s.registry

/-- A load imports names that fit, and an unload shares none with a library that keeps a node. -/
def KeepsNames (H : Host) (s : Daemon) : DaemonCall → Prop
  | .load lib _ _ => ∀ tc ∈ testsOf (H.groupsOf lib), tc.Valid H.testbox → tc.Fits H.testbox
  | .unload lib o => o.ok = true →
      ∀ v ∈ s.libs.nodes.eraseP fun v => v.lib_handle = H.loader.handle lib,
        ¬ H.Shares v.lib_handle (H.loader.handle lib)
  | .groupFile _ => True

/-- `unload_lib` is called on `lib` and returns `TB_OK`. -/
def Daemon.Unloaded (H : Host) (s : Daemon) (lib : List Char) (s' : Daemon) : Prop :=
  ∃ o libs, unloadLib H.loader lib o s.libs = some (libs, .removed) ∧
    s' = ⟨libs, unregisterLib (H.groupsOf lib) s.registry⟩

/-! ## Steps -/

variable {H : Host} {s s' : Daemon} {c : DaemonCall}

/-- **An unload keeps the tests of a library exactly when it shares no name with it.** -/
theorem found_unregisterLib {a b : ℕ} :
    H.Found a (unregisterLib (H.lib_group b) r) ↔ H.Found a r ∧ ¬ H.Shares a b := by
  simp only [Host.Found, Host.Shares, has_unregisterLib]
  constructor
  · refine fun h => ⟨fun tc htc hv => (h tc htc hv).1, ?_⟩
    rintro ⟨tc, htc, hv, hn⟩
    exact (h tc htc hv).2 hn
  · exact fun ⟨h1, h2⟩ tc htc hv => ⟨h1 tc htc hv, fun hn => h2 ⟨tc, htc, hv, hn⟩⟩

theorem Host.Found.of_has {h : ℕ} (hf : H.Found h r) (hr : ∀ name, r.Has name → r'.Has name) :
    H.Found h r' :=
  fun tc htc hv => hr _ (hf tc htc hv)

theorem allFound_step (hadd : ∀ r c, H.testbox.tb_case_addnode r c = true)
    (hs : s.libs.WF ∧ s.AllFound H) (hC : KeepsNames H s c) (hst : s.Step H c s') :
    s'.libs.WF ∧ s'.AllFound H := by
  cases hst with
  | load lib o info hl =>
    obtain ⟨hwf, hnodes⟩ := nodes_loadLib hs.1 hl
    refine ⟨hwf, ?_⟩
    rintro h ⟨v, hv, rfl⟩
    rw [hnodes, if_pos rfl] at hv
    rcases List.mem_cons.mp hv with rfl | hv
    · exact fun tc htc hvalid => has_of_mem_testsOf hadd htc hvalid (hC tc htc hvalid) info
    · exact (hs.2 _ ⟨v, hv, rfl⟩).of_has fun name hn => importInv_has.registerLib _ info hn
  | loadFails lib o info hl =>
    obtain ⟨hwf, hnodes⟩ := nodes_loadLib hs.1 hl
    exact ⟨hwf, fun h ⟨v, hv, hvh⟩ => hs.2 h ⟨v, by simpa [hnodes] using hv, hvh⟩⟩
  | unload lib o hu =>
    obtain ⟨hwf, he, hnodes⟩ := nodes_unloadLib hs.1 hu
    refine ⟨hwf, ?_⟩
    rintro h ⟨v, hv, rfl⟩
    cases hok : o.ok with
    | false =>
      rw [hnodes, hok] at hv
      rw [if_pos (he.mpr hok)]
      exact hs.2 _ ⟨v, hv, rfl⟩
    | true =>
      rw [hnodes, if_pos hok] at hv
      rw [if_neg fun h => by simp [he.mp h] at hok]
      exact found_unregisterLib.mpr ⟨hs.2 _ ⟨v, List.mem_of_mem_eraseP hv, rfl⟩, hC hok v hv⟩
  | groupFile file rounds hf =>
    have hkeep : s.registry.Keeps s.registry.cases fun _ => True :=
      ⟨rfl, fun _ _ _ _ => trivial, fun _ _ _ _ _ _ => trivial⟩
    have hcases := (keeps_addGroupFromFile hkeep hf).1
    exact ⟨hs.1, fun h hh => (hs.2 h hh).of_has fun name hn => hn.of_cases hcases⟩

/-- **After a run that lost no test of a loaded library, `unload_lib` keeps the tests of the other
libraries exactly when its library declares none of their names.** -/
theorem kept_iff {tr : List (Daemon × DaemonCall)} (h : (daemon H).Run tr s)
    (hadd : ∀ r c, H.testbox.tb_case_addnode r c = true) (hC : ∀ p ∈ tr, KeepsNames H p.1 p.2)
    (lib : List Char) (hu : s.Unloaded H lib s') :
    (∀ a, s.libs.Loaded a → a ≠ H.loader.handle lib → H.Found a s'.registry) ↔
      ∀ a, s.libs.Loaded a → a ≠ H.loader.handle lib → ¬ H.Shares a (H.loader.handle lib) := by
  obtain ⟨o, libs, -, rfl⟩ := hu
  obtain ⟨-, hfound⟩ : s.libs.WF ∧ s.AllFound H := by
    refine h.invariant_of_meets (I := fun s => s.libs.WF ∧ s.AllFound H) (fun s hs => ?_)
      (fun s c s' hs hC hst => allFound_step hadd hs hC hst) hC
    obtain rfl : s = .start := hs
    exact ⟨wf_start, fun h ⟨v, hv, _⟩ => absurd hv (by simp [Daemon.start, LibState.nodes,
      LibState.start, Linked.Heap.walk])⟩
  refine forall_congr' fun a => forall_congr' fun ha => forall_congr' fun _ => ?_
  exact found_unregisterLib.trans (and_iff_right (hfound a ha))

/-! ## Three libraries, two of which declare the same name -/

/-- The group `B` with the suite `V`, whose only test is `u`. -/
def otherTest : List TestboxTestgroup :=
  [⟨['B'], [⟨['V'], [], [⟨['u'], [], 1, false, 0, by decide⟩]⟩]⟩]

/-- `a` and `b` declare the test `t`, all others `u`. -/
def threeLibraries : Host where
  loader.handle lib := if lib = ['a'] then 1 else if lib = ['b'] then 2 else 3
  loader.needs _ _ := False
  loader.TB_MAX_PATH_LEN := 256
  testbox := plainTestbox
  lib_group h := if h = 3 then otherTest else oneTest

theorem testsOf_oneTest : testsOf oneTest = [⟨['t'], [], 1, false, 0, by decide⟩] := rfl

theorem testsOf_otherTest : testsOf otherTest = [⟨['u'], [], 1, false, 0, by decide⟩] := rfl

theorem fits_threeLibraries (h : ℕ) (tc : TestboxTestcase)
    (htc : tc ∈ testsOf (threeLibraries.lib_group h)) : tc.Fits threeLibraries.testbox := by
  by_cases h3 : h = 3
  · rw [show threeLibraries.lib_group h = otherTest from if_pos h3, testsOf_otherTest] at htc
    obtain rfl := List.mem_singleton.mp htc
    exact Nat.lt_of_sub_pos (Nat.succ_pos _)
  · rw [show threeLibraries.lib_group h = oneTest from if_neg h3, testsOf_oneTest] at htc
    obtain rfl := List.mem_singleton.mp htc
    exact Nat.lt_of_sub_pos (Nat.succ_pos _)

/-- Unloading `c` keeps the test of `a`. -/
theorem kept_a : ∃ tr s s', (daemon threeLibraries).Run tr s ∧ s.Unloaded threeLibraries ['c'] s' ∧
    s.libs.Loaded 1 ∧ ∀ a, s.libs.Loaded a → a ≠ 3 → threeLibraries.Found a s'.registry := by
  have h0 : (daemon threeLibraries).Run [] .start := .start rfl
  have h1 := h0.snoc (.load ['a'] ⟨true, true, true⟩ plainTestbox.zeroInfo rfl)
  have h2 := h1.snoc (.load ['c'] ⟨true, true, true⟩ plainTestbox.zeroInfo rfl)
  refine ⟨_, _, _, h2, ⟨⟨true, true, true⟩, _, rfl, rfl⟩, ⟨⟨['a'], 1⟩, by decide, rfl⟩, ?_⟩
  refine (kept_iff h2 (fun _ _ => rfl) (fun p hp => ?_) ['c']
    ⟨⟨true, true, true⟩, _, rfl, rfl⟩).mpr ?_
  · simp only [List.mem_append, List.mem_singleton, List.not_mem_nil, false_or] at hp
    rcases hp with rfl | rfl <;> exact fun tc htc _ => fits_threeLibraries _ tc htc
  · rintro a ⟨v, hv, rfl⟩ hne ⟨tc, htc, -, hn⟩
    rcases List.mem_cons.mp hv with rfl | hv
    · exact hne rfl
    · obtain rfl : v = ⟨['a'], 1⟩ := List.mem_singleton.mp hv
      obtain rfl := List.mem_singleton.mp htc
      revert hn
      decide

/-- Unloading `b` loses the test of `a`. -/
theorem case_of_a_lost : ∃ tr s s', (daemon threeLibraries).Run tr s ∧
    s.libs.nodes.map (·.lib_handle) = [2, 1] ∧ s.Unloaded threeLibraries ['b'] s' ∧
    s'.libs.Loaded 1 ∧ ¬ threeLibraries.Found 1 s'.registry := by
  have h0 : (daemon threeLibraries).Run [] .start := .start rfl
  have h1 := h0.snoc (.load ['a'] ⟨true, true, true⟩ plainTestbox.zeroInfo rfl)
  have h2 := h1.snoc (.load ['b'] ⟨true, true, true⟩ plainTestbox.zeroInfo rfl)
  refine ⟨_, _, _, h2, rfl, ⟨⟨true, true, true⟩, _, rfl, rfl⟩, ⟨⟨['a'], 1⟩, by decide, rfl⟩, ?_⟩
  intro h
  have h3 := h ⟨['t'], [], 1, false, 0, by decide⟩ List.mem_cons_self (by decide)
  revert h3
  decide

end Dib
