import Dib.Registry.Import
import Dib.Registry.Unloads

/-!
# Loads that an unload undoes

A load of a library of which nothing is registered adds nodes behind those that are there, and the
unload takes these away.

* `Registry.plus`: a registry with more nodes behind it; `Added`: what an import adds;
* `added_groupAddnode`, `added_suiteAddnode`, `added_onSuite`, `added_case`, `added_groupAddsuite`:
  the steps of an import; **`registerLib_plus`**: the import;
* `Registry.Extends`, `Registry.HasGroup`, **`declared_registerLib`**: nothing goes, and all groups
  and suites of the library are there afterwards;
* `unregisterLib_eq`: the deletions of an unload, all at once;
* `unregisterLib_plus`: they take away what was added;
* **`unload_undoes_iff`**: an unload right after the load undoes it exactly when no name was taken.
-/

set_option autoImplicit false

namespace Dib

open CString

/-! ## Statement -/

/-- A group that libtestbox returns for a name has that name. -/
structure LibTestbox.AddsNodes (T : LibTestbox) : Prop extends T.Adds where
  tb_group_addnode : ∀ r name p, T.tb_group_addnode r name = some p →
    ∃ g ∈ r.groups, g.addr = p ∧ g.name = name

def suiteNames (lib_group : List TestboxTestgroup) : List (List Char) :=
  (suitesOf lib_group).map (·.suite_name)

/-- The same nodes; an address that is given next may differ. -/
structure Registry.Same (r r' : Registry) : Prop where
  cases : r.cases = r'.cases
  suites : r.suites = r'.suites
  groups : r.groups = r'.groups

/-! ## Nodes behind those that are there -/

/-- The nodes of `d` come behind those of `r`. -/
def Registry.plus (r d : Registry) : Registry :=
  ⟨r.cases ++ d.cases, r.suites ++ d.suites, r.groups ++ d.groups, d.next⟩

/-- What an import of these groups has added, at addresses from `base` on, when it has come to
this group and to this suite. -/
structure Added (lib_group : List TestboxTestgroup) (base : ℕ) (group_info suite_info : Option ℕ)
    (d : Registry) : Prop where
  cases : ∀ c ∈ d.cases, cstr c.name ∈ testNames lib_group
  suites : ∀ s ∈ d.suites, s.name ∈ suiteNames lib_group ∧ base ≤ s.addr
  groups : ∀ g ∈ d.groups, g.name ∈ groupNames lib_group ∧ base ≤ g.addr
  members : ∀ g ∈ d.groups, ∀ p ∈ g.suites, ∃ s ∈ d.suites, s.addr = p
  /-- Only the suite that it has come to may be in no group. -/
  owned : ∀ s ∈ d.suites, s.addr ∈ suite_info ∨ ∃ g ∈ d.groups, s.addr ∈ g.suites
  group_info : ∀ g ∈ group_info, ∃ x ∈ d.groups, x.addr = g
  suite_info : ∀ p ∈ suite_info, ∃ s ∈ d.suites, s.addr = p
  fresh : d.Fresh
  next : base ≤ d.next

/-- The import into `r` has come to `r'`. -/
def Adding (lib_group : List TestboxTestgroup) (r : Registry) (group_info suite_info : Option ℕ)
    (r' : Registry) : Prop :=
  ∃ d, r' = r.plus d ∧ Added lib_group r.next group_info suite_info d

/-- No suite has a name that the library declares. -/
def NoSuiteNamed (lib_group : List TestboxTestgroup) (r : Registry) : Prop :=
  ∀ s ∈ r.suites, s.name ∉ suiteNames lib_group

variable {T : LibTestbox} {lib_group : List TestboxTestgroup} {r r' r'' d : Registry}
  {group_info suite_info : Option ℕ} {g p handle : ℕ}

/-! ## The steps of an import -/

theorem adding_start (r : Registry) : Adding lib_group r none none r := by
  refine ⟨⟨[], [], [], r.next⟩, by simp [Registry.plus], ?_⟩
  constructor
  case fresh => constructor <;> simp
  all_goals simp

theorem Adding.leave_group (h : Adding lib_group r group_info suite_info r') :
    Adding lib_group r none suite_info r' := by
  obtain ⟨d, rfl, hd⟩ := h
  exact ⟨d, rfl, { hd with group_info := by simp }⟩

theorem adding_groupAddnode (hT : T.AddsNodes) (hr : NoneRegistered lib_group r) {name : List Char}
    (hname : name ∈ groupNames lib_group) (h : Adding lib_group r none none r') :
    Adding lib_group r (some (tbGroupAddnode T r' name).2) none (tbGroupAddnode T r' name).1 := by
  obtain ⟨d, rfl, hd⟩ := h
  unfold tbGroupAddnode
  split
  · next p hp =>
    obtain ⟨x, hx, rfl, rfl⟩ := hT.tb_group_addnode _ _ _ hp
    have hmem : x ∈ d.groups :=
      (List.mem_append.mp hx).resolve_left fun h => hr.2 x h hname
    exact ⟨d, rfl, { hd with group_info := by simpa using ⟨x, hmem, rfl⟩ }⟩
  · refine ⟨{ d with groups := d.groups ++ [⟨d.next, name, []⟩], next := d.next + 1 }, ?_, ?_⟩
    · simp [Registry.plus]
    · exact
        { hd with
          groups := List.forall_mem_append.mpr ⟨hd.groups, by simpa using ⟨hname, hd.next⟩⟩
          members := List.forall_mem_append.mpr ⟨hd.members, by simp⟩
          owned := fun s hs => (hd.owned s hs).imp_right fun ⟨x, hx, hp⟩ =>
            ⟨x, List.mem_append_left _ hx, hp⟩
          group_info := by simp [Registry.plus]
          fresh := hd.fresh.group name
          next := Nat.le_succ_of_le hd.next }

theorem adding_suiteAddnode (hT : T.AddsNodes) (hr : NoSuiteNamed lib_group r) {name : List Char}
    (hname : name ∈ suiteNames lib_group) (h : Adding lib_group r group_info none r') :
    Adding lib_group r group_info (some (tbSuiteAddnode T r' name).2)
      (tbSuiteAddnode T r' name).1 := by
  obtain ⟨d, rfl, hd⟩ := h
  have howned : ∀ s ∈ d.suites, ∃ g ∈ d.groups, s.addr ∈ g.suites := fun s hs =>
    (hd.owned s hs).resolve_left (by simp)
  unfold tbSuiteAddnode
  split
  · next p hp =>
    obtain ⟨s, hs, rfl⟩ := hT.tb_suite_addnode _ _ _ hp
    have hmem : s ∈ d.suites := (List.mem_append.mp (List.mem_of_find?_eq_some hs)).resolve_left
      fun h => hr s h hname
    have haddr : s.addr = p := by simpa using List.find?_some hs
    exact ⟨d, rfl,
      { hd with
        owned := fun s hs => .inr (howned s hs)
        suite_info := by simpa using ⟨s, hmem, haddr⟩ }⟩
  · refine ⟨{ d with
        suites := d.suites ++ [⟨d.next, name, List.replicate T.TB_STR_LEN NUL, []⟩]
        next := d.next + 1 }, ?_, ?_⟩
    · simp [Registry.plus]
    · exact
        { hd with
          suites := List.forall_mem_append.mpr ⟨hd.suites, by simpa using ⟨hname, hd.next⟩⟩
          members := fun x hx p hp => (hd.members x hx p hp).imp fun s hs =>
            ⟨List.mem_append_left _ hs.1, hs.2⟩
          owned := List.forall_mem_append.mpr
            ⟨fun s hs => .inr (howned s hs), by simp [Registry.plus]⟩
          suite_info := by simp [Registry.plus]
          fresh :=
            { suites := List.forall_mem_append.mpr
                ⟨fun s hs => Nat.lt_succ_of_lt (hd.fresh.suites s hs), by simp⟩
              groups := fun x hx => Nat.lt_succ_of_lt (hd.fresh.groups x hx)
              members := fun x hx p hp => Nat.lt_succ_of_lt (hd.fresh.members x hx p hp) }
          next := Nat.le_succ_of_le hd.next }

theorem adding_onSuite (hr : r.Fresh) {f : TestsuiteNod → TestsuiteNod}
    (haddr : ∀ s, (f s).addr = s.addr) (hname : ∀ s, (f s).name = s.name)
    (h : Adding lib_group r group_info (some p) r') :
    Adding lib_group r group_info (some p) (r'.onSuite p f) := by
  obtain ⟨d, rfl, hd⟩ := h
  obtain ⟨x, hx, rfl⟩ := hd.suite_info p rfl
  have hold : (r.suites.map fun s => if s.addr = x.addr then f s else s) = r.suites := by
    conv_rhs => rw [← List.map_id r.suites]
    refine List.map_congr_left fun s hs => if_neg ?_
    exact ((hr.suites s hs).trans_le (hd.suites x hx).2).ne
  have hsame : ∀ s : TestsuiteNod,
      (if s.addr = x.addr then f s else s).addr = s.addr ∧
        (if s.addr = x.addr then f s else s).name = s.name := fun s => by
    split_ifs
    · exact ⟨haddr s, hname s⟩
    · exact ⟨rfl, rfl⟩
  refine ⟨d.onSuite x.addr f, by simp [Registry.plus, Registry.onSuite, hold], ?_⟩
  exact
    { hd with
      suites := List.forall_mem_map.mpr fun s hs => by
        rw [(hsame s).1, (hsame s).2]
        exact hd.suites s hs
      members := fun y hy p hp => by
        obtain ⟨s, hs, rfl⟩ := hd.members y hy p hp
        exact ⟨_, List.mem_map_of_mem hs, (hsame s).1⟩
      owned := List.forall_mem_map.mpr fun s hs => by
        rw [(hsame s).1]
        exact hd.owned s hs
      suite_info := by
        rintro _ ⟨⟩
        exact ⟨_, List.mem_map_of_mem hx, (hsame x).1⟩
      fresh := ⟨fresh_onSuite haddr hd.fresh.suites, hd.fresh.groups, hd.fresh.members⟩ }

theorem adding_case {c : TestcaseNod} (hc : cstr c.name ∈ testNames lib_group)
    (h : Adding lib_group r group_info suite_info r') :
    Adding lib_group r group_info suite_info { r' with cases := r'.cases ++ [c] } := by
  obtain ⟨d, rfl, hd⟩ := h
  refine ⟨{ d with cases := d.cases ++ [c] }, by simp [Registry.plus], ?_⟩
  exact
    { hd with
      cases := List.forall_mem_append.mpr ⟨hd.cases, by simpa using hc⟩
      fresh := ⟨hd.fresh.suites, hd.fresh.groups, hd.fresh.members⟩ }

theorem adding_groupAddsuite (hr : r.Fresh) (h : Adding lib_group r (some g) (some p) r')
    (hr'' : tbGroupAddsuite T r' g p = some r'') : Adding lib_group r (some g) none r'' := by
  obtain ⟨d, rfl, hd⟩ := h
  obtain ⟨-, ⟨⟩⟩ := Option.ite_none_right_eq_some.mp hr''
  obtain ⟨x, hx, rfl⟩ := hd.group_info g rfl
  obtain ⟨s₀, hs₀, rfl⟩ := hd.suite_info p rfl
  let put : TestgroupNod → TestgroupNod := fun y =>
    if y.addr = x.addr then { y with suites := y.suites ++ [s₀.addr] } else y
  have hold : r.groups.map put = r.groups := by
    conv_rhs => rw [← List.map_id r.groups]
    refine List.map_congr_left fun y hy => if_neg ?_
    exact ((hr.groups y hy).trans_le (hd.groups x hx).2).ne
  have hsame : ∀ y, (put y).addr = y.addr ∧ (put y).name = y.name := fun y => by
    simp only [put]
    split_ifs <;> exact ⟨rfl, rfl⟩
  have hput : ∀ y, ∀ q ∈ (put y).suites, q ∈ y.suites ∨ q = s₀.addr := fun y q hq => by
    simp only [put] at hq
    split_ifs at hq
    · simpa using hq
    · exact .inl hq
  have hkeep : ∀ y, ∀ q ∈ y.suites, q ∈ (put y).suites := fun y q hq => by
    simp only [put]
    split_ifs
    · exact List.mem_append_left _ hq
    · exact hq
  have hlast : s₀.addr ∈ (put x).suites := by simp [put]
  refine ⟨{ d with groups := d.groups.map put }, by simp [Registry.plus, put, hold], ?_⟩
  exact
    { hd with
      groups := List.forall_mem_map.mpr fun y hy => by
        rw [(hsame y).1, (hsame y).2]
        exact hd.groups y hy
      members := List.forall_mem_map.mpr fun y hy q hq => by
        rcases hput y q hq with hq | rfl
        · exact hd.members y hy q hq
        · exact ⟨s₀, hs₀, rfl⟩
      owned := fun s hs => .inr <| by
        rcases hd.owned s hs with h | ⟨y, hy, hq⟩
        · obtain h : s₀.addr = s.addr := by simpa using h
          exact ⟨_, List.mem_map_of_mem hx, h ▸ hlast⟩
        · exact ⟨_, List.mem_map_of_mem hy, hkeep y _ hq⟩
      group_info := by
        rintro _ ⟨⟩
        exact ⟨_, List.mem_map_of_mem hx, (hsame x).1⟩
      suite_info := by simp
      fresh :=
        { suites := hd.fresh.suites
          groups := List.forall_mem_map.mpr fun y hy => by
            rw [(hsame y).1]
            exact hd.fresh.groups y hy
          members := List.forall_mem_map.mpr fun y hy q hq => by
            rcases hput y q hq with hq | rfl
            · exact hd.fresh.members y hy q hq
            · exact hd.fresh.suites s₀ hs₀ } }

/-! ## The loops of an import -/

section Loops

variable (hT : T.AddsNodes) (hfresh : r.Fresh) {st : LibImport}
include hfresh

theorem adding_loadTestcase {tc : TestboxTestcase} (htc : tc ∈ testsOf lib_group)
    (hfit : tc.Fits T) (h : Adding lib_group r group_info (some p) st.registry) :
    Adding lib_group r group_info (some p) (loadTestcase T handle p st tc).registry := by
  unfold loadTestcase
  split
  swap
  · exact h
  generalize hinfo : fillTestcaseInfo T handle tc st.testcase_info = info
  have hname : cstr info.name = tc.test_name := hinfo ▸ cstr_strncpy tc.name_ok hfit
  have hsuite : Adding lib_group r group_info (some p)
      (addToSuite T p { st with testcase_info := info }).registry := by
    unfold addToSuite
    split
    · next hr =>
      obtain ⟨-, ⟨⟩⟩ := Option.ite_none_right_eq_some.mp hr
      exact adding_onSuite hfresh (fun _ => rfl) (fun _ => rfl) h
    · exact h
  unfold addToCases
  split
  · exact hsuite
  split
  · next hr =>
    obtain ⟨-, ⟨⟩⟩ := Option.ite_none_right_eq_some.mp hr
    refine adding_case ?_ hsuite
    rw [testcase_info_addToSuite, hname]
    exact List.mem_map_of_mem htc
  · exact hsuite

include hT

theorem adding_loadTestsuite (hr : NoSuiteNamed lib_group r) {suite : TestboxTestsuite}
    (hsuite : suite ∈ suitesOf lib_group) (hfit : ∀ tc ∈ testsOf lib_group, tc.Fits T)
    (h : Adding lib_group r (some g) none st.registry) :
    Adding lib_group r (some g) none (loadTestsuite T handle g st suite).registry := by
  have hadd := adding_suiteAddnode hT hr (List.mem_map_of_mem hsuite) h
  unfold loadTestsuite
  generalize tbSuiteAddnode T st.registry suite.suite_name = x at hadd
  obtain ⟨r₁, p⟩ := x
  dsimp only at hadd ⊢
  have hdescr : Adding lib_group r (some g) (some p) (setDescr T r₁ p suite.suite_descr) :=
    adding_onSuite hfresh (fun _ => rfl) (fun _ => rfl) hadd
  have htests : Adding lib_group r (some g) (some p) (suite.testcases.foldl
      (loadTestcase T handle p)
      { st with registry := setDescr T r₁ p suite.suite_descr }).registry := by
    refine List.foldlRecOn (motive := fun st : LibImport => Adding lib_group r (some g) (some p)
      st.registry) _ _ hdescr fun st hst tc htc => ?_
    have hmem : tc ∈ testsOf lib_group := by
      rw [testsOf_eq]
      exact List.mem_flatMap.mpr ⟨suite, hsuite, htc⟩
    exact adding_loadTestcase hfresh hmem (hfit tc hmem) hst
  rw [tbGroupAddsuite, if_pos (hT.tb_group_addsuite _ _ _)]
  exact adding_groupAddsuite hfresh htests (if_pos (hT.tb_group_addsuite _ _ _))

/-- **An import** of a library of which nothing is registered adds its nodes behind the others. -/
theorem registerLib_plus (hr : NoneRegistered lib_group r) (hsuites : NoSuiteNamed lib_group r)
    (hfit : ∀ tc ∈ testsOf lib_group, tc.Fits T) (info : TestcaseNod) :
    Adding lib_group r none none (registerLib T handle lib_group info r).registry := by
  refine List.foldlRecOn (motive := fun st : LibImport => Adding lib_group r none none
    st.registry) _ _ (adding_start r) fun st hst group hgroup => ?_
  have hadd := adding_groupAddnode hT hr (List.mem_map_of_mem hgroup) hst
  unfold loadTestgroup
  generalize tbGroupAddnode T st.registry group.group_name = x at hadd
  obtain ⟨r₁, g⟩ := x
  refine @Adding.leave_group _ _ _ (some g) _ ?_
  refine List.foldlRecOn (motive := fun st : LibImport => Adding lib_group r (some g) none
    st.registry) _ _ hadd fun st hst suite hsuite => ?_
  exact adding_loadTestsuite hT hfresh hsuites (List.mem_flatMap.mpr ⟨group, hgroup, hsuite⟩) hfit
    hst

end Loops

/-! ## What an import declares -/

/-- The nodes of `r` are still there, and groups may have got more suites. -/
structure Registry.Extends (r r' : Registry) : Prop where
  suites : ∀ s ∈ r.suites, ∃ s' ∈ r'.suites, s'.addr = s.addr ∧ s'.name = s.name
  groups : ∀ g ∈ r.groups, ∃ g' ∈ r'.groups, g'.addr = g.addr ∧ g'.name = g.name ∧
    g.suites ⊆ g'.suites

/-- There is a group with this name, and each of these suites is in such a group. -/
structure Registry.HasGroup (r : Registry) (group_name : List Char)
    (suite_names : List (List Char)) : Prop where
  group : ∃ g ∈ r.groups, g.name = group_name
  suites : ∀ suite_name ∈ suite_names, ∃ g ∈ r.groups, g.name = group_name ∧
    ∃ s ∈ r.suites, s.name = suite_name ∧ s.addr ∈ g.suites

namespace Registry.Extends

theorem refl (r : Registry) : r.Extends r :=
  ⟨fun s hs => ⟨s, hs, rfl, rfl⟩, fun g hg => ⟨g, hg, rfl, rfl, List.Subset.refl _⟩⟩

theorem trans (h : r.Extends r') (h' : r'.Extends r'') : r.Extends r'' where
  suites s hs := by
    obtain ⟨s', hs', haddr, hname⟩ := h.suites s hs
    obtain ⟨s'', hs'', haddr', hname'⟩ := h'.suites s' hs'
    exact ⟨s'', hs'', haddr'.trans haddr, hname'.trans hname⟩
  groups g hg := by
    obtain ⟨g', hg', haddr, hname, hsub⟩ := h.groups g hg
    obtain ⟨g'', hg'', haddr', hname', hsub'⟩ := h'.groups g' hg'
    exact ⟨g'', hg'', haddr'.trans haddr, hname'.trans hname, List.Subset.trans hsub hsub'⟩

theorem onSuite {f : TestsuiteNod → TestsuiteNod} (haddr : ∀ s, (f s).addr = s.addr)
    (hname : ∀ s, (f s).name = s.name) (r : Registry) (p : ℕ) : r.Extends (r.onSuite p f) where
  suites s hs := by
    refine ⟨_, List.mem_map_of_mem hs, ?_, ?_⟩
    · split_ifs
      · exact haddr s
      · rfl
    · split_ifs
      · exact hname s
      · rfl
  groups := (refl r).groups

theorem hasGroup {group_name : List Char} {suite_names : List (List Char)} (h : r.Extends r')
    (hr : r.HasGroup group_name suite_names) : r'.HasGroup group_name suite_names where
  group := by
    obtain ⟨g, hg, rfl⟩ := hr.group
    obtain ⟨g', hg', -, hname, -⟩ := h.groups g hg
    exact ⟨g', hg', hname⟩
  suites suite_name hmem := by
    obtain ⟨g, hg, rfl, s, hs, rfl, hin⟩ := hr.suites suite_name hmem
    obtain ⟨g', hg', -, hname, hsub⟩ := h.groups g hg
    obtain ⟨s', hs', haddr, hname'⟩ := h.suites s hs
    exact ⟨g', hg', hname, s', hs', hname', haddr ▸ hsub hin⟩

end Registry.Extends

theorem extends_setDescr (r : Registry) (p : ℕ) (descr : List Char) :
    r.Extends (setDescr T r p descr) := by
  refine Registry.Extends.onSuite ?_ ?_ _ _
  · exact fun _ => rfl
  · exact fun _ => rfl

theorem extends_addToCases (name : List Char) (st : LibImport) :
    st.registry.Extends (addToCases T name st).registry := by
  unfold addToCases
  split
  · exact .refl _
  split
  · next hr =>
    obtain ⟨-, ⟨⟩⟩ := Option.ite_none_right_eq_some.mp hr
    exact ⟨(Registry.Extends.refl _).suites, (Registry.Extends.refl _).groups⟩
  · exact .refl _

theorem extends_loadTestcase (handle p : ℕ) (st : LibImport) (tc : TestboxTestcase) :
    st.registry.Extends (loadTestcase T handle p st tc).registry := by
  unfold loadTestcase
  split
  swap
  · exact .refl _
  refine .trans ?_ (extends_addToCases _ _)
  unfold addToSuite
  split
  · next hr =>
    obtain ⟨-, ⟨⟩⟩ := Option.ite_none_right_eq_some.mp hr
    refine Registry.Extends.onSuite ?_ ?_ _ _
    · exact fun _ => rfl
    · exact fun _ => rfl
  · exact .refl _

theorem extends_foldl {α : Type} {f : LibImport → α → LibImport} {I : Registry → Prop}
    {P : α → Registry → Prop} (hI : ∀ r r', r.Extends r' → I r → I r')
    (hP : ∀ a r r', r.Extends r' → P a r → P a r') {l : List α} (st : LibImport)
    (hf : ∀ a ∈ l, ∀ st, I st.registry →
      st.registry.Extends (f st a).registry ∧ P a (f st a).registry) (hst : I st.registry) :
    st.registry.Extends (l.foldl f st).registry ∧ ∀ a ∈ l, P a (l.foldl f st).registry := by
  induction l generalizing st with
  | nil => exact ⟨.refl _, List.forall_mem_nil _⟩
  | cons a l ih =>
    obtain ⟨hext, ha⟩ := hf a List.mem_cons_self st hst
    obtain ⟨hext', hl⟩ := ih (f st a) (fun b hb => hf b (List.mem_cons_of_mem _ hb))
      (hI _ _ hext hst)
    exact ⟨hext.trans hext', List.forall_mem_cons.mpr ⟨hP a _ _ hext' ha, hl⟩⟩

theorem extends_suiteAddnode (hT : T.Adds) (r : Registry) (name : List Char) :
    r.Extends (tbSuiteAddnode T r name).1 ∧
      ∃ s ∈ (tbSuiteAddnode T r name).1.suites, s.addr = (tbSuiteAddnode T r name).2 ∧
        s.name = name := by
  unfold tbSuiteAddnode
  split
  · next p hp =>
    obtain ⟨s, hs, rfl⟩ := hT.tb_suite_addnode _ _ _ hp
    have haddr : s.addr = p := by simpa using List.find?_some hs
    exact ⟨.refl r, s, List.mem_of_find?_eq_some hs, haddr, rfl⟩
  · refine ⟨⟨fun s hs => ⟨s, List.mem_append_left _ hs, rfl, rfl⟩,
      (Registry.Extends.refl r).groups⟩, ⟨r.next, name, List.replicate T.TB_STR_LEN NUL, []⟩, ?_,
      rfl, rfl⟩
    simp

theorem extends_groupAddnode (hT : T.AddsNodes) (r : Registry) (name : List Char) :
    r.Extends (tbGroupAddnode T r name).1 ∧
      ∃ g ∈ (tbGroupAddnode T r name).1.groups, g.addr = (tbGroupAddnode T r name).2 ∧
        g.name = name := by
  unfold tbGroupAddnode
  split
  · next p hp => exact ⟨.refl r, hT.tb_group_addnode _ _ _ hp⟩
  · refine ⟨⟨(Registry.Extends.refl r).suites,
      fun g hg => ⟨g, List.mem_append_left _ hg, rfl, rfl, List.Subset.refl _⟩⟩,
      ⟨r.next, name, []⟩, ?_, rfl, rfl⟩
    simp

theorem extends_groupAddsuite (hr : tbGroupAddsuite T r g p = some r') :
    r.Extends r' ∧ ∀ x ∈ r.groups, x.addr = g →
      ∃ x' ∈ r'.groups, x'.name = x.name ∧ p ∈ x'.suites := by
  obtain ⟨-, ⟨⟩⟩ := Option.ite_none_right_eq_some.mp hr
  refine ⟨⟨(Registry.Extends.refl r).suites, fun x hx => ⟨_, List.mem_map_of_mem hx, ?_⟩⟩,
    fun x hx hg => ⟨_, List.mem_map_of_mem hx, ?_⟩⟩
  · split_ifs
    · exact ⟨rfl, rfl, List.subset_append_left _ _⟩
    · exact ⟨rfl, rfl, List.Subset.refl _⟩
  · rw [if_pos hg]
    exact ⟨rfl, List.mem_append_right _ List.mem_cons_self⟩

theorem hasGroup_loadTestsuite (hT : T.Adds) {st : LibImport} {group_name : List Char}
    (hg : ∃ x ∈ st.registry.groups, x.addr = g ∧ x.name = group_name) (suite : TestboxTestsuite) :
    st.registry.Extends (loadTestsuite T handle g st suite).registry ∧
      (loadTestsuite T handle g st suite).registry.HasGroup group_name [suite.suite_name] := by
  obtain ⟨hadd, hsuite⟩ := extends_suiteAddnode hT st.registry suite.suite_name
  unfold loadTestsuite
  generalize tbSuiteAddnode T st.registry suite.suite_name = x at hadd hsuite
  obtain ⟨r₁, p⟩ := x
  dsimp only at hadd hsuite ⊢
  have hdescr : r₁.Extends (setDescr T r₁ p suite.suite_descr) := extends_setDescr r₁ p _
  obtain ⟨htests, -⟩ := extends_foldl (I := fun _ => True) (P := fun _ _ => True)
    (f := loadTestcase T handle p) (l := suite.testcases) (fun _ _ _ h => h) (fun _ _ _ _ h => h)
    { st with registry := setDescr T r₁ p suite.suite_descr }
    (fun tc _ st _ => ⟨extends_loadTestcase handle p st tc, trivial⟩) trivial
  generalize suite.testcases.foldl (loadTestcase T handle p)
    { st with registry := setDescr T r₁ p suite.suite_descr } = st' at htests
  obtain ⟨r₂, hr₂⟩ : ∃ r₂, tbGroupAddsuite T st'.registry g p = some r₂ :=
    ⟨_, if_pos (hT.tb_group_addsuite _ _ _)⟩
  obtain ⟨hlast, hput⟩ := extends_groupAddsuite hr₂
  have hbefore := hdescr.trans htests
  rw [hr₂]
  -- the group and the suite are still there when the one gets the other
  obtain ⟨x, hx, rfl, rfl⟩ := hg
  obtain ⟨x', hx', haddr, hname, -⟩ := (hadd.trans hbefore).groups x hx
  obtain ⟨y, hy, hyname, hyp⟩ := hput x' hx' haddr
  obtain ⟨s, hs, rfl, hsname⟩ := hsuite
  obtain ⟨s', hs', hsaddr, hsname'⟩ := (hbefore.trans hlast).suites s hs
  refine ⟨(hadd.trans hbefore).trans hlast, ⟨y, hy, hyname.trans hname⟩, fun name hmem => ?_⟩
  obtain rfl := List.mem_singleton.mp hmem
  exact ⟨y, hy, hyname.trans hname, s', hs', hsname'.trans hsname, hsaddr ▸ hyp⟩

/-- **After an import** all groups of the library are there, with all their suites. -/
theorem declared_registerLib (hT : T.AddsNodes) (lib_group : List TestboxTestgroup)
    (info : TestcaseNod) (r : Registry) :
    ∀ group ∈ lib_group, (registerLib T handle lib_group info r).registry.HasGroup group.group_name
      (group.suites.map (·.suite_name)) := by
  have hgroup : ∀ (st : LibImport) (group : TestboxTestgroup),
      st.registry.Extends (loadTestgroup T handle st group).registry ∧
        (loadTestgroup T handle st group).registry.HasGroup group.group_name
          (group.suites.map (·.suite_name)) := fun st group => by
    obtain ⟨hadd, hg⟩ := extends_groupAddnode hT st.registry group.group_name
    unfold loadTestgroup
    generalize tbGroupAddnode T st.registry group.group_name = x at hadd hg
    obtain ⟨r₁, g⟩ := x
    dsimp only at hadd hg ⊢
    obtain ⟨hext, hall⟩ := extends_foldl
      (I := fun r => ∃ x ∈ r.groups, x.addr = g ∧ x.name = group.group_name)
      (P := fun (suite : TestboxTestsuite) r => r.HasGroup group.group_name [suite.suite_name])
      (f := loadTestsuite T handle g) (l := group.suites)
      (fun r r' h ⟨x, hx, haddr, hname⟩ =>
        have ⟨x', hx', haddr', hname', _⟩ := h.groups x hx
        ⟨x', hx', haddr'.trans haddr, hname'.trans hname⟩)
      (fun _ _ _ h hr => h.hasGroup hr) { st with registry := r₁ }
      (fun suite _ st hst => hasGroup_loadTestsuite hT.toAdds hst suite) hg
    refine ⟨hadd.trans hext, ?_, fun suite_name hmem => ?_⟩
    · obtain ⟨x, hx, -, hname⟩ := hg
      obtain ⟨x', hx', -, hname', -⟩ := hext.groups x hx
      exact ⟨x', hx', hname'.trans hname⟩
    · obtain ⟨suite, hsuite, rfl⟩ := List.mem_map.mp hmem
      exact (hall suite hsuite).suites _ List.mem_cons_self
  exact (extends_foldl (I := fun _ => True)
    (P := fun (group : TestboxTestgroup) r => r.HasGroup group.group_name
      (group.suites.map TestboxTestsuite.suite_name))
    (f := loadTestgroup T handle) (fun _ _ _ h => h) (fun _ _ _ h hr => h.hasGroup hr) _
    (fun group _ st _ => hgroup st group) trivial).2

/-! ## Unloads -/

theorem groupNames_cons (group : TestboxTestgroup) (l : List TestboxTestgroup) :
    groupNames (group :: l) = group.group_name :: groupNames l := rfl

theorem testNames_cons (group : TestboxTestgroup) (l : List TestboxTestgroup) :
    testNames (group :: l) = group.tests.map (·.test_name) ++ testNames l := by
  rw [testNames, testsOf, List.flatMap_cons, List.map_append]
  rfl

/-- **All deletions at once.** -/
theorem unregisterLib_eq (lib_group : List TestboxTestgroup) (r : Registry) :
    unregisterLib lib_group r =
      { cases := r.cases.filter fun c => cstr c.name ∉ testNames lib_group
        suites := r.suites.filter fun s =>
          ¬ ∃ g ∈ r.groups, g.name ∈ groupNames lib_group ∧ s.addr ∈ g.suites
        groups := r.groups.filter fun g => g.name ∉ groupNames lib_group
        next := r.next } := by
  unfold unregisterLib
  induction lib_group generalizing r with
  | nil => simp [testNames, testsOf, groupNames]
  | cons group l ih =>
    have hsuite : ∀ s : TestsuiteNod,
        ((¬ ∃ g ∈ r.groups, g.name = group.group_name ∧ s.addr ∈ g.suites) ∧
          ¬ ∃ g ∈ r.groups, g.name ≠ group.group_name ∧ g.name ∈ groupNames l ∧
            s.addr ∈ g.suites) ↔
        ¬ ∃ g ∈ r.groups, g.name ∈ groupNames (group :: l) ∧ s.addr ∈ g.suites := fun s => by
      rw [groupNames_cons, ← not_or, not_iff_not]
      constructor
      · rintro (⟨g, hg, hn, hs⟩ | ⟨g, hg, -, hn, hs⟩)
        · exact ⟨g, hg, hn ▸ List.mem_cons_self, hs⟩
        · exact ⟨g, hg, List.mem_cons_of_mem _ hn, hs⟩
      · rintro ⟨g, hg, hn, hs⟩
        by_cases h : g.name = group.group_name
        · exact .inl ⟨g, hg, h, hs⟩
        · exact .inr ⟨g, hg, h, (List.mem_cons.mp hn).resolve_left h, hs⟩
    rw [List.foldl_cons, ih, unloadTestgroup_eq]
    simp only [tbGroupDeletenodeByName, List.filter_filter]
    congr 1
    · refine List.filter_congr fun c _ => Bool.eq_iff_iff.mpr ?_
      simp only [testNames_cons, Bool.and_eq_true, decide_eq_true_eq, List.mem_append, not_or,
        and_comm]
    · refine List.filter_congr fun s _ => Bool.eq_iff_iff.mpr ?_
      simp only [Bool.and_eq_true, decide_eq_true_eq, List.mem_filter, and_assoc, ← hsuite s]
      exact and_comm
    · refine List.filter_congr fun g _ => Bool.eq_iff_iff.mpr ?_
      simp only [groupNames_cons, Bool.and_eq_true, decide_eq_true_eq, List.mem_cons, not_or,
        and_comm]

/-- **What was added is deleted**, and nothing else. -/
theorem unregisterLib_plus (hfresh : r.Fresh) (hr : NoneRegistered lib_group r)
    (hd : Added lib_group r.next none none d) :
    unregisterLib lib_group (r.plus d) = { r with next := d.next } := by
  have hsuite : ∀ s ∈ r.suites,
      ¬ ∃ g ∈ r.groups ++ d.groups, g.name ∈ groupNames lib_group ∧ s.addr ∈ g.suites := by
    rintro s hs ⟨g, hg, hn, hsg⟩
    rcases List.mem_append.mp hg with hg | hg
    · exact hr.2 g hg hn
    · obtain ⟨s', hs', haddr⟩ := hd.members g hg _ hsg
      have h1 := hfresh.suites s hs
      have h2 := (hd.suites s' hs').2
      omega
  have hadded : ∀ s ∈ d.suites,
      ∃ g ∈ r.groups ++ d.groups, g.name ∈ groupNames lib_group ∧ s.addr ∈ g.suites := fun s hs =>
    have ⟨g, hg, hsg⟩ := (hd.owned s hs).resolve_left (by simp)
    ⟨g, List.mem_append_right _ hg, (hd.groups g hg).1, hsg⟩
  rw [unregisterLib_eq, Registry.plus]
  congr 1
  · rw [List.filter_append, List.filter_eq_self.mpr fun c hc => by simpa using hr.1 c hc,
      List.filter_eq_nil_iff.mpr fun c hc => by simpa using hd.cases c hc, List.append_nil]
  · rw [List.filter_append, List.filter_eq_self.mpr fun s hs => by simpa using hsuite s hs,
      List.filter_eq_nil_iff.mpr fun s hs => by simpa using hadded s hs, List.append_nil]
  · rw [List.filter_append, List.filter_eq_self.mpr fun g hg => by simpa using hr.2 g hg,
      List.filter_eq_nil_iff.mpr fun g hg => by simpa using (hd.groups g hg).1, List.append_nil]

/-! ## A load and its unload -/

variable {H : Host} {s s' : Daemon} {lib : List Char} {info : TestcaseNod}

theorem libs_load_unload {ls₁ : LibState} (hs : s.libs.WF)
    (hl : loadLib H.loader lib ⟨true, true, true⟩ s.libs = some (ls₁, true)) :
    ∃ ls₂, unloadLib H.loader lib ⟨true, true, true⟩ ls₁ = some (ls₂, .removed) ∧
      ls₂.nodes = s.libs.nodes ∧ ∀ h, ls₂.refs h = s.libs.refs h := by
  obtain ⟨ls, h1, hwf, hnodes, hrefs⟩ := loadLib_spec (L := H.loader) hs lib ⟨true, true, true⟩
  obtain ⟨rfl, -⟩ := Prod.mk.inj (Option.some.inj (h1.symm.trans hl))
  replace hnodes : ls.nodes = H.loader.node lib :: s.libs.nodes := by simpa using hnodes
  have hloaded : ls.Loaded (H.loader.handle lib) :=
    ⟨H.loader.node lib, by rw [hnodes]; exact List.mem_cons_self, rfl⟩
  obtain ⟨ls₂, h2, -⟩ := unloadLib_loaded (o := ⟨true, true, true⟩) hwf rfl hloaded
  refine ⟨ls₂, h2, ?_⟩
  obtain ⟨-, heff⟩ := unloadLib_spec hwf h2
  have hnodes₂ := (nodes_unloadLib hwf h2).2.2
  rw [hnodes] at hnodes₂
  refine ⟨by simpa [UnloadAnswers.ok, Loader.node] using hnodes₂, fun h => ?_⟩
  cases heff with
  | removed _ _ _ _ _ _ _ hrefs₂ =>
    rw [hrefs₂, hrefs]
    simp

/-- **An unload right after the load** takes the library out of `libs` and gives its reference back,
and leaves the registries as they were before the load exactly when nothing in them had a name that
the library declares. -/
theorem unload_undoes_iff (hT : H.testbox.AddsNodes) (hs : s.libs.WF) (hfresh : s.registry.Fresh)
    (hsuites : NoSuiteNamed (H.groupsOf lib) s.registry)
    (hfit : ∀ tc ∈ testsOf (H.groupsOf lib), tc.Fits H.testbox)
    (hst : s.Step H (.load lib ⟨true, true, true⟩ info) s') :
    ∃ s'', s'.Step H (.unload lib ⟨true, true, true⟩) s'' ∧ s''.libs.nodes = s.libs.nodes ∧
      (∀ h, s''.libs.refs h = s.libs.refs h) ∧
      (s''.registry.Same s.registry ↔ NoneRegistered (H.groupsOf lib) s.registry) := by
  cases hst with
  | loadFails _ _ _ hl => simp [loadLib] at hl
  | load _ _ _ hl =>
    obtain ⟨ls₂, h2, hnodes, hrefs⟩ := libs_load_unload hs hl
    refine ⟨_, .unload lib _ h2, hnodes, hrefs, ?_⟩
    rw [if_neg (by decide)]
    constructor
    · intro hsame
      refine ⟨fun c hc => ?_, fun g hg => ?_⟩
      · rw [← hsame.cases] at hc
        exact ((mem_cases_unregisterLib _ _ c).mp hc).2
      · rw [← hsame.groups] at hg
        exact ((mem_groups_unregisterLib _ _ g).mp hg).2
    · intro hnone
      obtain ⟨d, hplus, hd⟩ : Adding (H.groupsOf lib) _ none none
          (registerLib H.testbox (H.loader.handle lib) (H.groupsOf lib) info _).registry :=
        registerLib_plus hT hfresh hnone hsuites hfit info
      rw [hplus, unregisterLib_plus hfresh hnone hd]
      exact ⟨rfl, rfl, rfl⟩

theorem addsNodes_plainTestbox : plainTestbox.AddsNodes :=
  { adds_plainTestbox with tb_group_addnode := fun _ _ _ h => by cases h }

/-- A load of `c`, of which nothing is registered when `a` is loaded. -/
theorem unload_undoes_c : ∃ s' s'',
    aLoaded.Step aNeedsOthers (.load ['c'] ⟨true, true, true⟩ plainTestbox.zeroInfo) s' ∧
      s'.Step aNeedsOthers (.unload ['c'] ⟨true, true, true⟩) s'' ∧
      s''.registry.Same aLoaded.registry := by
  have hst := Daemon.Step.load (H := aNeedsOthers) (s := aLoaded) ['c'] ⟨true, true, true⟩
    plainTestbox.zeroInfo rfl
  have hfit : ∀ tc ∈ testsOf (aNeedsOthers.groupsOf ['c']), tc.Fits plainTestbox := by
    have htests : testsOf (aNeedsOthers.groupsOf ['c']) =
      [⟨['u'], [], 1, false, 0, by decide⟩] := rfl
    rw [htests]
    simp [TestboxTestcase.Fits, plainTestbox]
  have hfresh : aLoaded.registry.Fresh := by constructor <;> decide
  obtain ⟨s'', hst', -, -, hiff⟩ := unload_undoes_iff addsNodes_plainTestbox wf_aLoaded hfresh
    (show NoSuiteNamed (aNeedsOthers.groupsOf ['c']) aLoaded.registry by
      unfold NoSuiteNamed; decide) hfit hst
  exact ⟨_, s'', hst, hst', hiff.mpr (by constructor <;> decide)⟩

end Dib
