import Dib.Registry.Daemon
import Dib.Registry.Declared

/-!
# What a file of groups adds to the registry

* `Registry.contents`: the groups with their suites and entries, without addresses;
* `TestDecl.entry`, `SuiteDecl.contents`, `GroupDecl.contents`: what a declaration says;
* `entry_node`, `contents_node`: the nodes hold it;
* `register_suite`, `contents_suites`, **`contents_register`**: the registrations append it;
* **`declared_groups`**: a file that declares groups adds these, and nothing else.
-/

set_option autoImplicit false

namespace Dib

open CString Lines

variable {T : LibTestbox} {cases : List TestcaseNod} {r : Registry} {p : ℕ}
  {text keyword : List Char} {ls ts : List (List Char)}

/-! ## What the registry holds -/

/-- An entry of a suite, without the ends of its arrays. -/
structure Entry where
  name : List Char
  description : List Char
  function : Option TestFunction
  argc : ℕ
  args : List (List Char)

structure SuiteContents where
  name : List Char
  descr : List Char
  entries : List Entry

structure GroupContents where
  name : List Char
  suites : List SuiteContents

def TestcaseNod.entry (t : TestcaseNod) : Entry :=
  ⟨cstr t.name, cstr t.description, t.function, t.argc, (t.args.take t.argc).map cstr⟩

def TestsuiteNod.contents (s : TestsuiteNod) : SuiteContents :=
  ⟨s.name, cstr s.descr, s.tests.map TestcaseNod.entry⟩

def Registry.suiteAt (r : Registry) (p : ℕ) : Option TestsuiteNod := r.suites.find? (·.addr = p)

def Registry.groupContents (r : Registry) (g : TestgroupNod) : GroupContents :=
  ⟨g.name, g.suites.filterMap fun p => (r.suiteAt p).map TestsuiteNod.contents⟩

/-- The groups with their suites and entries, all in order. -/
def Registry.contents (r : Registry) : List GroupContents := r.groups.map r.groupContents

/-- What a declaration says. -/
def TestDecl.entry (d : TestDecl T cases) : Entry :=
  ⟨d.name, cstr d.tc.description, d.tc.function, d.tokens.length, d.tokens⟩

def SuiteDecl.contents (s : SuiteDecl T cases) : SuiteContents :=
  ⟨s.name, s.descr.getD [], s.tests.map TestDecl.entry⟩

def GroupDecl.contents (g : GroupDecl T cases) : GroupContents :=
  ⟨g.name, g.suites.map SuiteDecl.contents⟩

/-- Addresses in use are below the next one. -/
structure Registry.Fresh (r : Registry) : Prop where
  suites : ∀ s ∈ r.suites, s.addr < r.next
  groups : ∀ g ∈ r.groups, g.addr < r.next
  members : ∀ g ∈ r.groups, ∀ p ∈ g.suites, p < r.next

/-! ## Nodes -/

theorem Plain.notMem (h : Plain text) : NUL ∉ text := fun hmem => (h _ hmem).2.2.2 rfl

theorem length_bracket (keyword text : List Char) :
    (bracket keyword text).length = keyword.length + text.length + 2 := by
  simp [bracket]
  omega

theorem strLen_eq (T : LibTestbox) : T.TB_STR_LEN = T.TB_STR_LEN - 1 + 1 := by
  have h := T.strLen_gt
  omega

theorem cstr_strncpy_zeroInfo (htext : NUL ∉ text) (hlen : text.length < T.TB_STR_LEN) :
    cstr (strncpy (List.replicate T.TB_STR_LEN NUL) text (T.TB_STR_LEN - 1)) = text := by
  have h := cstr_strncpy_zeros (n := T.TB_STR_LEN - 1) htext (by omega)
  rwa [← strLen_eq] at h

theorem map_copyArgs (hlen : ts.length ≤ T.TB_MAX_ARGS) (hnul : ∀ a ∈ ts, NUL ∉ a)
    (hfits : ∀ a ∈ ts, a.length < T.TB_STR_LEN) :
    ((T.copyArgs ts).take ts.length).map cstr = ts := by
  apply List.ext_getElem
  · simp [LibTestbox.copyArgs, LibTestbox.zeroInfo, hlen]
  · intro i h1 h2
    have hmem : ts[i] ∈ ts := List.getElem_mem h2
    simp only [LibTestbox.copyArgs, LibTestbox.zeroInfo, List.getElem_map, List.getElem_take,
      List.getElem_mapIdx, List.getElem?_eq_getElem h2, List.getElem_replicate]
    exact cstr_strncpy_zeroInfo (hnul _ hmem) (hfits _ hmem)

/-- **The entry** of a test line. -/
theorem entry_node (d : TestDecl T cases)
    (hdescr : ∀ c ∈ cases, (cstr c.description).length < T.TB_STR_LEN)
    (hfits : d.line.length + 1 < T.TB_STR_LEN) : d.node.entry = d.entry := by
  have hline : d.line.length = 2 + ([' '].intercalate d.tokens).length + 2 :=
    length_bracket ['T', 'C'] _
  have htoken : ∀ a ∈ d.tokens, a.length < T.TB_STR_LEN := fun a ha => by
    have h := length_le_intercalate (c := ' ') ha
    omega
  have hname : cstr d.tc.name = d.name := by simpa using List.find?_some d.registered
  have htc : d.tc ∈ cases := List.mem_of_find?_eq_some d.registered
  have h1 : cstr d.node.name = d.name := by
    show cstr (strncpy (List.replicate T.TB_STR_LEN NUL) (cstr d.tc.name) (T.TB_STR_LEN - 1)) = _
    rw [cstr_strncpy_zeroInfo (NUL_notMem_cstr _), hname]
    rw [hname]
    exact htoken d.name List.mem_cons_self
  have h2 : cstr d.node.description = cstr d.tc.description :=
    cstr_strncpy_zeroInfo (NUL_notMem_cstr _) (hdescr d.tc htc)
  have h3 : (d.node.args.take d.node.argc).map cstr = d.tokens :=
    map_copyArgs d.count (fun a ha => (d.plain a ha).notMem) htoken
  rw [TestcaseNod.entry, h1, h2, h3]
  rfl

/-- The suite node for a declaration. -/
def SuiteDecl.node (s : SuiteDecl T cases) (p : ℕ) : TestsuiteNod where
  addr := p
  name := s.name
  descr := s.descr.elim (List.replicate T.TB_STR_LEN NUL) fun d =>
    strncpy (List.replicate T.TB_STR_LEN NUL) d (T.TB_STR_LEN - 1)
  tests := s.tests.map TestDecl.node

/-- **The node** of a suite. -/
theorem contents_node (s : SuiteDecl T cases) (p : ℕ)
    (hdescr : ∀ c ∈ cases, (cstr c.description).length < T.TB_STR_LEN)
    (hfits : ∀ l ∈ s.body, l.length + 1 < T.TB_STR_LEN) : (s.node p).contents = s.contents := by
  have h1 : cstr (s.node p).descr = s.descr.getD [] := by
    rw [SuiteDecl.node]
    cases hd : s.descr with
    | none =>
      show cstr (List.replicate T.TB_STR_LEN NUL) = []
      rw [strLen_eq, List.replicate_succ]
      rfl
    | some d =>
      have hmem : descrLine d ∈ s.body := by simp [SuiteDecl.body, hd]
      have hlen := hfits _ hmem
      rw [descrLine, length_bracket] at hlen
      exact cstr_strncpy_zeroInfo (s.descr_plain d hd).notMem (by omega)
  have h2 : (s.node p).tests.map TestcaseNod.entry = s.tests.map TestDecl.entry := by
    rw [SuiteDecl.node, List.map_map]
    refine List.map_congr_left fun d hd => entry_node d hdescr (hfits _ ?_)
    exact List.mem_append_right _ (List.mem_map_of_mem hd)
  rw [TestsuiteNod.contents, h1, h2]
  rfl

/-! ## Registrations -/

theorem onSuite_last {x : TestsuiteNod} {l : List TestsuiteNod} (hl : ∀ y ∈ l, y.addr ≠ x.addr)
    (hr : r.suites = l ++ [x]) (f : TestsuiteNod → TestsuiteNod) :
    r.onSuite x.addr f = { r with suites := l ++ [f x] } := by
  have hmap : l.map (fun y => if y.addr = x.addr then f y else y) = l := by
    conv_rhs => rw [← List.map_id l]
    exact List.map_congr_left fun y hy => if_neg (hl y hy)
  rw [Registry.onSuite, hr, List.map_append, hmap, List.map_singleton, if_pos rfl]

theorem register_tests (hT : Obliging T) (tests : List (TestDecl T cases)) {x : TestsuiteNod}
    {l : List TestsuiteNod} (hl : ∀ y ∈ l, y.addr ≠ x.addr) (hr : r.suites = l ++ [x]) :
    tests.foldl (fun r d => d.register x.addr r) r =
      { r with suites := l ++ [{ x with tests := x.tests ++ tests.map TestDecl.node }] } := by
  induction tests generalizing r x with
  | nil => simp [← hr]
  | cons d tests ih =>
    have hd : d.register x.addr r =
        { r with suites := l ++ [{ x with tests := x.tests ++ [d.node] }] } := by
      rw [TestDecl.register, tbSuiteAddtest, if_pos (hT.tb_suite_addtest _ _ _), Option.getD_some]
      exact onSuite_last hl hr _
    rw [List.foldl_cons, hd]
    refine (ih (x := { x with tests := x.tests ++ [d.node] }) hl rfl).trans ?_
    simp

/-- A new suite in `g`, the last group behind `gs`. -/
def Registry.addSuite (r : Registry) (x : TestsuiteNod) (gs : List TestgroupNod)
    (g : TestgroupNod) : Registry :=
  { r with
    suites := r.suites ++ [x]
    groups := gs ++ [{ g with suites := g.suites ++ [r.next] }]
    next := r.next + 1 }

/-- **A suite** becomes the last one of the group that came last. -/
theorem register_suite (hT : Obliging T) (hfresh : r.Fresh) (s : SuiteDecl T cases)
    {g : TestgroupNod} {gs : List TestgroupNod} (hg : ∀ x ∈ gs, x.addr ≠ g.addr)
    (hr : r.groups = gs ++ [g]) :
    s.register g.addr r = r.addSuite (s.node r.next) gs g := by
  have hmap : gs.map (fun x =>
      if x.addr = g.addr then { x with suites := x.suites ++ [r.next] } else x) = gs := by
    conv_rhs => rw [← List.map_id gs]
    exact List.map_congr_left fun x hx => if_neg (hg x hx)
  have hsuites : ∀ y ∈ r.suites, y.addr ≠ r.next := fun y hy => Nat.ne_of_lt (hfresh.suites y hy)
  -- the new node, and the registry in which the group has it
  generalize hx : (⟨r.next, s.name, List.replicate T.TB_STR_LEN NUL, []⟩ : TestsuiteNod) = x
  have haddr : x.addr = r.next := by rw [← hx]
  generalize hR : ({ r with
    suites := r.suites ++ [x]
    groups := gs ++ [{ g with suites := g.suites ++ [r.next] }]
    next := r.next + 1 } : Registry) = R
  have hRsuites : R.suites = r.suites ++ [x] := by rw [← hR]
  have hdescr : s.descr.elim R (setDescr T R r.next) =
      { R with suites := r.suites ++ [{ x with descr := (s.node r.next).descr }] } := by
    rw [SuiteDecl.node]
    cases hd : s.descr with
    | none =>
      have hself : { x with descr := List.replicate T.TB_STR_LEN NUL } = x := by rw [← hx]
      simp only [Option.elim_none, hself, ← hRsuites]
    | some d =>
      rw [← haddr] at hsuites
      have hset := onSuite_last hsuites hRsuites fun y =>
        { y with descr := strncpy y.descr d (T.TB_STR_LEN - 1) }
      rw [haddr] at hset
      rw [Option.elim_some, setDescr, hset, ← hx]
      rfl
  have haddnode : tbSuiteAddnode T r s.name =
      ({ r with suites := r.suites ++ [x], next := r.next + 1 }, r.next) := by
    rw [tbSuiteAddnode, hT.tb_suite_addnode, ← hx]
  have haddsuite : tbGroupAddsuite T { r with suites := r.suites ++ [x], next := r.next + 1 } g.addr
      r.next = some R := by
    rw [tbGroupAddsuite, if_pos (hT.tb_group_addsuite _ _ _), ← hR]
    simp only [hr, List.map_append, hmap, List.map_singleton, if_pos]
  simp only [SuiteDecl.register, haddnode, haddsuite, Option.getD_some, hdescr]
  have htests := register_tests (x := { x with descr := (s.node r.next).descr })
    (r := { R with suites := r.suites ++ [{ x with descr := (s.node r.next).descr }] }) hT s.tests
    (haddr ▸ hsuites) rfl
  rw [← haddr]
  refine htests.trans ?_
  rw [← hR, ← hx]
  rfl

variable {g : TestgroupNod} {gs : List TestgroupNod} {x : TestsuiteNod}

theorem Registry.Fresh.addSuite (hfresh : r.Fresh) (hx : x.addr = r.next)
    (hr : r.groups = gs ++ [g]) : (r.addSuite x gs g).Fresh := by
  have hgs : ∀ y ∈ gs, y ∈ r.groups := fun y hy => hr ▸ List.mem_append_left _ hy
  have hg : g ∈ r.groups := hr ▸ List.mem_append_right _ (List.mem_singleton_self g)
  refine ⟨fun s hs => ?_, fun y hy => ?_, fun y hy p hp => ?_⟩
  · rcases List.mem_append.mp hs with hs | hs
    · exact Nat.lt_succ_of_lt (hfresh.suites s hs)
    · rw [List.mem_singleton.mp hs, hx]
      exact Nat.lt_succ_self _
  · rcases List.mem_append.mp hy with hy | hy
    · exact Nat.lt_succ_of_lt (hfresh.groups y (hgs y hy))
    · rw [List.mem_singleton.mp hy]
      exact Nat.lt_succ_of_lt (hfresh.groups g hg)
  · rcases List.mem_append.mp hy with hy | hy
    · exact Nat.lt_succ_of_lt (hfresh.members y (hgs y hy) p hp)
    · rw [List.mem_singleton.mp hy] at hp
      rcases List.mem_append.mp hp with hp | hp
      · exact Nat.lt_succ_of_lt (hfresh.members g hg p hp)
      · rw [List.mem_singleton.mp hp]
        exact Nat.lt_succ_self _

theorem suiteAt_addSuite (hx : x.addr = r.next) (hp : p < r.next) :
    (r.addSuite x gs g).suiteAt p = r.suiteAt p := by
  have hne : ¬ x.addr = p := fun h => by omega
  rw [Registry.suiteAt, Registry.addSuite, List.find?_append]
  simp [Registry.suiteAt, hne]

theorem suiteAt_next (hfresh : r.Fresh) (hx : x.addr = r.next) :
    (r.addSuite x gs g).suiteAt r.next = some x := by
  have hnone : r.suites.find? (·.addr = r.next) = none := by
    rw [List.find?_eq_none]
    intro y hy h
    have h1 := hfresh.suites y hy
    have h2 : y.addr = r.next := by simpa using h
    omega
  rw [Registry.suiteAt, Registry.addSuite, List.find?_append, hnone]
  simp [hx]

theorem groupContents_addSuite (gs : List TestgroupNod) (g : TestgroupNod) (hx : x.addr = r.next)
    {y : TestgroupNod} (hy : ∀ p ∈ y.suites, p < r.next) :
    (r.addSuite x gs g).groupContents y = r.groupContents y := by
  have hmembers :
      y.suites.filterMap (fun p => ((r.addSuite x gs g).suiteAt p).map TestsuiteNod.contents) =
        y.suites.filterMap fun p => (r.suiteAt p).map TestsuiteNod.contents :=
    List.filterMap_congr fun p hp => by rw [suiteAt_addSuite hx (hy p hp)]
  rw [Registry.groupContents, hmembers, Registry.groupContents]

theorem groupContents_last (hfresh : r.Fresh) (hx : x.addr = r.next)
    (hg : ∀ p ∈ g.suites, p < r.next) :
    (r.addSuite x gs g).groupContents { g with suites := g.suites ++ [r.next] } =
      ⟨g.name, (r.groupContents g).suites ++ [x.contents]⟩ := by
  have hold := groupContents_addSuite gs g hx hg
  rw [Registry.groupContents, List.filterMap_append]
  have hnew : [r.next].filterMap (fun p => ((r.addSuite x gs g).suiteAt p).map
      TestsuiteNod.contents) = [x.contents] := by simp [suiteAt_next hfresh hx]
  rw [hnew, ← hold]
  rfl

/-- **The suites of a group.** -/
theorem contents_suites (hT : Obliging T) (suites : List (SuiteDecl T cases))
    (hdescr : ∀ c ∈ cases, (cstr c.description).length < T.TB_STR_LEN)
    (hfits : ∀ s ∈ suites, ∀ l ∈ s.body, l.length + 1 < T.TB_STR_LEN) (hfresh : r.Fresh)
    (hg : ∀ y ∈ gs, y.addr ≠ g.addr) (hr : r.groups = gs ++ [g]) :
    (suites.foldl (fun r s => s.register g.addr r) r).Fresh ∧
      (suites.foldl (fun r s => s.register g.addr r) r).contents = gs.map r.groupContents ++
        [⟨g.name, (r.groupContents g).suites ++ suites.map SuiteDecl.contents⟩] ∧
      (suites.foldl (fun r s => s.register g.addr r) r).suites.map TestsuiteNod.contents =
        r.suites.map TestsuiteNod.contents ++ suites.map SuiteDecl.contents := by
  induction suites generalizing r g with
  | nil =>
    refine ⟨hfresh, ?_, by simp⟩
    simp only [List.foldl_nil, Registry.contents, hr, List.map_append, List.map_singleton,
      List.map_nil, List.append_nil]
    rfl
  | cons s suites ih =>
    have hmem : ∀ y ∈ gs, ∀ p ∈ y.suites, p < r.next := fun y hy =>
      hfresh.members y (hr ▸ List.mem_append_left _ hy)
    have hmem' : ∀ p ∈ g.suites, p < r.next :=
      hfresh.members g (hr ▸ List.mem_append_right _ (List.mem_singleton_self g))
    have hnode := contents_node s r.next hdescr (hfits s List.mem_cons_self)
    obtain ⟨h1, h2, h3⟩ := ih (g := { g with suites := g.suites ++ [r.next] })
      (fun s hs => hfits s (List.mem_cons_of_mem _ hs))
      (hfresh.addSuite (x := s.node r.next) rfl hr) hg rfl
    rw [List.foldl_cons, register_suite hT hfresh s hg hr]
    refine ⟨h1, h2.trans ?_, h3.trans ?_⟩
    · have hgs : gs.map (r.addSuite (s.node r.next) gs g).groupContents = gs.map r.groupContents :=
        List.map_congr_left fun y hy => groupContents_addSuite gs g rfl (hmem y hy)
      rw [hgs, groupContents_last hfresh rfl hmem', hnode]
      simp
    · simp [Registry.addSuite, hnode]

theorem Registry.Fresh.group (hfresh : r.Fresh) (name : List Char) :
    Registry.Fresh { r with groups := r.groups ++ [⟨r.next, name, []⟩], next := r.next + 1 } := by
  refine ⟨fun s hs => Nat.lt_succ_of_lt (hfresh.suites s hs), fun y hy => ?_, fun y hy p hp => ?_⟩
  · rcases List.mem_append.mp hy with hy | hy
    · exact Nat.lt_succ_of_lt (hfresh.groups y hy)
    · rw [List.mem_singleton.mp hy]
      exact Nat.lt_succ_self _
  · rcases List.mem_append.mp hy with hy | hy
    · exact Nat.lt_succ_of_lt (hfresh.members y hy p hp)
    · rw [List.mem_singleton.mp hy] at hp
      cases hp

/-- **The groups** come behind those that were there. -/
theorem contents_register (hT : Obliging T) (gs : List (GroupDecl T cases))
    (hdescr : ∀ c ∈ cases, (cstr c.description).length < T.TB_STR_LEN)
    (hfits : ∀ g ∈ gs, ∀ s ∈ g.suites, ∀ l ∈ s.body, l.length + 1 < T.TB_STR_LEN)
    (hfresh : r.Fresh) :
    (register gs r).contents = r.contents ++ gs.map GroupDecl.contents ∧
      (register gs r).suites.map TestsuiteNod.contents =
        r.suites.map TestsuiteNod.contents ++
          gs.flatMap fun g => g.suites.map SuiteDecl.contents := by
  induction gs generalizing r with
  | nil => simp [register]
  | cons g gs ih =>
    have haddnode : tbGroupAddnode T r g.name =
        ({ r with groups := r.groups ++ [⟨r.next, g.name, []⟩], next := r.next + 1 }, r.next) := by
      rw [tbGroupAddnode, hT.tb_group_addnode]
    obtain ⟨h1, h2, h3⟩ := contents_suites (g := ⟨r.next, g.name, []⟩) hT g.suites hdescr
      (hfits g List.mem_cons_self) (hfresh.group g.name)
      (fun y hy => Nat.ne_of_lt (hfresh.groups y hy)) rfl
    obtain ⟨h4, h5⟩ := ih (fun g hg => hfits g (List.mem_cons_of_mem _ hg)) h1
    have hstep : register (g :: gs) r = register gs (g.register r) := rfl
    have hgroup : g.register r = g.suites.foldl (fun r' s => s.register r.next r')
        { r with groups := r.groups ++ [⟨r.next, g.name, []⟩], next := r.next + 1 } := by
      rw [GroupDecl.register, haddnode]
    rw [hstep, hgroup]
    refine ⟨h4.trans ?_, h5.trans ?_⟩
    · have hold : r.groups.map (Registry.groupContents { r with
          groups := r.groups ++ [⟨r.next, g.name, []⟩], next := r.next + 1 }) = r.contents := rfl
      rw [h2, hold, List.append_assoc]
      rfl
    · rw [h3, List.flatMap_cons, List.append_assoc]

/-- **A file that declares groups** is accepted, and adds exactly these to the registry: the groups
with their suites and the suites with their entries, and no case. -/
theorem declared_groups {r : Registry} (rounds : ℕ) (hT : Obliging T) (hfresh : r.Fresh)
    (hdescr : ∀ c ∈ r.cases, (cstr c.description).length < T.TB_STR_LEN)
    (gs : List (GroupDecl T r.cases)) (ls : List (List Char)) (hfits : Fits T.TB_STR_LEN ls)
    (hls : ls.filter isText = linesOf gs) :
    ∃ r', addGroupFromFile T rounds r (some (unlines ls)) = some (r', true) ∧
      r'.cases = r.cases ∧ r'.contents = r.contents ++ gs.map GroupDecl.contents ∧
      r'.suites.map TestsuiteNod.contents = r.suites.map TestsuiteNod.contents ++
        gs.flatMap fun g => g.suites.map SuiteDecl.contents := by
  have hlines : ∀ g ∈ gs, ∀ s ∈ g.suites, ∀ l ∈ s.body, l.length + 1 < T.TB_STR_LEN := by
    intro g hg s hs l hl
    have hsuite : l ∈ s.lines := List.mem_cons_of_mem _ (List.mem_append_left _ hl)
    have hgroup : l ∈ g.lines := List.mem_cons_of_mem _
      (List.mem_append_left _ (List.mem_flatMap.mpr ⟨s, hs, hsuite⟩))
    have hmem : l ∈ ls.filter isText := by
      rw [hls]
      exact List.mem_flatMap.mpr ⟨g, hg, hgroup⟩
    exact (hfits l (List.mem_filter.mp hmem).1).2
  have hcases : (register gs r).cases = r.cases := by
    have hgroups : ∀ (gs : List (GroupDecl T r.cases)) (r' : Registry),
        (register gs r').cases = r'.cases := by
      intro gs
      induction gs with
      | nil => exact fun _ => rfl
      | cons g gs ih => exact fun r' => (ih _).trans (cases_registerGroup hT g)
    exact hgroups gs r
  obtain ⟨hcontents, hsuites⟩ := contents_register hT gs hdescr hlines hfresh
  exact ⟨register gs r, addGroupFromFile_unlines rounds hT gs rfl hfits hls, hcases, hcontents,
    hsuites⟩

/-! ## A file -/

theorem obliging_plainTestbox : Obliging plainTestbox where
  strip_newline l _ := by
    show (if (l ++ ['\n']).getLast? = some '\n' then (l ++ ['\n']).dropLast else l ++ ['\n']) = l
    rw [List.getLast?_concat, if_pos rfl, List.dropLast_concat]
  tb_group_addnode _ _ := rfl
  tb_suite_addnode _ _ := rfl
  tb_group_addsuite _ _ _ := rfl
  tb_suite_addtest _ _ _ := rfl

/-- The case `t` of some library. -/
def caseT : TestcaseNod :=
  { plainTestbox.zeroInfo with
    name := 't' :: List.replicate 15 NUL
    function := some ⟨1, 0⟩ }

/-- `TC(t)`. -/
def declT : TestDecl plainTestbox [caseT] where
  name := ['t']
  args := []
  tc := caseT
  registered := by decide
  plain := by decide
  token := by decide
  slots := by decide
  count := by decide

/-- `TC(t x)`. -/
def declTX : TestDecl plainTestbox [caseT] :=
  { declT with
    args := [['x']]
    plain := by decide
    token := by decide
    slots := by decide
    count := by decide }

/-- Two suites, one of them with two tests. -/
def declG : GroupDecl plainTestbox [caseT] where
  name := ['g']
  suites := [
    { name := ['s']
      descr := some ['d']
      tests := [declTX, declT]
      name_ne := by decide
      plain := by decide
      descr_plain := fun d hd => by cases hd; decide },
    { name := ['u']
      descr := none
      tests := [declT]
      name_ne := by decide
      plain := by decide
      descr_plain := fun d hd => by cases hd }]
  name_ne := by decide
  plain := by decide

def declH : GroupDecl plainTestbox [caseT] where
  name := ['h']
  suites := []
  name_ne := by decide
  plain := by decide

/-- Both groups, with a comment before them and an empty line behind them. -/
theorem declared_groups_two : ∃ r', addGroupFromFile plainTestbox 0 ⟨[caseT], [], [], 0⟩
      (some (unlines ([['#', ' ', 'T', 'C', '(']] ++ linesOf [declG, declH] ++ [[]]))) =
        some (r', true) ∧
    r'.cases = [caseT] ∧ r'.contents = [] ++ [declG.contents, declH.contents] ∧
    r'.suites.map TestsuiteNod.contents = [] ++
      [⟨['s'], ['d'], [⟨['t'], [], some ⟨1, 0⟩, 2, [['t'], ['x']]⟩,
        ⟨['t'], [], some ⟨1, 0⟩, 1, [['t']]⟩]⟩,
        ⟨['u'], [], [⟨['t'], [], some ⟨1, 0⟩, 1, [['t']]⟩]⟩] :=
  declared_groups (r := ⟨[caseT], [], [], 0⟩) 0 obliging_plainTestbox
    ⟨by simp, by simp, by simp⟩ (by decide) [declG, declH] _ (by decide) (by decide)

end Dib
