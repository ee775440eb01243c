import Dib.Lib.Keyed
import Dib.Registry.Added
import Mathlib.Data.List.Pairwise

/-!
# The registries as a record of the loaded libraries

When libraries declare different names, the registries hold what each loaded library has added, one
after the other, and nothing else.

* `Part`: what one library has added; `Part.Registers`: it is what the library registers, where
  nothing has its names;
* `Host.Apart`, `Separate`: libraries and calls that do not meet each other's names;
* `Composed`: the registries and `libs` as a record of the parts;
* `registers_of_plus`: the part that a load adds;
* `Standing`, `standing_load`, `standing_unload`: what loads and unloads keep;
* **`composed_of_run`**: all runs of such calls, from any state.
-/

set_option autoImplicit false

namespace Dib

open CString Lts

/-! ## Statement -/

structure Part where
  lib : List Char
  added : Registry

variable (H : Host)

def Part.handle (d : Part) : ℕ := H.loader.handle d.lib

/-- **What the library adds**, and nothing else: behind the nodes of a registry that has none of its
names the load puts just these. The groups are those that it declares, each with its suites, and no
suite is outside them; the names that are bound and the entries that the suites get are those that
it registers where nothing is registered. -/
structure Part.Registers (d : Part) : Prop where
  loaded : ∃ r info, NoneRegistered (H.groupsOf d.lib) r ∧ NoSuiteNamed (H.groupsOf d.lib) r ∧
    (registerLib H.testbox (d.handle H) (H.groupsOf d.lib) info r).registry = r.plus d.added
  groups : ∀ g ∈ d.added.groups, g.name ∈ groupNames (H.groupsOf d.lib)
  members : ∀ g ∈ d.added.groups, ∀ p ∈ g.suites, ∃ s ∈ d.added.suites, s.addr = p
  owned : ∀ s ∈ d.added.suites, s.name ∈ suiteNames (H.groupsOf d.lib) ∧
    ∃ g ∈ d.added.groups, s.addr ∈ g.suites
  declared : ∀ group ∈ H.groupsOf d.lib, d.added.HasGroup group.group_name
    (group.suites.map (·.suite_name))
  binds : Binds H.testbox (d.handle H) (testsOf (H.groupsOf d.lib)) .start d.added
  gives : ∃ xs : List (TestboxTestsuite × ℕ), xs.map Prod.fst = suitesOf (H.groupsOf d.lib) ∧
    (∀ x ∈ xs, d.added.Named x.2 x.1.suite_name) ∧
    Gives H.testbox (d.handle H) (givenTo xs) .start d.added

/-- The libraries declare different names. -/
structure Host.Apart (a b : ℕ) : Prop where
  tests : (testNames (H.lib_group a)).Disjoint (testNames (H.lib_group b))
  suites : (suiteNames (H.lib_group a)).Disjoint (suiteNames (H.lib_group b))
  groups : (groupNames (H.lib_group a)).Disjoint (groupNames (H.lib_group b))

/-- A load is of another library than those in `libs`, which shares no name with them or with what
was registered in `s₀`; an unload is of a library that has been loaded since. -/
def Separate (s₀ s : Daemon) : DaemonCall → Prop
  | .load lib o info => (o.calloc && o.dlopen && o.dlsym) = true →
      (∀ v ∈ s.libs.nodes, v.lib_handle ≠ H.loader.handle lib ∧
        H.Apart v.lib_handle (H.loader.handle lib)) ∧
      NoneRegistered (H.groupsOf lib) s₀.registry ∧ NoSuiteNamed (H.groupsOf lib) s₀.registry ∧
      (∀ tc ∈ testsOf (H.groupsOf lib), tc.Fits H.testbox) ∧ info.args ≠ []
  | .unload lib o => o.ok = true →
      s.libs.Loaded (H.loader.handle lib) ∧ ¬ s₀.libs.Loaded (H.loader.handle lib)
  | .groupFile _ => False

/-- **Since `s₀`**, these libraries have been loaded and not unloaded, in this order, and what they
have added is all that has changed. -/
structure Composed (s₀ : Daemon) (parts : List Part) (s : Daemon) : Prop where
  nodes : s.libs.nodes = (parts.map fun d => H.loader.node d.lib).reverse ++ s₀.libs.nodes
  cases : s.registry.cases = s₀.registry.cases ++ parts.flatMap (·.added.cases)
  suites : s.registry.suites = s₀.registry.suites ++ parts.flatMap (·.added.suites)
  groups : s.registry.groups = s₀.registry.groups ++ parts.flatMap (·.added.groups)
  registers : ∀ d ∈ parts, d.Registers H

/-- The daemon, from another state on. -/
def daemonFrom (s₀ : Daemon) : Lts Daemon DaemonCall := ⟨fun s => s = s₀, Daemon.Step H⟩

variable {H} {T : LibTestbox} {lib_group : List TestboxTestgroup} {r d : Registry} {handle : ℕ}

/-! ## The part that a load adds -/

theorem lookup_plus (r d : Registry) (name : List Char) :
    tbCaseLookupnode (r.plus d) name = (tbCaseLookupnode r name).or (tbCaseLookupnode d name) := by
  rw [tbCaseLookupnode, Registry.plus, List.find?_append]
  rfl

theorem suiteAt_plus (r d : Registry) (p : ℕ) :
    (r.plus d).suiteAt p = (r.suiteAt p).or (d.suiteAt p) := by
  rw [Registry.suiteAt, Registry.plus, List.find?_append]
  rfl

theorem binds_of_plus (hr : NoneRegistered lib_group r)
    (hd : ∀ c ∈ d.cases, cstr c.name ∈ testNames lib_group)
    (h : Binds T handle (testsOf lib_group) r (r.plus d)) :
    Binds T handle (testsOf lib_group) .start d := by
  have hnone : ∀ name ∈ testNames lib_group, tbCaseLookupnode r name = none := fun name hname => by
    rw [tbCaseLookupnode, List.find?_eq_none]
    rintro c hc hn
    exact hr.1 c hc ((of_decide_eq_true hn).symm ▸ hname)
  refine ⟨fun name c hc => ?_, fun name tc _ hfind => ?_, fun name _ hfind => ?_⟩
  · cases hc
  · have hmem : name ∈ testNames lib_group := by
      have hn := List.find?_some hfind
      have htc := List.mem_map_of_mem (f := TestboxTestcase.test_name)
        (List.mem_of_find?_eq_some hfind)
      rwa [(of_decide_eq_true hn).2] at htc
    have := h.added name tc (hnone name hmem) hfind
    rwa [lookup_plus, hnone name hmem, Option.none_or] at this
  · by_cases hmem : name ∈ testNames lib_group
    · have := h.others name (hnone name hmem) hfind
      rwa [lookup_plus, hnone name hmem, Option.none_or] at this
    · rw [tbCaseLookupnode, List.find?_eq_none]
      rintro c hc hn
      exact hmem (of_decide_eq_true hn ▸ hd c hc)

theorem suiteAt_of_lt {base p : ℕ} (hd : ∀ s ∈ d.suites, base ≤ s.addr) (hp : p < base) :
    d.suiteAt p = none := by
  rw [Registry.suiteAt, List.find?_eq_none]
  intro s hs h
  have h1 := hd s hs
  have h2 : s.addr = p := of_decide_eq_true h
  omega

theorem suiteAt_of_le {p : ℕ} (hr : r.Fresh) (hp : r.next ≤ p) : r.suiteAt p = none := by
  rw [Registry.suiteAt, List.find?_eq_none]
  intro s hs h
  have h1 := hr.suites s hs
  have h2 : s.addr = p := of_decide_eq_true h
  omega

theorem named_of_plus {p : ℕ} {name : List Char} (hr : NoSuiteNamed lib_group r)
    (hname : name ∈ suiteNames lib_group) (h : (r.plus d).Named p name) : d.Named p name := by
  obtain ⟨s, hs, rfl⟩ := h
  rw [suiteAt_plus] at hs
  cases hold : r.suiteAt p with
  | none =>
    rw [hold, Option.none_or] at hs
    exact ⟨s, hs, rfl⟩
  | some s' =>
    rw [hold] at hs
    obtain rfl := Option.some.inj hs
    exact absurd hname (hr _ (List.mem_of_find?_eq_some hold))

theorem gives_of_plus {xs : List (TestboxTestsuite × ℕ)} (hr : r.Fresh)
    (hd : ∀ s ∈ d.suites, r.next ≤ s.addr) (hxs : ∀ x ∈ xs, d.Named x.2 x.1.suite_name)
    (h : Gives T handle (givenTo xs) r (r.plus d)) : Gives T handle (givenTo xs) .start d := by
  intro p
  rcases Nat.lt_or_ge p r.next with hp | hp
  · have hnone := suiteAt_of_lt hd hp
    have hgiven : (givenTo xs).filter (fun x => x.1 = p ∧ x.2.Valid T) = [] := by
      refine List.filter_eq_nil_iff.mpr fun x hx hxp => ?_
      obtain ⟨y, hy, hxy⟩ := List.mem_flatMap.mp hx
      obtain ⟨tc, -, rfl⟩ := List.mem_map.mp hxy
      obtain ⟨s, hs, -⟩ := hxs y hy
      have hp : y.2 = p := (of_decide_eq_true hxp).1
      rw [hp, hnone] at hs
      cases hs
    refine ⟨[], by rw [Registry.testsAt, hnone]; rfl, ?_⟩
    rw [hgiven]
    exact .nil
  · obtain ⟨added, htests, hentries⟩ := h p
    refine ⟨added, ?_, hentries⟩
    have hnone := suiteAt_of_le hr hp
    rwa [Registry.testsAt, suiteAt_plus, hnone, Option.none_or, Registry.testsAt, hnone] at htests

theorem hasGroup_of_plus (hr : NoneRegistered lib_group r) (hsuites : NoSuiteNamed lib_group r)
    {group : TestboxTestgroup} (hgroup : group ∈ lib_group)
    (h : (r.plus d).HasGroup group.group_name (group.suites.map (·.suite_name))) :
    d.HasGroup group.group_name (group.suites.map (·.suite_name)) where
  group := by
    obtain ⟨g, hg, hname⟩ := h.group
    exact ⟨g, (List.mem_append.mp hg).resolve_left fun hg => hr.2 g hg
      (hname ▸ List.mem_map_of_mem hgroup), hname⟩
  suites suite_name hmem := by
    obtain ⟨g, hg, hname, s, hs, hsname, hin⟩ := h.suites suite_name hmem
    refine ⟨g, (List.mem_append.mp hg).resolve_left fun hg => hr.2 g hg
      (hname ▸ List.mem_map_of_mem hgroup), hname, s, ?_, hsname, hin⟩
    obtain ⟨suite, hsuite, rfl⟩ := List.mem_map.mp hmem
    refine (List.mem_append.mp hs).resolve_left fun hs => hsuites s hs ?_
    rw [hsname]
    exact List.mem_map_of_mem (List.mem_flatMap.mpr ⟨group, hgroup, hsuite⟩)

/-- **The part** of a library is what it registers, whatever was there before. -/
theorem registers_of_plus {lib : List Char} {info : TestcaseNod} (hT : H.testbox.AddsNodes)
    (hfresh : r.Fresh) (hr : NoneRegistered (H.groupsOf lib) r)
    (hsuites : NoSuiteNamed (H.groupsOf lib) r) (hinfo : info.args ≠ [])
    (hfit : ∀ tc ∈ testsOf (H.groupsOf lib), tc.Fits H.testbox)
    (hd : Added (H.groupsOf lib) r.next none none d)
    (hplus : (registerLib H.testbox (H.loader.handle lib) (H.groupsOf lib) info r).registry =
      r.plus d) : (Part.mk lib d).Registers H := by
  obtain ⟨-, xs, hxs, hnamed, hreg⟩ := registers_foldl (T := H.testbox) (H.loader.handle lib)
    (fun group => group.suites) (H.groupsOf lib) ⟨r, info, 0⟩
    (fun group hgroup st hfresh hinfo => registers_testgroup hT.toAdds hfresh hinfo group
      fun tc htc => hfit tc (List.mem_flatMap.mpr ⟨group, hgroup, htc⟩)) hfresh.suites hinfo
  rw [show (List.foldl (loadTestgroup H.testbox (H.loader.handle lib)) ⟨r, info, 0⟩
    (H.groupsOf lib)).registry = r.plus d from hplus] at hnamed hreg
  have hnamed' : ∀ x ∈ xs, d.Named x.2 x.1.suite_name := fun x hx => by
    refine named_of_plus hsuites ?_ (hnamed x hx)
    rw [suiteNames, suitesOf, ← hxs, List.map_map]
    exact List.mem_map_of_mem (f := TestboxTestsuite.suite_name ∘ Prod.fst) hx
  have hdeclared : ∀ group ∈ H.groupsOf lib, d.HasGroup group.group_name
      (group.suites.map (·.suite_name)) := fun group hgroup =>
    hasGroup_of_plus hr hsuites hgroup (hplus ▸ declared_registerLib hT _ info r group hgroup)
  refine ⟨⟨r, info, hr, hsuites, hplus⟩, fun g hg => (hd.groups g hg).1, hd.members, fun s hs =>
    ⟨(hd.suites s hs).1, (hd.owned s hs).resolve_left (by simp)⟩, hdeclared,
    binds_of_plus hr hd.cases ?_, xs, hxs, hnamed', gives_of_plus hfresh
    (fun s hs => (hd.suites s hs).2) hnamed' hreg.gives⟩
  have hbinds := hreg.binds
  rw [map_givenTo, hxs] at hbinds
  rw [testsOf_eq]
  exact hbinds

/-! ## What loads and unloads keep -/

/-- Two libraries that share no name, and whose suites are at different addresses. -/
structure Part.Apart (H : Host) (d e : Part) : Prop where
  handle : d.handle H ≠ e.handle H
  names : H.Apart (d.handle H) (e.handle H)
  addrs : ∀ s ∈ d.added.suites, ∀ s' ∈ e.added.suites, s.addr ≠ s'.addr

structure Standing (H : Host) (s₀ : Daemon) (parts : List Part) (s : Daemon) : Prop
    extends Composed H s₀ parts s where
  wf : s.libs.WF
  fresh : s.registry.Fresh
  next : s₀.registry.next ≤ s.registry.next
  added : ∀ d ∈ parts, Added (H.groupsOf d.lib) s₀.registry.next none none d.added
  unregistered : ∀ d ∈ parts, NoneRegistered (H.groupsOf d.lib) s₀.registry
  apart : parts.Pairwise (Part.Apart H)

variable {s₀ s s' : Daemon} {parts : List Part} {lib : List Char}

theorem Host.Apart.symm {a b : ℕ} (h : H.Apart a b) : H.Apart b a :=
  ⟨fun _ hb ha => h.tests ha hb, fun _ hb ha => h.suites ha hb, fun _ hb ha => h.groups ha hb⟩

instance : Std.Symm (Part.Apart H) where
  symm _ _ h := ⟨h.handle.symm, h.names.symm, fun s hs s' hs' => (h.addrs s' hs' s hs).symm⟩

theorem Standing.apart_of_ne (h : Standing H s₀ parts s) {d e : Part} (hd : d ∈ parts)
    (he : e ∈ parts) (hne : d.handle H ≠ e.handle H) : d.Apart H e :=
  h.apart.forall hd he fun heq => hne (heq ▸ rfl)

theorem standing_start (hs : s₀.libs.WF) (hfresh : s₀.registry.Fresh) : Standing H s₀ [] s₀ where
  nodes := rfl
  cases := by simp
  suites := by simp
  groups := by simp
  registers := by simp
  wf := hs
  fresh := hfresh
  next := le_rfl
  added := by simp
  unregistered := by simp
  apart := .nil

theorem Standing.none_registered (h : Standing H s₀ parts s)
    (hapart : ∀ d ∈ parts, H.Apart (d.handle H) (H.loader.handle lib))
    (hnone : NoneRegistered (H.groupsOf lib) s₀.registry)
    (hsuites : NoSuiteNamed (H.groupsOf lib) s₀.registry) :
    NoneRegistered (H.groupsOf lib) s.registry ∧ NoSuiteNamed (H.groupsOf lib) s.registry := by
  refine ⟨⟨fun c hc => ?_, fun g hg => ?_⟩, fun x hx => ?_⟩
  · rw [h.cases] at hc
    rcases List.mem_append.mp hc with hc | hc
    · exact hnone.1 c hc
    · obtain ⟨d, hd, hc⟩ := List.mem_flatMap.mp hc
      exact fun hn => (hapart d hd).tests ((h.added d hd).cases c hc) hn
  · rw [h.groups] at hg
    rcases List.mem_append.mp hg with hg | hg
    · exact hnone.2 g hg
    · obtain ⟨d, hd, hg⟩ := List.mem_flatMap.mp hg
      exact fun hn => (hapart d hd).groups ((h.added d hd).groups g hg).1 hn
  · rw [h.suites] at hx
    rcases List.mem_append.mp hx with hx | hx
    · exact hsuites x hx
    · obtain ⟨d, hd, hx⟩ := List.mem_flatMap.mp hx
      exact fun hn => (hapart d hd).suites ((h.added d hd).suites x hx).1 hn

theorem fresh_plus (hr : r.Fresh) (hd : d.Fresh) (hnext : r.next ≤ d.next) :
    (r.plus d).Fresh where
  suites := List.forall_mem_append.mpr
    ⟨fun s hs => (hr.suites s hs).trans_le hnext, hd.suites⟩
  groups := List.forall_mem_append.mpr
    ⟨fun g hg => (hr.groups g hg).trans_le hnext, hd.groups⟩
  members := List.forall_mem_append.mpr
    ⟨fun g hg p hp => (hr.members g hg p hp).trans_le hnext, hd.members⟩

theorem Added.mono {base base' : ℕ} (h : Added lib_group base' none none d) (hle : base ≤ base') :
    Added lib_group base none none d :=
  { h with
    suites := fun s hs => (h.suites s hs).imp_right hle.trans
    groups := fun g hg => (h.groups g hg).imp_right hle.trans
    next := hle.trans h.next }

/-- **A load** adds a part at the end. -/
theorem standing_load (hT : H.testbox.AddsNodes) (h : Standing H s₀ parts s) {o : LoadAnswers}
    {info : TestcaseNod} (hC : Separate H s₀ s (.load lib o info))
    (hst : s.Step H (.load lib o info) s') : ∃ parts', Standing H s₀ parts' s' := by
  cases hst with
  | loadFails _ _ _ hl =>
    obtain ⟨hwf, hnodes⟩ := nodes_loadLib h.wf hl
    exact ⟨parts, { h with nodes := by simpa [hnodes] using h.nodes, wf := hwf }⟩
  | load _ _ _ hl =>
    obtain ⟨ls₁, h1, hwf, hnodes, -⟩ := loadLib_spec (L := H.loader) h.wf lib o
    obtain ⟨rfl, hok⟩ := Prod.mk.inj (Option.some.inj (h1.symm.trans hl))
    rw [if_pos hok] at hnodes
    obtain ⟨hothers, hnone₀, hsuites₀, hfit, hinfo⟩ := hC hok
    have hparts : ∀ d ∈ parts, d.handle H ≠ H.loader.handle lib ∧
        H.Apart (d.handle H) (H.loader.handle lib) := fun d hd =>
      hothers (H.loader.node d.lib) (by
        rw [h.nodes]
        exact List.mem_append_left _
          (List.mem_reverse.mpr (List.mem_map_of_mem (f := fun d => H.loader.node d.lib) hd)))
    obtain ⟨hnone, hsuites⟩ := h.none_registered (fun d hd => (hparts d hd).2) hnone₀ hsuites₀
    obtain ⟨d, hplus, hd⟩ : Adding (H.groupsOf lib) _ none none
        (registerLib H.testbox (H.loader.handle lib) (H.groupsOf lib) info _).registry :=
      registerLib_plus hT h.fresh hnone hsuites hfit info
    have hregisters := registers_of_plus hT h.fresh hnone hsuites hinfo hfit hd hplus
    refine ⟨parts ++ [⟨lib, d⟩], ?_⟩
    rw [hplus]
    exact
      { nodes := by simp [hnodes, h.nodes]
        cases := by simp [Registry.plus, h.cases]
        suites := by simp [Registry.plus, h.suites]
        groups := by simp [Registry.plus, h.groups]
        registers := List.forall_mem_append.mpr ⟨h.registers, by simpa using hregisters⟩
        wf := hwf
        fresh := fresh_plus h.fresh hd.fresh hd.next
        next := h.next.trans hd.next
        added := List.forall_mem_append.mpr ⟨h.added, by simpa using hd.mono h.next⟩
        unregistered := List.forall_mem_append.mpr ⟨h.unregistered, by simpa using hnone₀⟩
        apart := by
          refine List.pairwise_append.mpr ⟨h.apart, List.pairwise_singleton _ _, ?_⟩
          intro e he e' he'
          obtain rfl := List.mem_singleton.mp he'
          refine ⟨(hparts e he).1, (hparts e he).2, fun x hx x' hx' => ?_⟩
          have hmem : x ∈ s.registry.suites := by
            rw [h.suites]
            exact List.mem_append_right _ (List.mem_flatMap.mpr ⟨e, he, hx⟩)
          exact ((h.fresh.suites x hmem).trans_le (hd.suites x' hx').2).ne }

theorem Standing.test_iff (h : Standing H s₀ parts s) {d e : Part} (hd : d ∈ parts)
    (he : e ∈ parts) {c : TestcaseNod} (hc : c ∈ e.added.cases) :
    cstr c.name ∈ testNames (H.groupsOf d.lib) ↔ e.handle H = d.handle H := by
  refine ⟨fun hn => by_contra fun hne => ?_, fun heq => ?_⟩
  · exact (h.apart_of_ne he hd hne).names.tests ((h.added e he).cases c hc) hn
  · have hsame : H.groupsOf e.lib = H.groupsOf d.lib := congrArg H.lib_group heq
    exact hsame ▸ (h.added e he).cases c hc

theorem Standing.group_iff (h : Standing H s₀ parts s) {d e : Part} (hd : d ∈ parts)
    (he : e ∈ parts) {g : TestgroupNod} (hg : g ∈ e.added.groups) :
    g.name ∈ groupNames (H.groupsOf d.lib) ↔ e.handle H = d.handle H := by
  refine ⟨fun hn => by_contra fun hne => ?_, fun heq => ?_⟩
  · exact (h.apart_of_ne he hd hne).names.groups ((h.added e he).groups g hg).1 hn
  · have hsame : H.groupsOf e.lib = H.groupsOf d.lib := congrArg H.lib_group heq
    exact hsame ▸ ((h.added e he).groups g hg).1

theorem Standing.in_group_iff (h : Standing H s₀ parts s) {d e : Part} (hd : d ∈ parts)
    (he : e ∈ parts) {x : TestsuiteNod} (hx : x ∈ e.added.suites) :
    (∃ g ∈ s.registry.groups, g.name ∈ groupNames (H.groupsOf d.lib) ∧ x.addr ∈ g.suites) ↔
      e.handle H = d.handle H := by
  rw [h.groups]
  constructor
  · rintro ⟨g, hg, hn, hxg⟩
    rcases List.mem_append.mp hg with hg | hg
    · exact absurd hn ((h.unregistered d hd).2 g hg)
    · obtain ⟨f, hf, hg⟩ := List.mem_flatMap.mp hg
      -- the group is of the library itself, and so are its suites
      have hfd : f.handle H = d.handle H := (h.group_iff hd hf hg).mp hn
      obtain ⟨x', hx', haddr⟩ := (h.added f hf).members g hg _ hxg
      refine by_contra fun hne => ?_
      exact (h.apart_of_ne he hf fun hef => hne (hef.trans hfd)).addrs x hx x' hx' haddr.symm
  · intro heq
    obtain ⟨g, hg, hxg⟩ := ((h.added e he).owned x hx).resolve_left (by simp)
    exact ⟨g, List.mem_append_right _ (List.mem_flatMap.mpr ⟨e, he, hg⟩),
      (h.group_iff hd he hg).mpr heq, hxg⟩

theorem Standing.not_in_group (h : Standing H s₀ parts s) (hfresh : s₀.registry.Fresh) {d : Part}
    (hd : d ∈ parts) {x : TestsuiteNod} (hx : x ∈ s₀.registry.suites) :
    ¬ ∃ g ∈ s.registry.groups, g.name ∈ groupNames (H.groupsOf d.lib) ∧ x.addr ∈ g.suites := by
  rw [h.groups]
  rintro ⟨g, hg, hn, hxg⟩
  rcases List.mem_append.mp hg with hg | hg
  · exact (h.unregistered d hd).2 g hg hn
  · obtain ⟨f, hf, hg⟩ := List.mem_flatMap.mp hg
    obtain ⟨x', hx', haddr⟩ := (h.added f hf).members g hg _ hxg
    have h1 := hfresh.suites x hx
    have h2 := ((h.added f hf).suites x' hx').2
    omega

theorem fresh_unregisterLib (hr : r.Fresh) : (unregisterLib lib_group r).Fresh := by
  rw [unregisterLib_eq]
  exact
    { suites := fun s hs => hr.suites s (List.mem_of_mem_filter hs)
      groups := fun g hg => hr.groups g (List.mem_of_mem_filter hg)
      members := fun g hg => hr.members g (List.mem_of_mem_filter hg) }

theorem Standing.nodes_unload (h : Standing H s₀ parts s) {d : Part} (hd : d ∈ parts) :
    (s.libs.nodes.eraseP fun v => v.lib_handle = d.handle H) =
      ((parts.filter fun e => e.handle H ≠ d.handle H).map fun e => H.loader.node e.lib).reverse ++
        s₀.libs.nodes := by
  have hdistinct : ((parts.map fun e => H.loader.node e.lib).reverse.map
      (·.lib_handle)).Nodup := by
    rw [List.map_reverse, List.nodup_reverse, List.map_map]
    exact List.pairwise_map.mpr (h.apart.imp Part.Apart.handle)
  have hmem : H.loader.node d.lib ∈ (parts.map fun e => H.loader.node e.lib).reverse :=
    List.mem_reverse.mpr (List.mem_map_of_mem (f := fun e : Part => H.loader.node e.lib) hd)
  rw [h.nodes, List.eraseP_append_left (a := H.loader.node d.lib) (decide_eq_true rfl) _ hmem,
    Keyed.eraseP_eq_filter hdistinct, List.filter_reverse, List.filter_map]
  rfl

/-- **An unload** takes the part of its library out. -/
theorem standing_unload (h : Standing H s₀ parts s) (hfresh : s₀.registry.Fresh)
    {o : UnloadAnswers} (hC : Separate H s₀ s (.unload lib o))
    (hst : s.Step H (.unload lib o) s') : ∃ parts', Standing H s₀ parts' s' := by
  cases hst with
  | unload _ _ hu =>
    obtain ⟨hwf, he, hnodes⟩ := nodes_unloadLib h.wf hu
    cases hok : o.ok with
    | false =>
      rw [if_pos (he.mpr hok)]
      rw [hok, if_neg (by decide)] at hnodes
      exact ⟨parts, { h with nodes := hnodes.trans h.nodes, wf := hwf }⟩
    | true =>
      rw [if_neg fun h => by simp [he.mp h] at hok]
      rw [hok, if_pos rfl] at hnodes
      obtain ⟨⟨v, hv, hvh⟩, hnot⟩ := hC hok
      -- the part of the library
      obtain ⟨d, hd, hdh⟩ : ∃ d ∈ parts, d.handle H = H.loader.handle lib := by
        rw [h.nodes] at hv
        rcases List.mem_append.mp hv with hv | hv
        · obtain ⟨d, hd, rfl⟩ := List.mem_map.mp (List.mem_reverse.mp hv)
          exact ⟨d, hd, hvh⟩
        · exact absurd ⟨v, hv, hvh⟩ hnot
      have hgroups : H.groupsOf lib = H.groupsOf d.lib := congrArg H.lib_group hdh.symm
      rw [← hdh, h.nodes_unload hd] at hnodes
      have hnone := h.unregistered d hd
      rw [hgroups]
      refine ⟨parts.filter fun e => e.handle H ≠ d.handle H, ?_⟩
      have hsub : ∀ e ∈ parts.filter fun e => e.handle H ≠ d.handle H, e ∈ parts :=
        fun e he => List.mem_of_mem_filter he
      have hreg := unregisterLib_eq (H.groupsOf d.lib) s.registry
      exact
        { nodes := hnodes
          cases := by
            refine (congrArg Registry.cases hreg).trans ?_
            dsimp only
            rw [h.cases, List.filter_append,
              List.filter_eq_self.mpr fun c hc => by simpa using hnone.1 c hc,
              Keyed.filter_flatMap_eq fun e he c hc => decide_eq_decide.mpr
                (not_congr (h.test_iff hd he hc))]
          suites := by
            refine (congrArg Registry.suites hreg).trans ?_
            dsimp only
            rw [h.suites, List.filter_append,
              List.filter_eq_self.mpr fun x hx => decide_eq_true (h.not_in_group hfresh hd hx),
              Keyed.filter_flatMap_eq fun e he x hx => decide_eq_decide.mpr
                (not_congr (h.in_group_iff hd he hx))]
          groups := by
            refine (congrArg Registry.groups hreg).trans ?_
            dsimp only
            rw [h.groups, List.filter_append,
              List.filter_eq_self.mpr fun g hg => by simpa using hnone.2 g hg,
              Keyed.filter_flatMap_eq fun e he g hg => decide_eq_decide.mpr
                (not_congr (h.group_iff hd he hg))]
          registers := fun e he => h.registers e (hsub e he)
          wf := hwf
          fresh := fresh_unregisterLib h.fresh
          next := by
            rw [hreg]
            exact h.next
          added := fun e he => h.added e (hsub e he)
          unregistered := fun e he => h.unregistered e (hsub e he)
          apart := h.apart.filter _ }

/-! ## Runs -/

theorem Composed.same (h : Composed H s₀ parts s) (hn : s.libs.nodes = s₀.libs.nodes) :
    s.registry.Same s₀.registry := by
  have hlen := congrArg List.length (h.nodes.symm.trans hn)
  obtain rfl : parts = [] := by simpa using hlen
  exact ⟨by simpa using h.cases, by simpa using h.suites, by simpa using h.groups⟩

/-- **In every run of loads and unloads of libraries that declare different names**, the registries
are those of the state it started from, and behind them what each library that has been loaded and
not unloaded has added, in the order of the loads; when none is left, the registries are as they
were. -/
theorem composed_of_run {tr : List (Daemon × DaemonCall)} (hT : H.testbox.AddsNodes)
    (hs : s₀.libs.WF) (hfresh : s₀.registry.Fresh) (hr : (daemonFrom H s₀).Run tr s)
    (hC : ∀ p ∈ tr, Separate H s₀ p.1 p.2) :
    ∃ parts, Composed H s₀ parts s ∧
      (s.libs.nodes = s₀.libs.nodes → s.registry.Same s₀.registry) := by
  obtain ⟨parts, h⟩ : ∃ parts, Standing H s₀ parts s := by
    refine hr.invariant_of_meets (I := fun s => ∃ parts, Standing H s₀ parts s) ?_ ?_ hC
    · rintro s rfl
      exact ⟨[], standing_start hs hfresh⟩
    · rintro s (⟨lib, o, info⟩ | ⟨lib, o⟩ | file) s' ⟨parts, h⟩ hC hst
      · exact standing_load hT h hC hst
      · exact standing_unload h hfresh hC hst
      · exact hC.elim
  exact ⟨parts, h.toComposed, h.toComposed.same⟩

/-! ## A run -/

theorem apart_threeLibraries : threeLibraries.Apart 1 3 := by
  constructor <;> exact fun name h1 h3 => absurd (List.mem_singleton.mp h1 ▸ h3) (by decide)

/-- `a` and `c` are loaded and `a` is unloaded: the part of `c` is left. -/
theorem composed_c : ∃ tr s parts, (daemonFrom threeLibraries .start).Run tr s ∧
    s.libs.nodes.map (·.lib_handle) = [3] ∧ Composed threeLibraries .start parts s := by
  have h0 : (daemonFrom threeLibraries .start).Run [] .start := .start rfl
  have h1 := h0.snoc (.load ['a'] ⟨true, true, true⟩ plainTestbox.zeroInfo rfl)
  have h2 := h1.snoc (.load ['c'] ⟨true, true, true⟩ plainTestbox.zeroInfo rfl)
  have h3 := h2.snoc (.unload ['a'] ⟨true, true, true⟩ rfl)
  have hstart : Daemon.start.registry.Fresh := by
    constructor <;> simp [Daemon.start, Registry.start]
  obtain ⟨parts, hparts, -⟩ := composed_of_run (H := threeLibraries) addsNodes_plainTestbox
    wf_start hstart h3 fun p hp => by
      simp only [List.mem_append, List.mem_singleton, List.not_mem_nil, false_or, or_assoc] at hp
      have hnone : ∀ lib, NoneRegistered (threeLibraries.groupsOf lib) Daemon.start.registry ∧
          NoSuiteNamed (threeLibraries.groupsOf lib) Daemon.start.registry := fun lib => by
        simp [NoneRegistered, NoSuiteNamed, Daemon.start, Registry.start]
      rcases hp with rfl | rfl | rfl
      · exact fun _ => ⟨by simp [Daemon.start, LibState.nodes, LibState.start, Linked.Heap.walk],
          (hnone _).1, (hnone _).2, fits_threeLibraries _, by decide⟩
      · refine fun _ => ⟨fun v hv => ?_, (hnone _).1, (hnone _).2, fits_threeLibraries _,
          by decide⟩
        obtain rfl : v = ⟨['a'], 1⟩ := List.mem_singleton.mp hv
        exact ⟨by decide, apart_threeLibraries⟩
      · refine fun _ => ⟨⟨⟨['a'], 1⟩, by decide, rfl⟩, ?_⟩
        rintro ⟨v, hv, -⟩
        simp [Daemon.start, LibState.nodes, LibState.start, Linked.Heap.walk] at hv
  exact ⟨_, _, parts, h3, rfl, hparts⟩

end Dib
