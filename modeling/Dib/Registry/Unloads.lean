import Dib.Libs.Balance
import Dib.Registry.Names

/-!
# Unloads that fail

`unload_lib` looks for the node of the library only after it has deleted what the library declares,
and closes the library twice whether there is a node or not.

* `countAfter`: the loader's reference counts after a call;
* `RemovesFirst`: what a call does that returns `TB_OK`;
* `FailsClean`: no null pointer is followed, and a call that fails changes nothing;
* `NoneRegistered`, **`unregisterLib_eq_self_iff`**: when the deletions change nothing;
* `unloadLib_refused`, `unloadLib_nil`, `unloadLib_loaded`, `unloadLib_absent`: the ways it ends;
* **`failsClean_iff`**: what that takes of a library without a node.
-/

set_option autoImplicit false

namespace Dib

open CString Linked Lts

/-! ## The property and the condition -/

/-- The reference counts after a call that leads from `s` to `s'`: it opens first, and a `dlclose`
without a reference fails. -/
def countAfter (s s' : LibState) (count : ℕ → ℕ) (h : ℕ) : ℕ :=
  count h + (s'.opened h - s.opened h) - (s'.closed h - s.closed h)

/-- `unload_lib` follows no null pointer, and if it returns `TB_ERROR` the registries, `libs` and
the reference counts are as before. -/
def FailsClean (H : Host) (lib : List Char) (o : UnloadAnswers) (s : Daemon) (count : ℕ → ℕ) :
    Prop :=
  ∃ libs e, unloadLib H.loader lib o s.libs = some (libs, e) ∧
    (e ≠ .removed →
      (if e = .refused then s.registry else unregisterLib (H.groupsOf lib) s.registry) =
        s.registry ∧
      libs.heap = s.libs.heap ∧ libs.libs = s.libs.libs ∧
      ∀ h, countAfter s.libs libs count h = count h)

/-- The first node with the handle is taken out and freed; the others stay as they are. -/
def RemovesFirst (handle : ℕ) (s s' : LibState) : Prop :=
  ∃ l₁ b w l₂, Chain s.heap s.libs (l₁ ++ (b, w) :: l₂) ∧ (∀ x ∈ l₁, x.2.lib_handle ≠ handle) ∧
    w.lib_handle = handle ∧ Chain s'.heap s'.libs (l₁ ++ l₂) ∧ s'.heap.cell b = none

/-- Nothing has a name that the library declares. -/
def NoneRegistered (lib_group : List TestboxTestgroup) (r : Registry) : Prop :=
  (∀ c ∈ r.cases, cstr c.name ∉ testNames lib_group) ∧
    ∀ g ∈ r.groups, g.name ∉ groupNames lib_group

/-! ## The deletions -/

variable {r : Registry} {lib_group : List TestboxTestgroup}

theorem mem_groups_unregisterLib (lib_group : List TestboxTestgroup) (r : Registry)
    (g : TestgroupNod) :
    g ∈ (unregisterLib lib_group r).groups ↔ g ∈ r.groups ∧ g.name ∉ groupNames lib_group := by
  unfold unregisterLib
  induction lib_group generalizing r with
  | nil => simp [groupNames]
  | cons group l ih =>
    rw [List.foldl_cons, ih, unloadTestgroup_eq]
    simp only [tbGroupDeletenodeByName, groupNames, List.map_cons, List.mem_cons, not_or,
      List.mem_filter, decide_eq_true_eq, and_assoc]

theorem unloadTestgroup_eq_self {group : TestboxTestgroup}
    (hc : ∀ c ∈ r.cases, cstr c.name ∉ group.tests.map (·.test_name))
    (hg : ∀ g ∈ r.groups, g.name ≠ group.group_name) : unloadTestgroup r group = r := by
  have h1 : (r.cases.filter fun c => cstr c.name ∉ group.tests.map (·.test_name)) = r.cases :=
    List.filter_eq_self.mpr fun c h => by simpa using hc c h
  have h2 : (r.suites.filter fun s =>
      ¬ ∃ g ∈ r.groups, g.name = group.group_name ∧ s.addr ∈ g.suites) = r.suites := by
    refine List.filter_eq_self.mpr fun s _ => decide_eq_true ?_
    rintro ⟨g, h, hn, -⟩
    exact hg g h hn
  have h3 : (r.groups.filter fun g => g.name ≠ group.group_name) = r.groups :=
    List.filter_eq_self.mpr fun g h => decide_eq_true (hg g h)
  rw [unloadTestgroup_eq, h1, tbGroupDeletenodeByName, h2, h3]

/-- **The deletions change nothing** exactly when nothing that is declared is registered. -/
theorem unregisterLib_eq_self_iff :
    unregisterLib lib_group r = r ↔ NoneRegistered lib_group r := by
  constructor
  · intro h
    exact ⟨fun c hc => ((mem_cases_unregisterLib lib_group r c).mp (by rwa [h])).2,
      fun g hg => ((mem_groups_unregisterLib lib_group r g).mp (by rwa [h])).2⟩
  · rintro ⟨hc, hg⟩
    refine List.foldlRecOn (motive := fun r' => r' = r) lib_group unloadTestgroup rfl ?_
    rintro _ rfl group hgroup
    refine unloadTestgroup_eq_self (fun c h hn => hc c h ?_) fun g h hn => hg g h ?_
    · obtain ⟨tc, htc, hn⟩ := List.mem_map.mp hn
      exact List.mem_map.mpr ⟨tc, List.mem_flatMap.mpr ⟨group, hgroup, htc⟩, hn⟩
    · exact hn ▸ List.mem_map_of_mem hgroup

/-! ## The list and the counts -/

variable {H : Host} {L : Loader} {lib : List Char} {o : UnloadAnswers} {s : Daemon}
  {ls ls' : LibState} {e : UnloadEnd} {count : ℕ → ℕ}

theorem loaded_iff_of_chain {l : List (ℕ × TestLib)} {h : ℕ} (hc : Chain ls.heap ls.libs l) :
    ls.Loaded h ↔ ∃ x ∈ l, x.2.lib_handle = h := by
  simp only [LibState.Loaded, nodes_eq hc, List.mem_map, exists_exists_and_eq_and]

theorem ok_iff : o.ok = true ↔ (¬ (¬ o.calloc ∨ ¬ o.dlopen)) ∧ ¬ ¬ o.dlsym := by
  simp [UnloadAnswers.ok, and_assoc]

theorem unloadLib_refused (L : Loader) (lib : List Char) (ls : LibState) (count : ℕ → ℕ)
    (hok : o.ok = false) :
    ∃ ls', unloadLib L lib o ls = some (ls', .refused) ∧ ls'.heap = ls.heap ∧ ls'.libs = ls.libs ∧
      ∀ h, countAfter ls ls' count h = count h := by
  by_cases h1 : ¬ o.calloc ∨ ¬ o.dlopen
  · exact ⟨ls, by rw [unloadLib, if_pos h1], rfl, rfl, fun h => by simp [countAfter]⟩
  · have h2 : ¬ o.dlsym := by
      simp only [UnloadAnswers.ok] at hok
      simp_all
    refine ⟨{ ls with opened := bump ls.opened (L.handle lib)
                      closed := bump ls.closed (L.handle lib) },
      by rw [unloadLib, if_neg h1, if_pos h2], rfl, rfl, fun h => ?_⟩
    simp only [countAfter, bump_apply]
    omega

/-- **In an empty list** the search starts at a null pointer. -/
theorem unloadLib_nil (hs : ls.WF) (hok : o.ok = true) (hn : ls.nodes = []) :
    unloadLib L lib o ls = none := by
  obtain ⟨l, hc⟩ := hs
  obtain rfl : l = [] := by simpa [nodes_eq hc] using hn
  obtain ⟨h1, h2⟩ := ok_iff.mp hok
  rw [unloadLib, if_neg h1, if_neg h2, hc.eq_none, removeLib]

/-- **A library with a node**: the first one is removed. -/
theorem unloadLib_loaded (hs : ls.WF) (hok : o.ok = true) (hl : ls.Loaded (L.handle lib)) :
    ∃ ls', unloadLib L lib o ls = some (ls', .removed) ∧ RemovesFirst (L.handle lib) ls ls' := by
  obtain ⟨l, hc⟩ := hs
  obtain ⟨x, hx, hxh⟩ := (loaded_iff_of_chain hc).mp hl
  obtain ⟨h1, h2⟩ := ok_iff.mp hok
  rcases removeLib_spec hc (List.ne_nil_of_mem hx) (L.handle lib) with
    ⟨h3, -⟩ | ⟨l₁, b, w, l₂, heap, libs, rfl, h3, h4, h5, h6, -⟩
  · exact absurd hxh (h3 x hx)
  · exact ⟨_, by rw [unloadLib, if_neg h1, if_neg h2, h5], l₁, b, w, l₂, hc, h3, h4,
      hc.free_of_append h6, Heap.cell_free_self⟩

/-- **A library without a node**, in a list with others, is closed once more than it was opened. -/
theorem unloadLib_absent (count : ℕ → ℕ) (hs : ls.WF) (hok : o.ok = true) (hn : ls.nodes ≠ [])
    (hl : ¬ ls.Loaded (L.handle lib)) :
    ∃ ls', unloadLib L lib o ls = some (ls', .absent) ∧ ls'.heap = ls.heap ∧ ls'.libs = ls.libs ∧
      ∀ h, countAfter ls ls' count h = count h - if h = L.handle lib then 1 else 0 := by
  obtain ⟨l, hc⟩ := hs
  have hne : l ≠ [] := by
    rintro rfl
    exact hn (nodes_eq hc)
  obtain ⟨h1, h2⟩ := ok_iff.mp hok
  rcases removeLib_spec hc hne (L.handle lib) with ⟨-, h3⟩ | ⟨l₁, b, w, l₂, _, _, rfl, -, hw, -⟩
  · refine ⟨⟨ls.heap, ls.libs, bump ls.opened (L.handle lib),
      bump (bump ls.closed (L.handle lib)) (L.handle lib)⟩,
      by rw [unloadLib, if_neg h1, if_neg h2, h3], rfl, rfl, fun h => ?_⟩
    simp only [countAfter, bump_apply]
    split <;> omega
  · exact absurd ((loaded_iff_of_chain hc).mpr ⟨(b, w), by simp, hw⟩) hl

/-- **A failed unload changes nothing** exactly when it gets no library, or the library has a node,
or it has none in a list with others, no reference to it is held and nothing is deleted. -/
theorem failsClean_iff (hs : s.libs.WF) :
    FailsClean H lib o s count ↔ (o.ok = true → s.libs.Loaded (H.loader.handle lib) ∨
      (s.libs.nodes ≠ [] ∧ count (H.loader.handle lib) = 0 ∧
        NoneRegistered (H.groupsOf lib) s.registry)) := by
  cases hok : o.ok with
  | false =>
    obtain ⟨ls', h1, h2, h3, h4⟩ := unloadLib_refused H.loader lib s.libs count hok
    exact iff_of_true ⟨ls', _, h1, fun _ => ⟨rfl, h2, h3, h4⟩⟩ (by simp)
  | true =>
    rw [imp_iff_right rfl]
    by_cases hl : s.libs.Loaded (H.loader.handle lib)
    · obtain ⟨ls', h1, -⟩ := unloadLib_loaded hs hok hl
      exact iff_of_true ⟨ls', _, h1, fun h => absurd rfl h⟩ (.inl hl)
    by_cases hn : s.libs.nodes = []
    · refine iff_of_false ?_ (by simp [hl, hn])
      rintro ⟨ls', e, h1, -⟩
      rw [unloadLib_nil hs hok hn] at h1
      cases h1
    obtain ⟨ls', h1, h2, h3, h4⟩ := unloadLib_absent count hs hok hn hl
    simp only [hl, hn, false_or, ne_eq, not_false_eq_true, true_and]
    constructor
    · rintro ⟨libs, e, h5, h6⟩
      obtain ⟨rfl, rfl⟩ := Prod.mk.inj (Option.some.inj (h1.symm.trans h5))
      obtain ⟨h7, -, -, h8⟩ := h6 (by decide)
      refine ⟨?_, unregisterLib_eq_self_iff.mp h7⟩
      have h9 := (h4 _).symm.trans (h8 (H.loader.handle lib))
      rw [if_pos rfl] at h9
      omega
    · rintro ⟨h5, h6⟩
      refine ⟨ls', _, h1, fun _ => ⟨unregisterLib_eq_self_iff.mpr h6, h2, h3, fun h => ?_⟩⟩
      rw [h4]
      split
      · next h7 => rw [h7, h5]
      · rfl

/-! ## Libraries that another one needs -/

/-- `a` needs `b`, which declares the same test, and `c`, which declares another. -/
def aNeedsOthers : Host where
  loader.handle lib := if lib = ['a'] then 1 else if lib = ['b'] then 2 else 3
  loader.needs g h := g = 1 ∧ h ≠ 1
  loader.TB_MAX_PATH_LEN := 256
  testbox := plainTestbox
  lib_group h := if h = 3 then otherTest else oneTest

/-- The daemon after `a` was loaded. -/
def aLoaded : Daemon :=
  ⟨⟨[some ⟨⟨['a'], 1⟩, none⟩], some 0, bump (fun _ => 0) 1, fun _ => 0⟩,
    (registerLib plainTestbox 1 oneTest plainTestbox.zeroInfo .start).registry⟩

theorem aLoaded_run : (daemon aNeedsOthers).Run
    [(.start, .load ['a'] ⟨true, true, true⟩ plainTestbox.zeroInfo)] aLoaded :=
  .snoc (.start rfl) (.load ['a'] ⟨true, true, true⟩ plainTestbox.zeroInfo rfl)

theorem aLoaded_mapped {h : ℕ} (hh : h ≠ 1) : Mapped aNeedsOthers.loader aLoaded.libs h :=
  .needed (.held (h := 1) (by decide)) ⟨rfl, hh⟩

theorem wf_aLoaded : aLoaded.libs.WF := ⟨[(0, ⟨['a'], 1⟩)], .cons rfl .nil⟩

/-- Unloading `c`, of which nothing is registered, fails and changes nothing. -/
theorem failsClean_c : FailsClean aNeedsOthers ['c'] ⟨true, true, true⟩ aLoaded fun _ => 0 := by
  refine (failsClean_iff wf_aLoaded).mpr fun _ => .inr ⟨by decide, rfl, ?_⟩
  constructor <;> decide

/-- Unloading `b` fails, and the test of `a` is gone. -/
theorem dependency_unload_not_clean : ∃ tr s, (daemon aNeedsOthers).Run tr s ∧
    Mapped aNeedsOthers.loader s.libs 2 ∧
    ¬ FailsClean aNeedsOthers ['b'] ⟨true, true, true⟩ s fun h => (s.libs.refs h).toNat := by
  refine ⟨_, aLoaded, aLoaded_run, aLoaded_mapped (by decide), ?_⟩
  rintro ⟨libs, e, h1, h2⟩
  obtain ⟨rfl, rfl⟩ := Prod.mk.inj (Option.some.inj h1)
  obtain ⟨h3, -⟩ := h2 (by decide)
  revert h3
  decide

end Dib
