import Dib.Registry.Daemon

/-!
# Functions of unloaded libraries

An unload deletes the cases and groups that its library declares. A group file may have copied a
function of that library into a suite of another group.

* `Daemon.NoDangling`: every function held is one of a loaded library;
* `Covered`, `UnloadsCovered`: what is held of a library that goes is deleted by its unload;
* **`covered_iff`**, **`noDangling_unload_iff`**: an unload leaves nothing dangling exactly then;
* **`noDangling_iff`**: no function dangles along a run exactly when this is so at every unload.
-/

set_option autoImplicit false

namespace Dib

open CString Lts

/-! ## The property and the condition -/

/-- Every function that is held is one of a loaded library. -/
def Daemon.NoDangling (s : Daemon) : Prop := s.registry.Holds fun f => s.libs.Loaded f.lib

/-- The entry has a function of the library. -/
def TestcaseNod.IsOf (c : TestcaseNod) (h : ℕ) : Prop := ∃ f ∈ c.function, f.lib = h

/-- Cases with a function of the library have a name that it declares, and suites that have such an
entry are in a group that it declares. -/
structure Covered (r : Registry) (h : ℕ) (lib_group : List TestboxTestgroup) : Prop where
  cases : ∀ c ∈ r.cases, c.IsOf h → cstr c.name ∈ testNames lib_group
  suites : ∀ s ∈ r.suites, (∃ t ∈ s.tests, t.IsOf h) →
    ∃ name ∈ groupNames lib_group, r.InGroup name s

/-- If the step unloads the last node of a library, what is held of it is covered. -/
def UnloadsCovered (H : Host) (s : Daemon) : DaemonCall → Prop
  | .unload lib o => o.ok = true →
      s.libs.nodes.countP (·.lib_handle = H.loader.handle lib) = 1 →
      Covered s.registry (H.loader.handle lib) (H.groupsOf lib)
  | _ => True

/-! ## Unloads -/

variable {H : Host} {s s' : Daemon} {c : DaemonCall} {Q : TestFunction → Prop} {r : Registry}
  {h : ℕ} {lib_group : List TestboxTestgroup}

theorem holds_unregisterLib (hr : r.Holds Q) (lib_group : List TestboxTestgroup) :
    (unregisterLib lib_group r).Holds Q :=
  ⟨fun c hc => hr.cases c ((mem_cases_unregisterLib lib_group r c).mp hc).1,
    fun x hx => hr.tests x ((mem_suites_unregisterLib lib_group r x).mp hx).1⟩

/-- **An unload leaves no function of its library exactly when they are covered.** -/
theorem covered_iff :
    Covered r h lib_group ↔ (unregisterLib lib_group r).Holds fun f => f.lib ≠ h := by
  constructor
  · refine fun hcov => ⟨fun c hc f hf hfh => ?_, fun x hx t ht f hf hfh => ?_⟩
    · obtain ⟨hc, hname⟩ := (mem_cases_unregisterLib lib_group r c).mp hc
      exact hname (hcov.cases c hc ⟨f, hf, hfh⟩)
    · obtain ⟨hx, hgroup⟩ := (mem_suites_unregisterLib lib_group r x).mp hx
      obtain ⟨name, hname, hin⟩ := hcov.suites x hx ⟨t, ht, f, hf, hfh⟩
      exact hgroup name hname hin
  · refine fun hhold => ⟨fun c hc ⟨f, hf, hfh⟩ => ?_, fun x hx ⟨t, ht, f, hf, hfh⟩ => ?_⟩
    · by_contra hname
      exact hhold.cases c ((mem_cases_unregisterLib lib_group r c).mpr ⟨hc, hname⟩) f hf hfh
    · by_contra hgroup
      have hx' := (mem_suites_unregisterLib lib_group r x).mpr
        ⟨hx, fun name hname hin => hgroup ⟨name, hname, hin⟩⟩
      exact hhold.tests x hx' t ht f hf hfh

/-! ## Steps -/

/-- The list is sound and nothing dangles. -/
def Daemon.Sound (s : Daemon) : Prop := s.libs.WF ∧ s.NoDangling

theorem sound_start : Daemon.start.Sound := ⟨wf_start, holds_start⟩

theorem sound_load {lib : List Char} {o : LoadAnswers} {info : TestcaseNod} {libs : LibState}
    (hs : s.Sound) (hl : loadLib H.loader lib o s.libs = some (libs, true)) :
    Daemon.Sound ⟨libs, (registerLib H.testbox (H.loader.handle lib) (H.groupsOf lib) info
      s.registry).registry⟩ := by
  obtain ⟨hwf, hnodes⟩ := nodes_loadLib hs.1 hl
  rw [if_pos rfl] at hnodes
  refine ⟨hwf, (importInv_holds fun k => ?_).registerLib _ _ (hs.2.mono fun f hf => ?_)⟩
  · exact ⟨H.loader.node lib, hnodes ▸ List.mem_cons_self, rfl⟩
  · obtain ⟨v, hv, hvf⟩ := hf
    exact ⟨v, hnodes ▸ List.mem_cons_of_mem _ hv, hvf⟩

theorem sound_loadFails {lib : List Char} {o : LoadAnswers} {libs : LibState} (hs : s.Sound)
    (hl : loadLib H.loader lib o s.libs = some (libs, false)) :
    Daemon.Sound ⟨libs, s.registry⟩ := by
  obtain ⟨hwf, hnodes⟩ := nodes_loadLib hs.1 hl
  exact ⟨hwf, hs.2.mono fun f ⟨v, hv, hvf⟩ => ⟨v, hnodes.symm ▸ hv, hvf⟩⟩

/-- **An unload** leaves nothing dangling exactly when what is held of its library is covered or
the library stays loaded. -/
theorem noDangling_unload_iff {lib : List Char} {o : UnloadAnswers} {libs : LibState}
    {e : UnloadEnd} (hs : s.Sound) (hu : unloadLib H.loader lib o s.libs = some (libs, e)) :
    Daemon.NoDangling ⟨libs,
        if e = .refused then s.registry else unregisterLib (H.groupsOf lib) s.registry⟩ ↔
      UnloadsCovered H s (.unload lib o) := by
  obtain ⟨-, he, hnodes⟩ := nodes_unloadLib hs.1 hu
  cases hok : o.ok with
  | false =>
    rw [hok] at hnodes
    rw [if_pos (he.mpr hok)]
    refine iff_of_true (hs.2.mono fun f ⟨v, hv, hvf⟩ => ⟨v, hnodes.symm ▸ hv, hvf⟩) fun h1 => ?_
    rw [hok] at h1
    cases h1
  | true =>
    rw [hok, if_pos rfl] at hnodes
    have hne : e ≠ .refused := fun h => by rw [he.mp h] at hok; cases hok
    rw [if_neg hne]
    have hloaded : libs.Loaded (H.loader.handle lib) ↔
        1 < s.libs.nodes.countP (·.lib_handle = H.loader.handle lib) := by
      rw [LibState.Loaded, hnodes, exists_mem_eraseP_iff]
    have hother : ∀ k, k ≠ H.loader.handle lib → s.libs.Loaded k → libs.Loaded k := fun k hk => by
      rw [LibState.Loaded, LibState.Loaded, hnodes, exists_mem_eraseP_of_ne hk]
      exact id
    have hold := holds_unregisterLib hs.2 (H.groupsOf lib)
    constructor
    · intro hdang _ h1
      refine covered_iff.mpr (hdang.mono fun f hf hfh => ?_)
      have h2 := hloaded.mp (hfh ▸ hf)
      omega
    · intro hC
      by_cases h1 : s.libs.nodes.countP (·.lib_handle = H.loader.handle lib) = 1
      · have hcov := covered_iff.mp (hC hok h1)
        exact ⟨fun c hc f hf => hother _ (hcov.cases c hc f hf) (hold.cases c hc f hf),
          fun x hx t ht f hf => hother _ (hcov.tests x hx t ht f hf) (hold.tests x hx t ht f hf)⟩
      · refine hold.mono fun f hf => ?_
        by_cases hk : f.lib = H.loader.handle lib
        · obtain ⟨v, hv, hvf⟩ := hf
          have hpos : 0 < s.libs.nodes.countP (·.lib_handle = H.loader.handle lib) :=
            List.countP_pos_iff.mpr ⟨v, hv, by simpa using hvf.trans hk⟩
          rw [hk]
          exact hloaded.mpr (by omega)
        · exact hother _ hk hf

theorem sound_step (hs : s.Sound) (hC : UnloadsCovered H s c) (hst : s.Step H c s') : s'.Sound := by
  cases hst with
  | load lib o info hl => exact sound_load hs hl
  | loadFails lib o info hl => exact sound_loadFails hs hl
  | unload lib o hu => exact ⟨(nodes_unloadLib hs.1 hu).1, (noDangling_unload_iff hs hu).mpr hC⟩
  | groupFile file rounds hf => exact ⟨hs.1, (keeps_addGroupFromFile ⟨rfl, hs.2⟩ hf).2⟩

/-! ## Runs -/

/-- **No function of an unloaded library is held along a run exactly when every unload of a last
node finds what is held of its library covered.** -/
theorem noDangling_iff {tr : List (Daemon × DaemonCall)} (h : (daemon H).Run tr s) :
    ((∀ p ∈ tr, p.1.NoDangling) ∧ s.NoDangling) ↔ ∀ p ∈ tr, UnloadsCovered H p.1 p.2 := by
  refine h.exact (J := Daemon.Sound) (fun s hs => ?_) (fun s hs => hs.2)
    (fun s c s' hs hC hst => sound_step hs hC hst) fun s c s' hs hst hP => ?_
  · obtain rfl : s = .start := hs
    exact sound_start
  · cases hst with
    | unload lib o hu => exact (noDangling_unload_iff hs hu).mp hP
    | _ => trivial

/-! ## A library whose case a group file copies -/

/-- The group `G` with the suite `S`, which lists the case `t`. -/
def copyOfT : List Char :=
  ['G', 'R', 'O', 'U', 'P', '(', 'G', ')', '\n',
   'S', 'U', 'I', 'T', 'E', '(', 'S', ')', '\n',
   'T', 'C', '(', 't', ')', '\n',
   'E', 'N', 'D', '_', 'S', 'U', 'I', 'T', 'E', '\n',
   'E', 'N', 'D', '_', 'G', 'R', 'O', 'U', 'P', '\n']

/-- Loaded and unloaded, the library leaves nothing behind. -/
theorem noDangling_oneTest : ∃ tr s, (daemon oneLibrary).Run tr s ∧ s.libs.nodes = [] ∧
    s.NoDangling := by
  have h0 : (daemon oneLibrary).Run [] .start := .start rfl
  have h1 := h0.snoc (.load ['a'] ⟨true, true, true⟩ plainTestbox.zeroInfo rfl)
  have h2 := h1.snoc (.unload ['a'] ⟨true, true, true⟩ rfl)
  refine ⟨_, _, h2, rfl, ((noDangling_iff h2).mpr fun p hp => ?_).2⟩
  rcases List.mem_append.mp hp with hp | hp
  · obtain rfl := List.mem_singleton.mp hp
    trivial
  · obtain rfl := List.mem_singleton.mp hp
    exact fun _ _ => covered_iff.mpr ⟨by decide, by decide⟩

/-- The suite of the file keeps the function of the library after this is unloaded. -/
theorem function_dangles : ∃ tr s, (daemon oneLibrary).Run tr s ∧ s.libs.nodes = [] ∧
    (∃ x ∈ s.registry.suites, ∃ t ∈ x.tests, t.function = some ⟨1, 0⟩) ∧ ¬ s.NoDangling := by
  have hrun : ∃ tr s, (daemon oneLibrary).Run tr s ∧ s.libs.nodes = [] ∧
      ∃ x ∈ s.registry.suites, ∃ t ∈ x.tests, t.function = some ⟨1, 0⟩ := by
    have h0 : (daemon oneLibrary).Run [] .start := .start rfl
    have h1 := h0.snoc (.load ['a'] ⟨true, true, true⟩ plainTestbox.zeroInfo rfl)
    have h2 := h1.snoc (.groupFile (some copyOfT) 0 rfl)
    have h3 := h2.snoc (.unload ['a'] ⟨true, true, true⟩ rfl)
    exact ⟨_, _, h3, rfl, by decide⟩
  obtain ⟨tr, s, h, hnodes, x, hx, t, ht, hf⟩ := hrun
  refine ⟨tr, s, h, hnodes, ⟨x, hx, t, ht, hf⟩, fun hdang => ?_⟩
  obtain ⟨v, hv, -⟩ := hdang.tests x hx t ht _ hf
  rw [hnodes] at hv
  cases hv

end Dib
