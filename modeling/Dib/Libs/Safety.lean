import Dib.Libs.Race
import Dib.Registry.Loads

/-!
# Pointers to nodes under concurrent loads and unloads

A thread keeps the pointer to its node from one section to the next, and `unload_lib` looks at the
first node without asking whether there is one.

* `Phase.node`, `Phase.freeing`: the node of the next section of a thread, and the one it frees;
* `Race.Faults`: that section follows a null pointer or a pointer to a freed node;
* `Race.Safe`: no thread does, the list is right, and `list_libs` prints it;
* `Race.Only`, `Careful`: a step that leaves the other threads what they need;
* `Race.Guarded`, `guarded_step`: what such steps keep;
* `reads_freed`, `empties_list`, `starts_empty`: what the others lead to;
* **`safe_iff`**: all is safe all along a run exactly when all its steps are of the first kind.
-/

set_option autoImplicit false

namespace Dib

open Linked Lts

/-! ## Statement -/

/-- The node that the next section of the thread uses, through a pointer of its own. -/
def Phase.node : Phase → Option ℕ
  | .opened a | .added a | .failed a | .dropped a | .removed a => some a
  | _ => none

/-- The node that it frees. -/
def Phase.freeing : Phase → Option ℕ
  | .dropped a | .removed a => some a
  | _ => none

/-- The next section of the thread `t` follows a null pointer, or one to a freed node. -/
def Race.Faults (s : Race) (t : ℕ) : Prop :=
  (∃ a, (s.threads t).node = some a ∧ s.heap.cell a = none) ∨
    ∃ handle, s.threads t = .unloading handle ∧ removeLib s.heap s.libs handle = none

/-- The lines that `list_libs` prints, if it is called now. -/
def Race.lines (s : Race) : Option (List (List Char)) :=
  (listLoop s.heap s.heap.length s.libs).map ("Currently loaded libraries:".toList :: ·)

/-- No thread faults, the list is right, and `list_libs` prints the names of its nodes. -/
structure Race.Safe (s : Race) : Prop where
  threads : ∀ t, ¬ s.Faults t
  listed : s.Listed
  printed : s.lines = some ("Currently loaded libraries:".toList ::
    s.listed.filterMap fun a => (libAt s.heap a).map (·.lib_name))

/-- The only node in the list is one of this library. -/
def Race.Only (s : Race) (handle : ℕ) : Prop :=
  ∃ a v, s.listed = [a] ∧ libAt s.heap a = some v ∧ v.lib_handle = handle

/-- A node is dropped from the front; the last node does not go, and no unload starts without one,
while there is an unload that looks for one; and a node that was removed is not freed while the
load that added it still needs it. -/
def Careful (s : Race) : RaceStep → Prop
  | .drop t => DropsHead s (.drop t) ∧
      ∀ a, s.threads t = .failed a → s.listed = [a] → ∀ t' h, s.threads t' ≠ .unloading h
  | .remove t => ∀ h, s.threads t = .unloading h → s.Only h →
      ∀ t' h', t' ≠ t → s.threads t' ≠ .unloading h'
  | .unload _ _ => s.libs ≠ none
  | .free t => ∀ a t', s.threads t = .removed a → s.threads t' ≠ .added a
  | _ => True

/-! ## The invariant -/

/-- As long as steps are careful. -/
structure Race.Guarded (hasGroup : ℕ → Bool) (s : Race) : Prop extends s.Intact hasGroup where
  live : ∀ t a, (s.threads t).node = some a → ∃ v, libAt s.heap a = some v
  busy : ∀ t h, s.threads t = .unloading h → s.libs ≠ none
  distinct : ∀ t t' a, t ≠ t' → (s.threads t).freeing = some a → (s.threads t').freeing ≠ some a

variable {L : Loader} {hasGroup : ℕ → Bool} {s s' : Race} {c : RaceStep} {t a : ℕ}

theorem guarded_start : Race.start.Guarded hasGroup where
  toIntact := intact_start
  live _ _ h := by cases h
  busy _ _ h := by cases h
  distinct _ _ _ _ h := by cases h

theorem cell_eq_none_iff {heap : Heap TestLib} :
    heap.cell a = none ↔ ∀ v, libAt heap a ≠ some v := by
  rw [libAt]
  cases heap.cell a <;> simp

theorem removeLib_eq_none_iff {heap : Heap TestLib} {libs : Option ℕ} {l : List (ℕ × TestLib)}
    (hc : Chain heap libs l) (handle : ℕ) : removeLib heap libs handle = none ↔ libs = none := by
  constructor
  · intro h
    by_contra hne
    have hl : l ≠ [] := by
      rintro rfl
      exact hne hc.eq_none
    rcases removeLib_spec hc hl handle with ⟨-, h1⟩ | ⟨_, _, _, _, _, _, -, -, -, h1, -⟩
    · rw [h] at h1
      cases h1
    · rw [h] at h1
      cases h1
  · rintro rfl
    rfl

theorem Race.Guarded.safe (h : s.Guarded hasGroup) : s.Safe where
  threads t := by
    rintro (⟨a, ha, hcell⟩ | ⟨handle, ht, hnone⟩)
    · obtain ⟨v, hv⟩ := h.live t a ha
      exact cell_eq_none_iff.mp hcell v hv
    · obtain ⟨l, hc, -⟩ := h.chain
      exact h.busy t handle ht ((removeLib_eq_none_iff hc handle).mp hnone)
  listed := h.toIntact.listed
  printed := by
    obtain ⟨l, hc, hl⟩ := h.chain
    have hnames : l.map (·.2.lib_name) =
        (l.map Prod.fst).filterMap fun a => (libAt s.heap a).map (·.lib_name) := by
      rw [List.filterMap_map, ← List.filterMap_eq_map]
      refine List.filterMap_congr fun x hx => ?_
      obtain ⟨q, hq⟩ := hc.cell_of_mem (a := x.1) (v := x.2) hx
      simp [libAt, hq]
    rw [Race.lines, listLoop_eq hc hc.length_le, hl, ← hnames]
    rfl

/-! ## Careful steps -/

theorem Race.Guarded.goto (h : s.Guarded hasGroup) {heap : Heap TestLib} {libs : Option ℕ}
    {listed : List ℕ} {q : Phase}
    (hintact : Race.Intact hasGroup (Race.goto ⟨heap, libs, s.threads, listed⟩ t q))
    (hnode : ∀ a, q.node = some a → ∃ v, libAt heap a = some v)
    (hnodes : ∀ t' a, t' ≠ t → (s.threads t').node = some a → ∃ v, libAt heap a = some v)
    (hunload : ∀ handle, q = .unloading handle → libs ≠ none)
    (hunloads : ∀ t' handle, t' ≠ t → s.threads t' = .unloading handle → libs ≠ none)
    (hfree : ∀ a t', q.freeing = some a → t' ≠ t → (s.threads t').freeing ≠ some a) :
    Race.Guarded hasGroup (Race.goto ⟨heap, libs, s.threads, listed⟩ t q) where
  toIntact := hintact
  live t' a ha := by
    by_cases ht : t' = t
    · subst ht
      exact hnode a (by simpa [Race.goto] using ha)
    · exact hnodes t' a ht (by simpa [Race.goto, ht] using ha)
  busy t' handle ht' := by
    by_cases ht : t' = t
    · subst ht
      exact hunload handle (by simpa [Race.goto] using ht')
    · exact hunloads t' handle ht (by simpa [Race.goto, ht] using ht')
  distinct t₁ t₂ a hne h₁ h₂ := by
    by_cases h1 : t₁ = t
    · subst h1
      exact hfree a t₂ (by simpa [Race.goto] using h₁) hne.symm
        (by simpa [Race.goto, hne.symm] using h₂)
    · by_cases h2 : t₂ = t
      · subst h2
        exact hfree a t₁ (by simpa [Race.goto] using h₂) hne (by simpa [Race.goto, h1] using h₁)
      · exact h.distinct t₁ t₂ a hne (by simpa [Race.goto, h1] using h₁)
          (by simpa [Race.goto, h2] using h₂)

theorem Race.Guarded.not_listed (h : s.Guarded hasGroup) (ha : (s.threads t).freeing = some a) :
    a ∉ s.listed := by
  have hok := h.ok t
  cases hp : s.threads t <;> rw [hp] at ha hok <;> cases ha <;> exact hok.2

theorem guarded_load (h : s.Guarded hasGroup) (v : TestLib) :
    Race.Guarded hasGroup (Race.goto { s with heap := s.heap ++ [some ⟨v, none⟩] } t
      (.opened s.heap.length)) := by
  refine h.goto (intact_load h.toIntact v) ?_ (fun t' a _ ha => ?_) (by simp)
    (fun t' handle _ ht' => h.busy t' handle ht') (by simp [Phase.freeing])
  · rintro _ ⟨⟩
    exact ⟨v, by simp [libAt]⟩
  · obtain ⟨w, hw⟩ := h.live t' a ha
    exact ⟨w, (libAt_append (lt_length_of_libAt hw) _).trans hw⟩

theorem guarded_add (h : s.Guarded hasGroup) (ht : s.threads t = .opened a) :
    Race.Guarded hasGroup (Race.goto { s with
      heap := (addLib s.heap s.libs a).1
      libs := (addLib s.heap s.libs a).2
      listed := a :: s.listed } t (.added a)) := by
  have hnodes : ∀ t' b, (s.threads t').node = some b →
      ∃ v, libAt (addLib s.heap s.libs a).1 b = some v := fun t' b hb =>
    (h.live t' b hb).imp fun v hv => (libAt_setNext s.heap a b s.libs).trans hv
  refine h.goto (intact_add h.toIntact ht) ?_ (fun t' b _ hb => hnodes t' b hb) (by simp)
    (fun _ _ _ _ => by simp [addLib]) (by simp [Phase.freeing])
  rintro _ ⟨⟩
  exact hnodes t a (by rw [ht, Phase.node])

theorem guarded_symbol (h : s.Guarded hasGroup) {c : Cell TestLib} (ht : s.threads t = .added a)
    (hcell : s.heap.cell a = some c) :
    (s.goto t (if hasGroup c.val.lib_handle then .idle else .failed a)).Guarded hasGroup := by
  have hlive := h.live t a (by rw [ht, Phase.node])
  have hintact := intact_symbol h.toIntact ht hcell
  revert hintact
  split <;> intro hintact
  · exact h.goto hintact (by simp [Phase.node]) (fun t' b _ => h.live t' b) (by simp)
      (fun t' handle _ => h.busy t' handle) (by simp [Phase.freeing])
  · refine h.goto hintact ?_ (fun t' b _ => h.live t' b) (by simp)
      (fun t' handle _ => h.busy t' handle) (by simp [Phase.freeing])
    rintro _ ⟨⟩
    exact hlive

theorem listed_of_libs {l : List (ℕ × TestLib)} {libs : Option ℕ} (hc : Chain s.heap (some a) l)
    (hl : s.listed = l.map Prod.fst) (hdrop : dropLib s.heap a = some libs) :
    libs = none ↔ s.listed = [a] := by
  obtain ⟨c, l, hcell, rfl, hc'⟩ := hc.eq_cons
  obtain rfl : c.next = libs := by simpa [dropLib, hcell] using hdrop
  rw [hl, List.map_cons, List.cons_eq_cons, and_iff_right rfl, List.map_eq_nil_iff]
  constructor
  · intro h
    rw [h] at hc'
    exact hc'.eq_nil
  · rintro rfl
    exact hc'.eq_none

theorem guarded_drop (h : s.Guarded hasGroup) {libs : Option ℕ} (ht : s.threads t = .failed a)
    (hdrop : dropLib s.heap a = some libs) (hhead : s.libs = some a)
    (hC : s.listed = [a] → ∀ t' h, s.threads t' ≠ .unloading h) :
    Race.Guarded hasGroup
      (Race.goto { s with libs := libs, listed := s.listed.erase a } t (.dropped a)) := by
  obtain ⟨l, hc, hl⟩ := h.chain
  rw [hhead] at hc
  refine h.goto (intact_drop h.toIntact ht hdrop hhead) ?_ (fun t' b _ => h.live t' b) (by simp)
    (fun t' handle _ ht' hnone => ?_) ?_
  · rintro _ ⟨⟩
    exact h.live t a (by rw [ht, Phase.node])
  · exact hC ((listed_of_libs hc hl hdrop).mp hnone) t' handle ht'
  · rintro _ t' ⟨⟩ - hb
    have hlisted := h.ok t
    rw [ht] at hlisted
    exact h.not_listed hb hlisted.1

theorem listed_of_remove {l : List (ℕ × TestLib)} {heap : Heap TestLib} {libs : Option ℕ}
    {handle : ℕ} (hc : Chain s.heap s.libs l) (hl : s.listed = l.map Prod.fst)
    (hrem : removeLib s.heap s.libs handle = some (heap, libs, some a)) :
    a ∈ s.listed ∧ (libs = none ↔ s.Only handle) ∧ ∀ b, libAt heap b = libAt s.heap b := by
  have hne : l ≠ [] := by
    rintro rfl
    rw [hc.eq_none] at hrem
    cases hrem
  rcases removeLib_spec hc hne handle with
    ⟨-, h1⟩ | ⟨l₁, b, w, l₂, heap', libs', rfl, -, hw, h1, hc', -, hval⟩
  · simp [h1] at hrem
  obtain ⟨rfl, rfl, rfl⟩ : heap' = heap ∧ libs' = libs ∧ b = a := by simpa [h1] using hrem
  obtain ⟨q, hcell, -⟩ := hc.of_append
  refine ⟨by simp [hl], ?_, hval⟩
  constructor
  · rintro rfl
    obtain ⟨rfl, rfl⟩ := List.append_eq_nil_iff.mp hc'.eq_nil
    exact ⟨b, w, hl, by rw [libAt, hcell]; rfl, hw⟩
  · rintro ⟨b', -, hb', -⟩
    have hlen := congrArg List.length (hl.symm.trans hb')
    obtain ⟨rfl, rfl⟩ : l₁ = [] ∧ l₂ = [] := by
      simp only [List.length_map, List.length_append, List.length_cons, List.length_nil] at hlen
      exact ⟨List.length_eq_zero_iff.mp (by omega), List.length_eq_zero_iff.mp (by omega)⟩
    exact hc'.eq_none

theorem guarded_removeSome (h : s.Guarded hasGroup) {handle : ℕ} {heap : Heap TestLib}
    {libs : Option ℕ} (ht : s.threads t = .unloading handle)
    (hrem : removeLib s.heap s.libs handle = some (heap, libs, some a))
    (hC : s.Only handle → ∀ t' h', t' ≠ t → s.threads t' ≠ .unloading h') :
    Race.Guarded hasGroup
      (Race.goto { s with heap := heap, libs := libs, listed := s.listed.erase a } t
        (.removed a)) := by
  obtain ⟨l, hc, hl⟩ := h.chain
  obtain ⟨hmem, hlast, hval⟩ := listed_of_remove hc hl hrem
  refine h.goto (intact_removeSome h.toIntact ht hrem) ?_ (fun t' b _ hb => ?_) (by simp)
    (fun t' handle' hne ht' hnone => ?_) ?_
  · rintro _ ⟨⟩
    rw [hl] at hmem
    obtain ⟨⟨b, w⟩, hm, rfl⟩ := List.mem_map.mp hmem
    obtain ⟨q, hq⟩ := hc.cell_of_mem hm
    exact ⟨w, by rw [hval, libAt, hq]; rfl⟩
  · rw [hval]
    exact h.live t' b hb
  · exact hC (hlast.mp hnone) t' handle' hne ht'
  · rintro _ t' ⟨⟩ - hb
    exact h.not_listed hb hmem

theorem guarded_removeNone (h : s.Guarded hasGroup) {handle : ℕ} {heap : Heap TestLib}
    {libs : Option ℕ} (hrem : removeLib s.heap s.libs handle = some (heap, libs, none)) :
    (Race.goto { s with heap := heap, libs := libs } t .idle).Guarded hasGroup := by
  have hintact := intact_removeNone (t := t) h.toIntact hrem
  obtain ⟨l, hc, hl⟩ := h.chain
  have hne : l ≠ [] := by
    rintro rfl
    rw [hc.eq_none] at hrem
    cases hrem
  rcases removeLib_spec hc hne handle with ⟨-, h1⟩ | ⟨_, _, _, _, _, _, -, -, -, h1, -⟩
  · obtain ⟨rfl, rfl⟩ : s.heap = heap ∧ s.libs = libs := by simpa [h1] using hrem
    exact h.goto hintact (by simp [Phase.node]) (fun t' b _ => h.live t' b) (by simp)
      (fun t' handle _ => h.busy t' handle) (by simp [Phase.freeing])
  · simp [h1] at hrem

theorem guarded_free (h : s.Guarded hasGroup)
    (ht : s.threads t = .dropped a ∨ s.threads t = .removed a)
    (hC : ∀ t', s.threads t = .removed a → s.threads t' ≠ .added a) :
    (Race.goto { s with heap := s.heap.free a } t .idle).Guarded hasGroup := by
  have hfree : (s.threads t).freeing = some a := by
    rcases ht with ht | ht <;> rw [ht, Phase.freeing]
  have hna := h.not_listed hfree
  refine h.goto (intact_free h.toIntact ht) (by simp [Phase.node]) (fun t' b hne hb => ?_) (by simp)
    (fun t' handle _ => h.busy t' handle) (by simp [Phase.freeing])
  have hab : a ≠ b := by
    rintro rfl
    have hapart : (s.threads t').own = some a → s.threads t = .removed a := fun hown => by
      rcases ht with ht | ht
      · exact absurd rfl (h.ne_of_own (by rw [ht, Phase.own]) hne hown)
      · exact ht
    have hok := h.ok t'
    cases hp : s.threads t' <;> rw [hp] at hb hok hapart <;> cases hb
    · exact (h.apart t' t hne).2 a hp (hapart rfl)
    · exact hC t' (hapart rfl) hp
    · exact hna hok.1
    all_goals
      exact h.distinct t t' a hne.symm hfree (by rw [hp, Phase.freeing])
  rw [libAt_free_of_ne hab]
  exact h.live t' b hb

theorem guarded_step (h : s.Guarded hasGroup) (hC : Careful s c)
    (hst : s.Step L hasGroup c s') : s'.Guarded hasGroup := by
  cases hst with
  | load lib _ => exact guarded_load h _
  | add ht => exact guarded_add h ht
  | symbol ht hcell => exact guarded_symbol h ht hcell
  | drop ht hdrop => exact guarded_drop h ht hdrop (hC.1 _ ht) (hC.2 _ ht)
  | unload lib _ hg =>
    refine h.goto (intact_step h.toIntact (c := .unload _ lib) trivial (.unload lib ‹_› hg))
      (by simp [Phase.node]) (fun t' b _ => h.live t' b) (fun _ _ => hC)
      (fun t' handle _ => h.busy t' handle) (by simp [Phase.freeing])
  | removeNone _ hrem => exact guarded_removeNone h hrem
  | removeSome ht hrem => exact guarded_removeSome h ht hrem (hC _ ht)
  | free ht => exact guarded_free h ht fun t' hr => hC _ t' hr

/-! ## Other steps -/

theorem empties_list {heap : Heap TestLib} {listed : List ℕ} {q : Phase} {t' handle : ℕ}
    (hne : t' ≠ t) (ht' : s.threads t' = .unloading handle) :
    (Race.goto ⟨heap, none, s.threads, listed⟩ t q).Faults t' :=
  .inr ⟨handle, by simpa [Race.goto, hne] using ht', rfl⟩

theorem starts_empty {handle : ℕ} (hlibs : s.libs = none) :
    (s.goto t (.unloading handle)).Faults t :=
  .inr ⟨handle, by simp [Race.goto], by rw [Race.goto, hlibs]; rfl⟩

theorem reads_freed {t' : ℕ} (hne : t' ≠ t) (ht' : s.threads t' = .added a) :
    (Race.goto { s with heap := s.heap.free a } t .idle).Faults t' :=
  .inl ⟨a, by simp [Race.goto, hne, ht', Phase.node], Heap.cell_free_self⟩

theorem careful_of_safe (h : s.Guarded hasGroup) (hst : s.Step L hasGroup c s') (hs' : s'.Safe) :
    Careful s c := by
  obtain ⟨l, hc, hl⟩ := h.chain
  cases hst with
  | @drop t a libs ht hdrop =>
    have hhead : s.libs = some a := by
      by_contra hhead
      exact drop_loses h.toIntact ht hdrop hhead hs'.listed
    refine ⟨fun b hb => ?_, fun b hb hlast t' handle ht' => ?_⟩
    · obtain rfl : a = b := by simpa using ht.symm.trans hb
      exact hhead
    · obtain rfl : a = b := by simpa using ht.symm.trans hb
      rw [hhead] at hc
      obtain rfl := (listed_of_libs hc hl hdrop).mpr hlast
      exact hs'.threads t' (empties_list (by rintro rfl; rw [ht] at ht'; cases ht') ht')
  | @unload t lib ht hg =>
    exact fun hnone => hs'.threads t (starts_empty hnone)
  | @removeNone t handle heap libs ht hrem =>
    rintro handle' hh ⟨a, v, hlast, hv, hvh⟩
    obtain rfl : handle = handle' := by simpa using ht.symm.trans hh
    -- the only node would have been found
    have hmem : (a, v) ∈ l := by
      obtain ⟨⟨a', v'⟩, rfl⟩ : ∃ x, l = [x] := by
        rw [← List.length_eq_one_iff]
        simpa using congrArg List.length (hl.symm.trans hlast)
      obtain rfl : a' = a := by simpa using hl.symm.trans hlast
      obtain ⟨q, hq⟩ := hc.cell_of_mem List.mem_cons_self
      obtain rfl : v' = v := by simpa [libAt, hq] using hv
      exact List.mem_cons_self
    rcases removeLib_spec hc (List.ne_nil_of_mem hmem) handle with
      ⟨h1, -⟩ | ⟨_, _, _, _, _, _, -, -, -, h1, -⟩
    · exact absurd hvh (h1 _ hmem)
    · simp [h1] at hrem
  | @removeSome t handle a heap libs ht hrem =>
    rintro handle' hh honly t' h' hne ht'
    obtain rfl : handle = handle' := by simpa using ht.symm.trans hh
    obtain rfl := (listed_of_remove hc hl hrem).2.1.mpr honly
    exact hs'.threads t' (empties_list hne ht')
  | @free t a ht =>
    rintro b t' hb ht'
    obtain rfl : a = b := by
      rcases ht with ht | ht <;> simpa using ht.symm.trans hb
    exact hs'.threads t' (reads_freed (by rintro rfl; rw [hb] at ht'; cases ht') ht')
  | _ => trivial

/-! ## Runs -/

/-- **No thread follows a null pointer or a pointer to a freed node, and the list is always right
and printed as it is, exactly in the runs that are careful at each step.** -/
theorem safe_iff {tr : List (Race × RaceStep)} (h : (race L hasGroup).Run tr s) :
    ((∀ p ∈ tr, p.1.Safe) ∧ s.Safe) ↔ ∀ p ∈ tr, Careful p.1 p.2 := by
  refine h.exact (J := Race.Guarded hasGroup) ?_ (fun s hs => hs.safe)
    (fun s c s' hs hC hst => guarded_step hs hC hst)
    fun s c s' hs hst hs' => careful_of_safe hs hst hs'
  rintro s rfl
  exact guarded_start

/-- `y` is loaded, and unloaded by another thread. -/
theorem safe_y : ∃ tr s, (race xApart (· = 2)).Run tr s ∧ s.threads 1 = .idle ∧
    s.listed = [] ∧ s.Safe := by
  have h0 : (race xApart (· = 2)).Run [] .start := .start rfl
  have hload := ((h0.snoc (.load (t := 2) ['y'] rfl)).snoc (.add (t := 2) rfl)).snoc
    (.symbol (t := 2) rfl rfl)
  have hunload := ((hload.snoc (.unload (t := 1) ['y'] rfl rfl)).snoc
    (.removeSome (t := 1) rfl rfl)).snoc (.free (t := 1) (.inr rfl))
  refine ⟨_, _, hunload, rfl, rfl, ((safe_iff hunload).mpr fun p hp => ?_).2⟩
  simp only [List.mem_append, List.mem_singleton, List.not_mem_nil, false_or, or_assoc] at hp
  rcases hp with rfl | rfl | rfl | rfl | rfl | rfl
  · trivial
  · trivial
  · trivial
  · exact Option.some_ne_none _
  · rintro handle - - t' h' hne ht'
    by_cases h2 : t' = 2
    · subst h2
      cases ht'
    · simp [Race.goto, hne, h2, Race.start] at ht'
  · rintro a t' - ht'
    by_cases h1 : t' = 1
    · subst h1
      cases ht'
    by_cases h2 : t' = 2
    · subst h2
      cases ht'
    · simp [Race.goto, h1, h2, Race.start] at ht'

end Dib
