import Dib.Lib.Run
import Dib.Libs.Model

/-!
# The list under concurrent loads and unloads

Any number of threads run `load_testcase_from_lib` and `unload_lib`, one section under the lock at a
time. A load adds its node in one section and, when its library has no `lib_group`, drops it in
another.

* `Phase`, `Race`, `Race.Step`, `race`: where each thread is, and the interleaved runs; `listed` is
  what should be in the list;
* `Race.Listed`: the nodes reached from `libs` are those;
* `Race.Intact`, `intact_step`, `drop_loses`: what the steps keep, unless a load drops its node when
  another one has been put in front of it;
* **`listed_iff`**: the list is right all along a run exactly when every node that is dropped is
  dropped from the front.
-/

set_option autoImplicit false

namespace Dib

open Linked Lts

/-- Where a thread is. -/
inductive Phase where
  | idle
  /-- In `load_testcase_from_lib`, the library open. -/
  | opened (curr_lib : ℕ)
  /-- The node is added. -/
  | added (curr_lib : ℕ)
  /-- `lib_group` was not found. -/
  | failed (curr_lib : ℕ)
  /-- The node is dropped, not yet freed. -/
  | dropped (curr_lib : ℕ)
  /-- In `unload_lib`, the registries done. -/
  | unloading (handle : ℕ)
  /-- A node is removed, not yet freed. -/
  | removed (node : ℕ)
  deriving DecidableEq, Repr

/-- The shared list, the threads, and the nodes added and neither dropped nor removed since. -/
structure Race where
  heap : Heap TestLib
  libs : Option ℕ
  threads : ℕ → Phase
  listed : List ℕ

inductive RaceStep where
  | load (t : ℕ) (lib : List Char)
  | add (t : ℕ)
  | symbol (t : ℕ)
  | drop (t : ℕ)
  | unload (t : ℕ) (lib : List Char)
  | remove (t : ℕ)
  | free (t : ℕ)
  deriving DecidableEq, Repr

/-- The thread `t` goes on to `q`. -/
def Race.goto (s : Race) (t : ℕ) (q : Phase) : Race :=
  { s with threads := Function.update s.threads t q }

/-- The steps of loads and unloads that get their handle; `hasGroup` tells which libraries have the
symbol. A freed node is not read. -/
inductive Race.Step (L : Loader) (hasGroup : ℕ → Bool) : Race → RaceStep → Race → Prop
  | load {s : Race} {t : ℕ} (lib : List Char) : s.threads t = .idle →
      Step L hasGroup s (.load t lib)
        (Race.goto { s with heap := s.heap ++ [some ⟨L.node lib, none⟩] } t
          (.opened s.heap.length))
  | add {s : Race} {t a : ℕ} : s.threads t = .opened a →
      Step L hasGroup s (.add t)
        (Race.goto { s with
          heap := (addLib s.heap s.libs a).1
          libs := (addLib s.heap s.libs a).2
          listed := a :: s.listed } t (.added a))
  | symbol {s : Race} {t a : ℕ} {c : Cell TestLib} : s.threads t = .added a →
      s.heap.cell a = some c → Step L hasGroup s (.symbol t)
        (s.goto t (if hasGroup c.val.lib_handle then .idle else .failed a))
  | drop {s : Race} {t a : ℕ} {libs : Option ℕ} : s.threads t = .failed a →
      dropLib s.heap a = some libs → Step L hasGroup s (.drop t)
        (Race.goto { s with libs := libs, listed := s.listed.erase a } t (.dropped a))
  | unload {s : Race} {t : ℕ} (lib : List Char) : s.threads t = .idle →
      hasGroup (L.handle lib) = true →
      Step L hasGroup s (.unload t lib) (s.goto t (.unloading (L.handle lib)))
  | removeNone {s : Race} {t handle : ℕ} {heap : Heap TestLib} {libs : Option ℕ} :
      s.threads t = .unloading handle → removeLib s.heap s.libs handle = some (heap, libs, none) →
      Step L hasGroup s (.remove t) (Race.goto { s with heap := heap, libs := libs } t .idle)
  | removeSome {s : Race} {t handle a : ℕ} {heap : Heap TestLib} {libs : Option ℕ} :
      s.threads t = .unloading handle → removeLib s.heap s.libs handle = some (heap, libs, some a) →
      Step L hasGroup s (.remove t)
        (Race.goto { s with heap := heap, libs := libs, listed := s.listed.erase a } t (.removed a))
  | free {s : Race} {t a : ℕ} : s.threads t = .dropped a ∨ s.threads t = .removed a →
      Step L hasGroup s (.free t) (Race.goto { s with heap := s.heap.free a } t .idle)

def Race.start : Race := ⟨[], none, fun _ => .idle, []⟩

/-- The runs of all threads. -/
def race (L : Loader) (hasGroup : ℕ → Bool) : Lts Race RaceStep :=
  ⟨fun s => s = .start, Race.Step L hasGroup⟩

/-- The nodes reached from `libs` are the ones that should be in the list. -/
def Race.Listed (s : Race) : Prop :=
  ∀ a, a ∈ (s.heap.walk s.heap.length s.libs).map Prod.fst ↔ a ∈ s.listed

/-- If the step drops a node, that node is at the front. -/
def DropsHead (s : Race) : RaceStep → Prop
  | .drop t => ∀ a, s.threads t = .failed a → s.libs = some a
  | _ => True

/-! ## The invariant -/

/-- The library of the node at `a`. -/
def libAt (heap : Heap TestLib) (a : ℕ) : Option TestLib := (heap.cell a).map (·.val)

/-- What holds of the node a thread works on. -/
def PhaseOk (hasGroup : ℕ → Bool) (heap : Heap TestLib) (listed : List ℕ) : Phase → Prop
  | .idle => True
  | .opened a => a ∉ listed ∧ ∃ v, libAt heap a = some v
  | .added a => a < heap.length ∧
      ∀ v, libAt heap a = some v → hasGroup v.lib_handle = false → a ∈ listed
  | .failed a => a ∈ listed ∧ ∃ v, libAt heap a = some v ∧ hasGroup v.lib_handle = false
  | .dropped a => a < heap.length ∧ a ∉ listed
  | .unloading handle => hasGroup handle = true
  | .removed a => a < heap.length ∧ a ∉ listed

/-- The node of a load. -/
def Phase.own : Phase → Option ℕ
  | .opened a | .added a | .failed a | .dropped a => some a
  | _ => none

/-- Two loads have different nodes, and a node that was not yet added is not being freed. -/
def Apart (p q : Phase) : Prop :=
  (∀ a, p.own = some a → q.own ≠ some a) ∧ ∀ a, p = .opened a → q ≠ .removed a

/-- As long as nodes are dropped from the front. -/
structure Race.Intact (hasGroup : ℕ → Bool) (s : Race) : Prop where
  chain : ∃ l, Chain s.heap s.libs l ∧ s.listed = l.map Prod.fst
  ok : ∀ t, PhaseOk hasGroup s.heap s.listed (s.threads t)
  apart : ∀ t t', t ≠ t' → Apart (s.threads t) (s.threads t')

variable {L : Loader} {hasGroup : ℕ → Bool} {s s' : Race} {c : RaceStep}

theorem Race.Intact.listed (h : s.Intact hasGroup) : s.Listed := by
  obtain ⟨l, hc, hl⟩ := h.chain
  intro a
  rw [hc.walk_eq, hl]

theorem intact_start : Race.start.Intact hasGroup :=
  ⟨⟨[], .nil, rfl⟩, fun _ => trivial, fun _ _ _ => ⟨by simp [Race.start, Phase.own],
    by simp [Race.start]⟩⟩

theorem Race.Intact.goto (h : s.Intact hasGroup) {heap : Heap TestLib} {libs : Option ℕ}
    {listed : List ℕ} {t : ℕ} {q : Phase}
    (hchain : ∃ l, Chain heap libs l ∧ listed = l.map Prod.fst)
    (hq : PhaseOk hasGroup heap listed q)
    (hok : ∀ t', t' ≠ t → PhaseOk hasGroup heap listed (s.threads t'))
    (happ : ∀ t', t' ≠ t → Apart q (s.threads t') ∧ Apart (s.threads t') q) :
    Race.Intact hasGroup (Race.goto ⟨heap, libs, s.threads, listed⟩ t q) := by
  refine ⟨hchain, fun t' => ?_, fun t₁ t₂ hne => ?_⟩
  · by_cases ht : t' = t
    · subst ht
      simpa [Race.goto] using hq
    · simpa [Race.goto, ht] using hok t' ht
  · by_cases h1 : t₁ = t
    · subst h1
      simpa [Race.goto, hne.symm] using (happ t₂ hne.symm).1
    · by_cases h2 : t₂ = t
      · subst h2
        simpa [Race.goto, h1] using (happ t₁ h1).2
      · simpa [Race.goto, h1, h2] using h.apart t₁ t₂ hne

theorem PhaseOk.frame {heap heap' : Heap TestLib} {listed listed' : List ℕ} {p : Phase}
    (h : PhaseOk hasGroup heap listed p) (hlen : heap.length ≤ heap'.length)
    (h1 : ∀ b, p = .opened b ∨ p = .failed b → libAt heap' b = libAt heap b)
    (h2 : ∀ b v, p = .added b → libAt heap' b = some v → hasGroup v.lib_handle = false →
      libAt heap b = some v ∧ (b ∈ listed → b ∈ listed'))
    (h3 : ∀ b, p = .opened b ∨ p = .failed b ∨ p = .dropped b ∨ p = .removed b →
      (b ∈ listed' ↔ b ∈ listed)) : PhaseOk hasGroup heap' listed' p := by
  cases p with
  | idle => trivial
  | unloading => exact h
  | opened b => exact ⟨by rw [h3 b (by simp)]; exact h.1, by rw [h1 b (by simp)]; exact h.2⟩
  | failed b => exact ⟨by rw [h3 b (by simp)]; exact h.1, by rw [h1 b (by simp)]; exact h.2⟩
  | dropped b => exact ⟨h.1.trans_le hlen, by rw [h3 b (by simp)]; exact h.2⟩
  | removed b => exact ⟨h.1.trans_le hlen, by rw [h3 b (by simp)]; exact h.2⟩
  | added b =>
    refine ⟨h.1.trans_le hlen, fun v hv hg => ?_⟩
    obtain ⟨h4, h5⟩ := h2 b v rfl hv hg
    exact h5 (h.2 v h4 hg)

theorem libAt_append {heap : Heap TestLib} {a : ℕ} (ha : a < heap.length)
    (o : Option (Cell TestLib)) : libAt (heap ++ [o]) a = libAt heap a := by
  rw [libAt, Heap.cell, List.getElem?_append_left ha, libAt, Heap.cell]

theorem libAt_setNext (heap : Heap TestLib) (a b : ℕ) (p : Option ℕ) :
    libAt (heap.setNext a p) b = libAt heap b := Heap.val_setNext

theorem libAt_free_of_ne {heap : Heap TestLib} {a b : ℕ} (hab : a ≠ b) :
    libAt (heap.free a) b = libAt heap b := by
  rw [libAt, Heap.cell_free_of_ne hab, libAt]

theorem lt_length_of_libAt {heap : Heap TestLib} {a : ℕ} {v : TestLib}
    (h : libAt heap a = some v) : a < heap.length := by
  obtain ⟨c, hc, -⟩ := Option.map_eq_some_iff.mp h
  exact Heap.lt_length_of_cell hc

theorem PhaseOk.lt_length {heap : Heap TestLib} {listed : List ℕ} {p : Phase} {a : ℕ}
    (h : PhaseOk hasGroup heap listed p) (ha : p.own = some a ∨ p = .removed a) :
    a < heap.length := by
  cases p <;> simp only [Phase.own, Option.some.injEq, reduceCtorEq, Phase.removed.injEq, or_false,
    false_or] at ha <;> subst ha
  · obtain ⟨-, v, hv⟩ := h
    exact lt_length_of_libAt hv
  · exact h.1
  · obtain ⟨-, v, hv, -⟩ := h
    exact lt_length_of_libAt hv
  · exact h.1
  · exact h.1

/-! ## The steps -/

variable {t a : ℕ}

theorem intact_load (h : s.Intact hasGroup) (v : TestLib) :
    Race.Intact hasGroup (Race.goto { s with heap := s.heap ++ [some ⟨v, none⟩] } t
      (.opened s.heap.length)) := by
  obtain ⟨l, hc, hl⟩ := h.chain
  refine h.goto ⟨l, hc.append _, hl⟩ ⟨?_, v, by simp [libAt]⟩ (fun t' _ => ?_) fun t' _ => ?_
  · rw [hl]
    exact fun hm => Nat.lt_irrefl _ (hc.lt_length hm)
  · refine (h.ok t').frame (by simp) (fun b hb => ?_) (fun b w hb hw _ => ?_) fun b _ => Iff.rfl
    · have hlt := (h.ok t').lt_length (a := b) (by rcases hb with hb | hb <;> simp [hb, Phase.own])
      exact libAt_append hlt _
    · have hlt := (h.ok t').lt_length (a := b) (by simp [hb, Phase.own])
      rw [libAt_append hlt] at hw
      exact ⟨hw, id⟩
  · have hown : (s.threads t').own ≠ some s.heap.length := fun ho =>
      Nat.lt_irrefl _ ((h.ok t').lt_length (.inl ho))
    have hrem : s.threads t' ≠ .removed s.heap.length := fun ho =>
      Nat.lt_irrefl _ ((h.ok t').lt_length (.inr ho))
    refine ⟨⟨?_, ?_⟩, fun b hb => ?_, by simp⟩
    · rintro _ ⟨⟩
      exact hown
    · rintro _ ⟨⟩
      exact hrem
    · rintro ⟨⟩
      exact hown hb

theorem Race.Intact.ne_of_own (h : s.Intact hasGroup) (ha : (s.threads t).own = some a) {t' b : ℕ}
    (ht : t' ≠ t) (hb : (s.threads t').own = some b) : b ≠ a := by
  rintro rfl
  exact (h.apart t' t ht).1 b hb ha

theorem Race.Intact.ne_of_phase (h : s.Intact hasGroup) (ha : (s.threads t).own = some a)
    {t' b : ℕ} (ht : t' ≠ t) (hrem : s.threads t' = .removed b → b ≠ a)
    (hb : s.threads t' = .opened b ∨ s.threads t' = .failed b ∨ s.threads t' = .dropped b ∨
      s.threads t' = .removed b) : b ≠ a := by
  rcases hb with hb | hb | hb | hb
  · exact h.ne_of_own ha ht (by rw [hb, Phase.own])
  · exact h.ne_of_own ha ht (by rw [hb, Phase.own])
  · exact h.ne_of_own ha ht (by rw [hb, Phase.own])
  · exact hrem hb

theorem Race.Intact.apart_goto (h : s.Intact hasGroup) {q : Phase}
    (hq : q.own = none ∨ q.own = (s.threads t).own) (h1 : ∀ b, q ≠ .opened b)
    (h2 : ∀ b, q ≠ .removed b) (t' : ℕ) (ht : t' ≠ t) :
    Apart q (s.threads t') ∧ Apart (s.threads t') q := by
  have hne : ∀ b, q.own = some b → (s.threads t').own ≠ some b := by
    intro b hb hb'
    rcases hq with hq | hq
    · rw [hq] at hb
      cases hb
    · exact h.ne_of_own (hq ▸ hb) ht hb' rfl
  exact ⟨⟨hne, fun b hb => absurd hb (h1 b)⟩, fun b hb hb' => hne b hb' hb, fun b _ => h2 b⟩

theorem intact_add (h : s.Intact hasGroup) (ht : s.threads t = .opened a) :
    Race.Intact hasGroup (Race.goto { s with
      heap := (addLib s.heap s.libs a).1
      libs := (addLib s.heap s.libs a).2
      listed := a :: s.listed } t (.added a)) := by
  obtain ⟨l, hc, hl⟩ := h.chain
  have hown : (s.threads t).own = some a := by rw [ht, Phase.own]
  obtain ⟨hna, v, hv⟩ : PhaseOk hasGroup s.heap s.listed (.opened a) := ht ▸ h.ok t
  obtain ⟨c, hcell, rfl⟩ := Option.map_eq_some_iff.mp hv
  refine h.goto ⟨_, hc.push hcell (by rwa [← hl]), by simp [hl]⟩ ⟨?_, fun _ _ _ => by simp⟩
    (fun t' ht' => ?_) (h.apart_goto (.inr hown.symm) (by simp) (by simp))
  · simpa [addLib] using Heap.lt_length_of_cell hcell
  · refine (h.ok t').frame (by simp [addLib]) (fun b _ => libAt_setNext _ _ _ _)
      (fun b w _ hw _ => ⟨(libAt_setNext _ _ _ _).symm.trans hw, List.mem_cons_of_mem a⟩)
      fun b hb => ?_
    have hne : b ≠ a := by
      refine h.ne_of_phase hown ht' (fun hrem => ?_) hb
      rintro rfl
      exact (h.apart t t' ht'.symm).2 b ht hrem
    simp [hne]

theorem intact_symbol (h : s.Intact hasGroup) {c : Cell TestLib} (ht : s.threads t = .added a)
    (hcell : s.heap.cell a = some c) :
    (s.goto t (if hasGroup c.val.lib_handle then .idle else .failed a)).Intact hasGroup := by
  have hv : libAt s.heap a = some c.val := by rw [libAt, hcell, Option.map_some]
  split
  · exact h.goto h.chain trivial (fun t' _ => h.ok t') (h.apart_goto (.inl rfl) (by simp) (by simp))
  · next hg =>
    obtain ⟨-, ha⟩ : PhaseOk hasGroup s.heap s.listed (.added a) := ht ▸ h.ok t
    have hg' : hasGroup c.val.lib_handle = false := by simpa using hg
    exact h.goto h.chain ⟨ha _ hv hg', c.val, hv, hg'⟩ (fun t' _ => h.ok t')
      (h.apart_goto (.inr (by simp [ht, Phase.own])) (by simp) (by simp))

/-- **A node dropped from the front** is the one that leaves the list. -/
theorem intact_drop (h : s.Intact hasGroup) {libs : Option ℕ} (ht : s.threads t = .failed a)
    (hdrop : dropLib s.heap a = some libs) (hhead : s.libs = some a) :
    Race.Intact hasGroup
      (Race.goto { s with libs := libs, listed := s.listed.erase a } t (.dropped a)) := by
  obtain ⟨l, hc, hl⟩ := h.chain
  have hnd := hc.nodup
  rw [hhead] at hc
  obtain ⟨c, l, hcell, rfl, hc'⟩ := hc.eq_cons
  have hlibs : c.next = libs := by simpa [dropLib, hcell] using hdrop
  have hown : (s.threads t).own = some a := by rw [ht, Phase.own]
  have herase : s.listed.erase a = l.map Prod.fst := by
    rw [hl, List.map_cons, List.erase_cons_head]
  have hna : a ∉ l.map Prod.fst := (List.nodup_cons.mp hnd).1
  refine h.goto ⟨l, hlibs ▸ hc', herase⟩
    ⟨Heap.lt_length_of_cell hcell, by rwa [herase]⟩ (fun t' ht' => ?_)
    (h.apart_goto (.inr hown.symm) (by simp) (by simp))
  refine (h.ok t').frame le_rfl (fun _ _ => rfl) (fun b w hb hw _ => ⟨hw, ?_⟩) fun b hb => ?_
  · exact (List.mem_erase_of_ne (h.ne_of_own hown ht' (by rw [hb, Phase.own]))).mpr
  · refine List.mem_erase_of_ne (h.ne_of_phase hown ht' (fun hrem => ?_) hb)
    obtain ⟨-, hb'⟩ : PhaseOk hasGroup s.heap s.listed (.removed b) := hrem ▸ h.ok t'
    rintro rfl
    exact hb' (by simp [hl])

/-- **A node dropped from behind another one** takes that one out of the list. -/
theorem drop_loses (h : s.Intact hasGroup) {libs : Option ℕ} (ht : s.threads t = .failed a)
    (hdrop : dropLib s.heap a = some libs) (hhead : s.libs ≠ some a) :
    ¬ (Race.goto { s with libs := libs, listed := s.listed.erase a } t (.dropped a)).Listed := by
  intro hlisted
  obtain ⟨l, hc, hl⟩ := h.chain
  have hnd := hc.nodup
  obtain ⟨ha, -⟩ : PhaseOk hasGroup s.heap s.listed (.failed a) := ht ▸ h.ok t
  rw [hl] at ha
  obtain ⟨⟨a, v⟩, hm, rfl⟩ := List.mem_map.mp ha
  obtain ⟨l₁, l₂, rfl⟩ := List.append_of_mem hm
  obtain ⟨q, hcell, hc₂⟩ := hc.of_append
  obtain rfl : q = libs := by simpa [dropLib, hcell] using hdrop
  cases l₁ with
  | nil =>
    obtain ⟨p, hp⟩ : ∃ p, s.libs = p := ⟨_, rfl⟩
    rw [hp] at hc hhead
    cases hc
    exact hhead rfl
  | cons x l₁ =>
    -- the node in front is still to be listed, but no longer reached
    have h1 := (hlisted x.1).mpr ((List.mem_erase_of_ne (by rintro hx; simp [hx] at hnd)).mpr
      (by simp [hl]))
    have h2 : x.1 ∈ l₂.map Prod.fst := by simpa [Race.goto, hc₂.walk_eq] using h1
    simp only [List.cons_append, List.map_cons, List.nodup_cons, List.map_append,
      List.mem_append, List.mem_cons] at hnd
    exact hnd.1 (.inr (.inr h2))

theorem intact_removeNone (h : s.Intact hasGroup) {handle : ℕ} {heap : Heap TestLib}
    {libs : Option ℕ} (hrem : removeLib s.heap s.libs handle = some (heap, libs, none)) :
    (Race.goto { s with heap := heap, libs := libs } t .idle).Intact hasGroup := by
  obtain ⟨l, hc, hl⟩ := h.chain
  rcases eq_or_ne l [] with rfl | hne
  · rw [hc.eq_none] at hrem
    cases hrem
  rcases removeLib_spec hc hne handle with ⟨-, h1⟩ | ⟨_, _, _, _, _, _, -, -, -, h1, -⟩
  · obtain ⟨rfl, rfl⟩ : s.heap = heap ∧ s.libs = libs := by simpa [h1] using hrem
    exact h.goto h.chain trivial (fun t' _ => h.ok t') (h.apart_goto (.inl rfl) (by simp) (by simp))
  · simp [h1] at hrem

/-- **A node removed by an unload** has the handle of the unload, so that it is not one that a load
is about to drop. -/
theorem intact_removeSome (h : s.Intact hasGroup) {handle : ℕ} {heap : Heap TestLib}
    {libs : Option ℕ} (ht : s.threads t = .unloading handle)
    (hrem : removeLib s.heap s.libs handle = some (heap, libs, some a)) :
    Race.Intact hasGroup
      (Race.goto { s with heap := heap, libs := libs, listed := s.listed.erase a } t
        (.removed a)) := by
  obtain ⟨l, hc, hl⟩ := h.chain
  have hnd := hc.nodup
  rcases eq_or_ne l [] with rfl | hne
  · rw [hc.eq_none] at hrem
    cases hrem
  rcases removeLib_spec hc hne handle with
    ⟨-, h1⟩ | ⟨l₁, b, w, l₂, heap', libs', rfl, -, hw, h1, hc', hlen, hval⟩
  · simp [h1] at hrem
  obtain ⟨rfl, rfl, rfl⟩ : heap' = heap ∧ libs' = libs ∧ b = a := by simpa [h1] using hrem
  have hg : hasGroup handle = true := by
    have := h.ok t
    rwa [ht] at this
  obtain ⟨q, hcell, -⟩ := hc.of_append
  have hb : b ∈ s.listed := by simp [hl]
  have hlib : libAt s.heap b = some w := by rw [libAt, hcell, Option.map_some]
  have hkept : ∀ c v, libAt s.heap c = some v → hasGroup v.lib_handle = false → c ≠ b := by
    rintro c v hv hv' rfl
    obtain rfl := Option.some.inj (hlib.symm.trans hv)
    rw [hw, hg] at hv'
    cases hv'
  have hab : b ∉ (l₁ ++ l₂).map Prod.fst := by
    rw [List.map_append, List.map_cons, List.nodup_middle, List.nodup_cons] at hnd
    simpa using hnd.1
  have herase : s.listed.erase b = (l₁ ++ l₂).map Prod.fst := by
    rw [List.map_append, List.mem_append, not_or] at hab
    rw [hl, List.map_append, List.map_cons, List.erase_append_right _ hab.1, List.erase_cons_head,
      List.map_append]
  refine h.goto ⟨_, hc', herase⟩ ⟨(Heap.lt_length_of_cell hcell).trans_eq hlen.symm, ?_⟩
    (fun t' ht' => ?_) fun t' ht' => ⟨⟨by simp [Phase.own], by simp⟩, by simp [Phase.own], ?_⟩
  · rwa [herase]
  · refine (h.ok t').frame hlen.ge (fun c _ => hval c) (fun c v _ hv hv' => ?_) fun c hc => ?_
    · have hv : libAt s.heap c = some v := (hval c).symm.trans hv
      exact ⟨hv, (List.mem_erase_of_ne (hkept c v hv hv')).mpr⟩
    · refine List.mem_erase_of_ne ?_
      have hok := h.ok t'
      rcases hc with hc | hc | hc | hc <;> rw [hc] at hok
      · rintro rfl
        exact hok.1 hb
      · obtain ⟨-, v, hv, hv'⟩ := hok
        exact hkept c v hv hv'
      · rintro rfl
        exact hok.2 hb
      · rintro rfl
        exact hok.2 hb
  · rintro c hc ⟨⟩
    have hok := h.ok t'
    rw [hc] at hok
    exact hok.1 hb

theorem intact_free (h : s.Intact hasGroup)
    (ht : s.threads t = .dropped a ∨ s.threads t = .removed a) :
    (Race.goto { s with heap := s.heap.free a } t .idle).Intact hasGroup := by
  obtain ⟨l, hc, hl⟩ := h.chain
  have hna : a ∉ s.listed := by
    have hok := h.ok t
    rcases ht with ht | ht <;> rw [ht] at hok <;> exact hok.2
  have hopened : ∀ t' b, t' ≠ t → s.threads t' = .opened b → b ≠ a := by
    intro t' b ht' hb
    rcases ht with ht | ht
    · exact h.ne_of_own (by rw [ht, Phase.own]) ht' (by rw [hb, Phase.own])
    · rintro rfl
      exact (h.apart t' t ht').2 b hb ht
  have hfree : libAt (s.heap.free a) a = none := by rw [libAt, Heap.cell_free_self, Option.map_none]
  refine h.goto ⟨l, hc.frame fun b hb => Heap.cell_free_of_ne ?_, hl⟩ trivial (fun t' ht' => ?_)
    (h.apart_goto (.inl rfl) (by simp) (by simp))
  · rintro rfl
    exact hna (hl ▸ hb)
  · refine (h.ok t').frame Heap.length_free.ge (fun b hb => libAt_free_of_ne ?_)
      (fun b v _ hv _ => ?_) fun _ _ => Iff.rfl
    · rcases hb with hb | hb
      · exact (hopened t' b ht' hb).symm
      · obtain ⟨hb, -⟩ : PhaseOk hasGroup s.heap s.listed (.failed b) := hb ▸ h.ok t'
        rintro rfl
        exact hna hb
    · have hne : a ≠ b := by
        rintro rfl
        rw [hfree] at hv
        cases hv
      exact ⟨(libAt_free_of_ne hne).symm.trans hv, id⟩

theorem intact_step (h : s.Intact hasGroup) (hC : DropsHead s c) (hst : s.Step L hasGroup c s') :
    s'.Intact hasGroup := by
  cases hst with
  | load lib _ => exact intact_load h _
  | add ht => exact intact_add h ht
  | symbol ht hcell => exact intact_symbol h ht hcell
  | drop ht hdrop => exact intact_drop h ht hdrop (hC _ ht)
  | unload lib _ hg =>
    exact h.goto h.chain hg (fun t' _ => h.ok t') (h.apart_goto (.inl rfl) (by simp) (by simp))
  | removeNone _ hrem => exact intact_removeNone h hrem
  | removeSome ht hrem => exact intact_removeSome h ht hrem
  | free ht => exact intact_free h ht

/-! ## Runs -/

/-- **No loaded library is lost from the list in a run exactly when every load that drops its node
finds it at the front.** -/
theorem listed_iff {tr : List (Race × RaceStep)} (h : (race L hasGroup).Run tr s) :
    ((∀ p ∈ tr, p.1.Listed) ∧ s.Listed) ↔ ∀ p ∈ tr, DropsHead p.1 p.2 := by
  refine h.exact (J := Race.Intact hasGroup) (fun s hs => ?_) (fun s hs => hs.listed)
    (fun s c s' hs hC hst => intact_step hs hC hst) fun s c s' hs hst hP => ?_
  · obtain rfl : s = .start := hs
    exact intact_start
  · cases hst with
    | @drop t a libs ht hdrop =>
      intro b hb
      by_contra hhead
      obtain rfl : a = b := by simpa using ht.symm.trans hb
      exact drop_loses hs ht hdrop hhead hP
    | _ => trivial

/-! ## Two libraries, one of which has no `lib_group` -/

/-- `x` has handle `1`, the others have handle `2`. -/
def xApart : Loader where
  handle lib := if lib = ['x'] then 1 else 2
  needs _ _ := False
  TB_MAX_PATH_LEN := 256

/-- With `y` loaded before, `x` is at the front when it is dropped. -/
theorem listed_y : ∃ tr s, (race xApart (· = 2)).Run tr s ∧ s.listed = [0] ∧ s.Listed := by
  have h0 : (race xApart (· = 2)).Run [] .start := .start rfl
  have hy := ((h0.snoc (.load (t := 2) ['y'] rfl)).snoc (.add (t := 2) rfl)).snoc
    (.symbol (t := 2) rfl rfl)
  have hx := ((hy.snoc (.load (t := 1) ['x'] rfl)).snoc (.add (t := 1) rfl)).snoc
    (.symbol (t := 1) rfl rfl)
  have hdrop := hx.snoc (.drop (t := 1) rfl rfl)
  refine ⟨_, _, hdrop, rfl, ((listed_iff hdrop).mpr fun p hp => ?_).2⟩
  rcases List.mem_append.mp hp with hp | hp
  · simp only [List.mem_append, List.mem_singleton, List.not_mem_nil, false_or] at hp
    rcases hp with ((((rfl | rfl) | rfl) | rfl) | rfl) | rfl <;> trivial
  · obtain rfl := List.mem_singleton.mp hp
    intro a ha
    exact congrArg some (Phase.failed.inj ha)

/-- With `y` loaded between the two sections of `x`, dropping `x` takes `y` out of the list. -/
theorem y_lost : ∃ tr s, (race xApart (· = 2)).Run tr s ∧ s.listed = [1] ∧ s.libs = none ∧
    ¬ s.Listed := by
  have h0 : (race xApart (· = 2)).Run [] .start := .start rfl
  have hx := (h0.snoc (.load (t := 1) ['x'] rfl)).snoc (.add (t := 1) rfl)
  have hy := (hx.snoc (.load (t := 2) ['y'] rfl)).snoc (.add (t := 2) rfl)
  have hdrop := (hy.snoc (.symbol (t := 1) rfl rfl)).snoc (.drop (t := 1) rfl rfl)
  refine ⟨_, _, hdrop, rfl, rfl, fun h => ?_⟩
  have h1 := (h 1).mpr (by decide)
  revert h1
  decide

end Dib
