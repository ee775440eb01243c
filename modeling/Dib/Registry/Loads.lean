import Dib.Registry.Unloads

/-!
# The libraries as a record of loads

* `recordCall`, `openLoads`: the loads that no unload has undone, the last one first;
* `listLibs`: what `list_libs` prints;
* `LoaderAnswers`, `UnloadsFirst`: what the dynamic loader does; an unload takes the first node of
  its library out and frees it;
* `nodes_step`, `listLibs_eq`, `unloadsFirst_of_found`: one call;
* **`libs_record`**: runs of loads, and of unloads of libraries that have a node.
-/

set_option autoImplicit false

namespace Dib

open Linked Lts

/-! ## The record -/

/-- A load that finds its symbol is recorded, and an unload undoes the last load of its library. -/
def recordCall (L : Loader) (loads : List (List Char)) : LibCall → List (List Char)
  | .load lib o => if o.calloc && o.dlopen && o.dlsym then lib :: loads else loads
  | .unload lib o => if o.ok then loads.eraseP fun l => L.handle l = L.handle lib else loads

/-- The loads not yet undone, by the names they were given. -/
def openLoads (L : Loader) (tr : List (LibState × LibCall)) : List (List Char) :=
  tr.foldl (fun loads p => recordCall L loads p.2) []

/-- An unload is of a library that has a node. -/
def OfNode (L : Loader) (s : LibState) : LibCall → Prop
  | .load _ _ => True
  | .unload lib _ => s.Loaded (L.handle lib)

/-! ## What is printed -/

/-- The `while` loop of `list_libs`; it visits each cell at most once. -/
def listLoop (heap : Heap TestLib) : ℕ → Option ℕ → Option (List (List Char))
  | _, none => some []
  | 0, some _ => none
  | n + 1, some curr_llib =>
    match heap.cell curr_llib with
    | none => none
    | some c => (listLoop heap n c.next).map (c.val.lib_name :: ·)

/-- The lines that `list_libs` prints. -/
def listLibs (s : LibState) : Option (List (List Char)) :=
  (listLoop s.heap s.heap.length s.libs).map ("Currently loaded libraries:".toList :: ·)

/-! ## Unloads -/

/-- What the dynamic loader answers about a library that has a node: it is found with
`RTLD_NOLOAD` when it is mapped, and `lib_group`, which its load has found, is there. -/
structure LoaderAnswers (L : Loader) (s : LibState) (lib : List Char) (o : UnloadAnswers) :
    Prop where
  dlopen : o.dlopen = true ↔ Mapped L s (L.handle lib)
  dlsym : o.dlsym = true

/-- `unload_lib` removes the first node and returns `TB_OK`, or it gets no memory, returns
`TB_ERROR` and leaves the list as it is. -/
def UnloadsFirst (L : Loader) (lib : List Char) (o : UnloadAnswers) (s : LibState) : Prop :=
  ∃ s' e, unloadLib L lib o s = some (s', e) ∧
    if o.calloc then e = .removed ∧ RemovesFirst (L.handle lib) s s'
    else e = .refused ∧ s'.heap = s.heap ∧ s'.libs = s.libs

variable {L : Loader} {s s' : LibState} {c : LibCall} {lib : List Char} {o : UnloadAnswers}
  {tr : List (LibState × LibCall)}

/-! ## One call -/

/-- **A call** changes the nodes as it changes the record. -/
theorem nodes_step {loads : List (List Char)} (hs : s.WF) (hst : s.Step L c s')
    (hn : s.nodes = loads.map L.node) : s'.nodes = (recordCall L loads c).map L.node := by
  cases hst with
  | @load _ lib o imported hl =>
    obtain ⟨s₁, h1, -, h2, -⟩ := loadLib_spec (L := L) hs lib o
    obtain ⟨rfl, -⟩ := Prod.mk.inj (Option.some.inj (h1.symm.trans hl))
    rw [h2, recordCall, hn]
    split <;> rfl
  | @unload _ lib o e _ hu =>
    obtain ⟨-, -, h1⟩ := nodes_unloadLib hs hu
    rw [h1, recordCall, hn]
    split
    · rw [List.eraseP_map]
      rfl
    · rfl

theorem listLoop_eq {heap : Heap TestLib} {p : Option ℕ} {l : List (ℕ × TestLib)}
    (hc : Chain heap p l) {n : ℕ} (hn : l.length ≤ n) :
    listLoop heap n p = some (l.map (·.2.lib_name)) := by
  induction hc generalizing n with
  | nil => cases n <;> rfl
  | cons h1 _ ih =>
    cases n with
    | zero => simp at hn
    | succ n => simp [listLoop, h1, ih (Nat.le_of_succ_le_succ hn)]

/-- **`list_libs`** prints the names of the nodes in order. -/
theorem listLibs_eq (hs : s.WF) :
    listLibs s = some ("Currently loaded libraries:".toList :: s.nodes.map (·.lib_name)) := by
  obtain ⟨l, hc⟩ := hs
  rw [listLibs, listLoop_eq hc hc.length_le, nodes_eq hc, List.map_map]
  rfl

/-- **An unload** of a library that has a node, and is therefore mapped. -/
theorem unloadsFirst_of_found (hs : s.WF) (hl : s.Loaded (L.handle lib)) (hd : o.dlopen = true)
    (hsym : o.dlsym = true) : UnloadsFirst L lib o s := by
  have hok : o.ok = o.calloc := by rw [UnloadAnswers.ok, hd, hsym, Bool.and_true, Bool.and_true]
  cases h : o.calloc with
  | false =>
    obtain ⟨s', h1, h2, h3, -⟩ := unloadLib_refused L lib s (fun _ => 0) (hok.trans h)
    exact ⟨s', _, h1, by simp [h, h2, h3]⟩
  | true =>
    obtain ⟨s', h1, h2⟩ := unloadLib_loaded hs (hok.trans h) hl
    exact ⟨s', _, h1, by simp [h, h2]⟩

theorem mapped_of_loaded (hr : (libCalls L).Run tr s) (hC : ∀ p ∈ tr, OfNode L p.1 p.2) {h : ℕ}
    (hl : s.Loaded h) : Mapped L s h := by
  have hb : s.Balanced := balanced_iff_excess.mpr fun h' => by
    refine (hr.defect_eq_zero_iff (isAbsentUnloadOf L h') (I := LibState.WF)
      (by rintro _ rfl; exact wf_start) (fun _ _ _ hs hst => wf_step hs hst)
      (by rintro _ rfl; rfl) fun _ _ _ hs hst => excess_step hs hst h').mpr fun p hp => ?_
    obtain ⟨s₁, _ | ⟨lib, o⟩⟩ := p
    · rfl
    · obtain ⟨v, hv, hvh⟩ := hC _ hp
      have hall : (s₁.nodes.all fun v => v.lib_handle ≠ L.handle lib) = false := by
        rw [List.all_eq_false]
        exact ⟨v, hv, by simpa using hvh⟩
      simp only [isAbsentUnloadOf, isAbsentUnload, hall, Bool.and_false]
  obtain ⟨v, hv, hvh⟩ := hl
  have hpos : 0 < s.nodes.countP (·.lib_handle = h) := List.countP_pos_iff.mpr ⟨v, hv, by simpa⟩
  refine .held ?_
  rw [← hb h]
  exact_mod_cast hpos

/-! ## Runs -/

theorem openLoads_concat (p : LibState × LibCall) :
    openLoads L (tr ++ [p]) = recordCall L (openLoads L tr) p.2 := by
  rw [openLoads, List.foldl_append]
  rfl

theorem wf_and_nodes_of_run (hr : (libCalls L).Run tr s) :
    s.WF ∧ s.nodes = (openLoads L tr).map L.node := by
  induction hr with
  | start h0 =>
    obtain rfl : _ = LibState.start := h0
    exact ⟨wf_start, rfl⟩
  | snoc _ hst ih =>
    rw [openLoads_concat]
    exact ⟨wf_step ih.1 hst, nodes_step ih.1 hst ih.2⟩

/-- **In every run of loads, and of unloads of libraries that have a node**, `libs` holds the loads
not yet undone, the last one first, `list_libs` prints them, and an unload removes the first node of
its library. -/
theorem libs_record (hr : (libCalls L).Run tr s) (hC : ∀ p ∈ tr, OfNode L p.1 p.2) :
    s.nodes = (openLoads L tr).map L.node ∧
      listLibs s = some ("Currently loaded libraries:".toList ::
        (openLoads L tr).map fun lib => lib.take (L.TB_MAX_PATH_LEN - 1)) ∧
      ∀ lib o, s.Loaded (L.handle lib) → LoaderAnswers L s lib o → UnloadsFirst L lib o s := by
  obtain ⟨hwf, hn⟩ := wf_and_nodes_of_run hr
  refine ⟨hn, ?_, fun lib o hl ho => unloadsFirst_of_found hwf hl ?_ ho.dlsym⟩
  · rw [listLibs_eq hwf, hn, List.map_map]
    rfl
  · exact ho.dlopen.mpr (mapped_of_loaded hr hC hl)

/-- `x` loaded twice, with `y` in between: an unload of `x` undoes the last load, and the next one
the first. -/
theorem libs_record_xyx : ∃ tr s, (libCalls xNeedsY).Run tr s ∧
    s.nodes.map (·.lib_name) = [['y'], ['x']] ∧
    listLibs s = some ["Currently loaded libraries:".toList, ['y'], ['x']] ∧
    UnloadsFirst xNeedsY ['x'] ⟨true, true, true⟩ s := by
  have h2 := xLoaded_run.snoc
    (show xLoaded.Step xNeedsY (.load ['y'] ⟨true, true, true⟩) _ from .load rfl)
  have h3 := h2.snoc
    (show LibState.Step xNeedsY _ (.load ['x'] ⟨true, true, true⟩) _ from .load rfl)
  have h4 := h3.snoc (show LibState.Step xNeedsY _ (.unload ['x'] ⟨true, true, true⟩) _ from
    .unload (iff_of_true rfl (.held (by decide))) rfl)
  obtain ⟨hnodes, hlist, hunload⟩ := libs_record h4 fun p hp => by
    simp only [List.mem_append, List.mem_singleton, or_assoc] at hp
    rcases hp with rfl | rfl | rfl | rfl
    · trivial
    · trivial
    · trivial
    · exact ⟨⟨['x'], 1⟩, by decide, rfl⟩
  refine ⟨_, _, h4, ?_, hlist.trans rfl, hunload ['x'] ⟨true, true, true⟩ ?_ ⟨?_, rfl⟩⟩
  · rw [hnodes]
    rfl
  · exact ⟨⟨['x'], 1⟩, by decide, rfl⟩
  · exact iff_of_true rfl (.held (by decide))

/-- A file name that does not fit into `lib_name`. -/
def longName : List Char := List.replicate 300 'y'

theorem longName_cut : longName.take 255 ≠ longName := by
  intro h
  have hlen := congrArg List.length h
  rw [List.length_take, longName, List.length_replicate] at hlen
  omega

/-- A library with a long name is not listed under it; and an unload that gets no memory leaves its
library in the list. -/
theorem record_not_kept :
    (∃ tr s, (libCalls xNeedsY).Run tr s ∧ (∀ p ∈ tr, OfNode xNeedsY p.1 p.2) ∧
      openLoads xNeedsY tr = [longName] ∧ s.nodes.map (·.lib_name) ≠ [longName]) ∧
    ∃ tr s s', (libCalls xNeedsY).Run tr s ∧ OfNode xNeedsY s (.unload ['x'] ⟨false, true, true⟩) ∧
      LoaderAnswers xNeedsY s ['x'] ⟨false, true, true⟩ ∧
      unloadLib xNeedsY ['x'] ⟨false, true, true⟩ s = some (s', .refused) ∧
      s'.nodes = s.nodes := by
  constructor
  · have h0 : (libCalls xNeedsY).Run [] .start := .start rfl
    have hst : LibState.start.Step xNeedsY (.load longName ⟨true, true, true⟩) _ := .load rfl
    have h1 := h0.snoc hst
    refine ⟨_, _, h1, ?_, rfl, ?_⟩
    · simp only [List.nil_append, List.mem_singleton, forall_eq]
      trivial
    · rw [(wf_and_nodes_of_run h1).2]
      exact fun h => longName_cut (List.cons.inj h).1
  · exact ⟨_, xLoaded, xLoaded, xLoaded_run, ⟨⟨['x'], 1⟩, by decide, rfl⟩,
      ⟨iff_of_true rfl xLoaded_mapped, rfl⟩, rfl, rfl⟩

end Dib
