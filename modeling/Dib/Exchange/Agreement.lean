import Dib.Exchange.Session

/-!
# What clients are told about libraries

A client that loads or unloads a library sees `TESTBOX_OK` or `TESTBOX_ERROR`. Those who note the
answers can tell which libraries are loaded, unless a load fails after it has added its library.

* `noteCall`, `note`: the loads that were answered with `TESTBOX_OK` and not undone by such an
  unload;
* `watched`, `watched_of_session`: sessions with these notes;
* `Agrees`, `RegistersAll`: `list_libs` prints what was noted; a load that finds its library
  registers all of it;
* `told_printed`, `notes_reply`: what a command does to `libs`, and to the notes;
* **`agrees_iff`**: the notes agree with `libs` all along exactly when all loads register all of
  their library.
-/

set_option autoImplicit false

namespace Dib

open Lts

variable {K : Limits}

/-- The notes after a load or an unload that succeeds. -/
def noteCall (L : Loader) (loads : List (List Char)) : DaemonCall → List (List Char)
  | .load lib _ _ => lib :: loads
  | .unload lib _ => loads.eraseP fun l => L.handle l = L.handle lib
  | .groupFile _ => loads

/-- The notes after a client has printed this: its call is noted if the answer is `TESTBOX_OK`. -/
def note (L : Loader) (loads : List (List Char)) (p : Visit K × List Char) : List (List Char) :=
  if "TESTBOX_OK\n".toList <:+ p.2 then p.1.call.elim loads (noteCall L loads) else loads

/-- The system of requests, with the notes. -/
def watched (K : Limits) (H : Host) (s₀ : Daemon) (loads₀ : List (List Char)) :
    Lts (Daemon × List (List Char)) (Visit K × List Char) :=
  (clients K H s₀).watch (note H.loader) loads₀

/-- `list_libs` prints the libraries that were noted. -/
def Agrees (H : Host) (x : Daemon × List (List Char)) : Prop :=
  listLibs x.1.libs = some ("Currently loaded libraries:".toList ::
    x.2.map fun lib => (H.loader.node lib).lib_name)

/-- If the command is a load that finds its library, everything in that is registered. -/
def RegistersAll (H : Host) (s : Daemon) (C : Visit K) : Prop :=
  ∀ lib o info, C.call = some (.load lib o info) → (o.calloc && o.dlopen && o.dlsym) = true →
    (registerLib H.testbox (H.loader.handle lib) (H.groupsOf lib) info s.registry).status = 0

variable {H : Host} {rounds : ℕ} {C : Visit K} {s s' s₀ d : Daemon} {c : DaemonCall} {ok : Bool}
  {loads₀ : List (List Char)}

/-- **Sessions are watched.** -/
theorem watched_of_session {visits : List (Visit K)} {outs : List (List Char)}
    (h : session H rounds visits s₀ = some (d, outs)) (loads₀ : List (List Char)) :
    ∃ tr, (watched K H s₀ loads₀).Run tr
        (d, (visits.zip outs).foldl (note H.loader) loads₀) ∧
      tr.map Prod.snd = visits.zip outs := by
  obtain ⟨tr, hrun, htr⟩ := run_clients_iff.mpr ⟨rounds, (session_eq_some_iff.mp h).2⟩
  rw [← htr]
  exact hrun.watch (note H.loader) loads₀

/-! ## Answers -/

/-- **The answer is seen** in what the client prints. -/
theorem told_printed (C : Visit K) (ok : Bool) :
    "TESTBOX_OK\n".toList <:+ C.printed (resultText ok) ↔ ok = true := by
  have hsuffix : resultText ok ++ ['\n'] <:+ C.printed (resultText ok) :=
    ⟨(C.serve.prints C.args).flatMap CString.cstr, (List.append_assoc ..).symm⟩
  cases ok with
  | true => exact iff_of_true hsuffix rfl
  | false =>
    refine iff_of_false (fun h => ?_) (by decide)
    have hboth := List.suffix_of_suffix_length_le h hsuffix (by decide)
    revert hboth
    decide

/-! ## Commands -/

/-- A load adds the node of a library that it finds, and succeeds if it registers all of it. -/
theorem nodes_loadTestcaseFromLib {lib : List Char} {o : LoadAnswers} {info : TestcaseNod}
    (hs : s.libs.WF) (h : loadTestcaseFromLib H lib o info s = some (s', ok)) :
    let found := o.calloc && o.dlopen && o.dlsym
    s'.libs.WF ∧ s'.libs.nodes = (if found then H.loader.node lib :: s.libs.nodes
      else s.libs.nodes) ∧
      ok = (found && (registerLib H.testbox (H.loader.handle lib) (H.groupsOf lib) info
        s.registry).status = 0) := by
  obtain ⟨libs, hload, hwf, hnodes, -⟩ := loadLib_spec (L := H.loader) hs lib o
  rw [loadTestcaseFromLib, hload] at h
  cases hfound : o.calloc && o.dlopen && o.dlsym with
  | false =>
    rw [hfound] at h hnodes
    obtain ⟨rfl, rfl⟩ := Prod.mk.inj (Option.some.inj h)
    exact ⟨hwf, hnodes, rfl⟩
  | true =>
    rw [hfound] at h hnodes
    obtain ⟨rfl, rfl⟩ := Prod.mk.inj (Option.some.inj h)
    exact ⟨hwf, hnodes, (Bool.true_and _).symm⟩

/-- An unload that succeeds takes the first node of the library away; no other changes `libs`. -/
theorem nodes_unloadLib_removed {lib : List Char} {o : UnloadAnswers} {libs libs' : LibState}
    {e : UnloadEnd} (hs : libs.WF) (h : unloadLib H.loader lib o libs = some (libs', e)) :
    libs'.WF ∧ libs'.nodes = if e = .removed then
      libs.nodes.eraseP fun v => v.lib_handle = H.loader.handle lib else libs.nodes := by
  obtain ⟨hwf, heffect⟩ := unloadLib_spec hs h
  refine ⟨hwf, ?_⟩
  generalize (o.calloc && o.dlopen && o.dlsym) = found at heffect
  cases heffect with
  | refused h1 => exact h1
  | absent h1 => exact h1
  | removed l₁ v l₂ h1 h2 h3 h4 =>
    rw [if_pos rfl, h1, List.eraseP_append_right _ (by simpa using h4),
      List.eraseP_cons_of_pos (by simpa using h3), h2]

theorem note_call {loads : List (List Char)} (hcall : C.call = some c) :
    note H.loader loads (C, C.printed (resultText ok)) =
      if ok then noteCall H.loader loads c else loads := by
  simp only [note, hcall, told_printed, Option.elim_some]

theorem registersAll_of_not_load (h : ∀ lib o info, C.call ≠ some (.load lib o info)) :
    RegistersAll H s C := fun lib o info hload => absurd hload (h lib o info)

/-- **A command** changes the notes as it changes `libs`, unless it is a load that does not register
all of its library. -/
theorem notes_reply {loads : List (List Char)} {answer : List Char} (hs : s.libs.WF)
    (hn : s.libs.nodes = loads.map H.loader.node) (h : C.reply H rounds s = some (s', answer)) :
    s'.libs.WF ∧
      (RegistersAll H s C →
        s'.libs.nodes = (note H.loader loads (C, C.printed answer)).map H.loader.node) ∧
      (¬ RegistersAll H s C →
        (note H.loader loads (C, C.printed answer)).length < s'.libs.nodes.length) := by
  rcases reply_cases h with ⟨hcall, rfl⟩ | ⟨c, ok, hcall, hstatus, rfl⟩
  · have hnote : note H.loader loads (C, C.printed answer) = loads := by
      rw [note, hcall, Option.elim_none, ite_self]
    rw [hnote]
    exact ⟨hs, fun _ => hn, fun hnot => absurd (registersAll_of_not_load (by simp [hcall])) hnot⟩
  rw [note_call hcall]
  cases c with
  | load lib o info =>
    obtain ⟨hwf, hnodes, rfl⟩ := nodes_loadTestcaseFromLib hs hstatus
    have hreg : RegistersAll H s C ↔ ((o.calloc && o.dlopen && o.dlsym) = true →
        (registerLib H.testbox (H.loader.handle lib) (H.groupsOf lib) info s.registry).status =
          0) := by
      refine ⟨fun hreg => hreg lib o info hcall, fun hreg lib' o' info' hcall' => ?_⟩
      rw [hcall] at hcall'
      obtain ⟨rfl, rfl, rfl⟩ := DaemonCall.load.inj (Option.some.inj hcall')
      exact hreg
    rw [hreg, hnodes, hn]
    refine ⟨hwf, ?_⟩
    cases o.calloc && o.dlopen && o.dlsym with
    | false => exact ⟨fun _ => rfl, fun hnot => absurd (by rintro ⟨⟩) hnot⟩
    | true =>
      refine ⟨fun h0 => ?_, fun hnot => ?_⟩
      · rw [if_pos rfl, if_pos (by simpa using h0 rfl)]
        rfl
      · rw [if_neg (by simpa using hnot)]
        simp
  | unload lib o =>
    have hreg : RegistersAll H s C := registersAll_of_not_load (by simp [hcall])
    obtain ⟨⟨libs, e⟩, hu, heq⟩ := Option.map_eq_some_iff.mp hstatus
    obtain ⟨rfl, rfl⟩ := Prod.mk.inj heq
    obtain ⟨hwf, hnodes⟩ := nodes_unloadLib_removed hs hu
    refine ⟨hwf, fun _ => ?_, fun hnot => absurd hreg hnot⟩
    rw [hnodes, hn]
    simp only [decide_eq_true_eq, noteCall]
    split
    · rw [List.eraseP_map]
      rfl
    · rfl
  | groupFile file =>
    have hreg : RegistersAll H s C := registersAll_of_not_load (by simp [hcall])
    obtain ⟨x, -, heq⟩ := Option.map_eq_some_iff.mp hstatus
    obtain ⟨rfl, -⟩ := Prod.mk.inj heq
    refine ⟨hs, fun _ => ?_, fun hnot => absurd hreg hnot⟩
    rw [hn, noteCall, ite_self]

/-! ## Sessions -/

/-- **The notes agree** with what `list_libs` prints all along a session if and only if every load
that finds its library registers all of it. -/
theorem agrees_iff {x : Daemon × List (List Char)}
    {tr : List ((Daemon × List (List Char)) × (Visit K × List Char))} (hs : s₀.libs.WF)
    (hn : s₀.libs.nodes = loads₀.map H.loader.node) (h : (watched K H s₀ loads₀).Run tr x) :
    ((∀ p ∈ tr, Agrees H p.1) ∧ Agrees H x) ↔ ∀ p ∈ tr, RegistersAll H p.1.1 p.2.1 := by
  refine h.exact (C := fun x p => RegistersAll H x.1 p.1)
    (J := fun x => x.1.libs.WF ∧ x.1.libs.nodes = x.2.map H.loader.node) ?_ ?_ ?_ ?_
  · rintro ⟨s, loads⟩ ⟨hs', rfl⟩
    obtain rfl : s = s₀ := hs'
    exact ⟨hs, hn⟩
  · rintro ⟨s, loads⟩ ⟨hwf, hnodes⟩
    rw [Agrees, listLibs_eq hwf, hnodes, List.map_map]
    rfl
  · rintro ⟨s, loads⟩ ⟨C, out⟩ ⟨s', loads'⟩ ⟨hwf, hnodes⟩ hreg ⟨⟨n, answer, hreply, hout⟩, hnote⟩
    obtain rfl : out = C.printed answer := hout
    obtain rfl : loads' = _ := hnote
    obtain ⟨hwf', hkeep, -⟩ := notes_reply hwf hnodes hreply
    exact ⟨hwf', hkeep hreg⟩
  · rintro ⟨s, loads⟩ ⟨C, out⟩ ⟨s', loads'⟩ ⟨hwf, hnodes⟩ ⟨⟨n, answer, hreply, hout⟩, hnote⟩ hagrees
    obtain rfl : out = C.printed answer := hout
    obtain rfl : loads' = _ := hnote
    obtain ⟨hwf', -, hbreak⟩ := notes_reply hwf hnodes hreply
    by_contra hreg
    rw [Agrees, listLibs_eq hwf'] at hagrees
    have hlen := congrArg List.length (List.cons.inj (Option.some.inj hagrees)).2
    rw [List.length_map, List.length_map] at hlen
    exact absurd hlen (Nat.ne_of_gt (hbreak hreg))

/-- `dibc --loadlib a` is answered with `TESTBOX_OK`, and `a` is loaded. -/
theorem agrees_iff_loadA : ∃ tr x, (watched boxLimits oneLibrary .start []).Run tr x ∧
    x.2 = [['a']] ∧ Agrees oneLibrary x := by
  have hrequest : loadVisit.request =
      .call (.load ['a'] ⟨true, true, true⟩ plainTestbox.zeroInfo) := by decide
  have hcall : loadVisit.call = some (.load ['a'] ⟨true, true, true⟩ plainTestbox.zeroInfo) := by
    rw [Visit.call, hrequest]
  have houts : (session oneLibrary 100 [loadVisit] .start).map Prod.snd =
      some [loadVisit.printed (resultText true)] := by decide +kernel
  obtain ⟨⟨d, outs⟩, hsession, rfl⟩ := Option.map_eq_some_iff.mp houts
  obtain ⟨tr, hrun, htr⟩ := watched_of_session hsession []
  refine ⟨tr, _, hrun, ?_, ((agrees_iff wf_start rfl hrun).mpr fun p hp => ?_).2⟩
  · show note oneLibrary.loader [] (loadVisit, loadVisit.printed (resultText true)) = [['a']]
    rw [note_call hcall]
    rfl
  obtain ⟨tr₁, tr₂, -, rfl, hbefore, -⟩ := hrun.prefix_of_mem hp
  cases hbefore with
  | snoc _ _ =>
    -- there is one request only
    have hlen := congrArg List.length htr
    simp at hlen
    omega
  | start h0 =>
    obtain ⟨⟨s, loads⟩, C, out⟩ := p
    obtain ⟨rfl, rfl⟩ := h0
    obtain rfl : C = loadVisit := congrArg Prod.fst (List.cons.inj htr).1
    rintro lib o info hload -
    obtain ⟨rfl, rfl, rfl⟩ := DaemonCall.load.inj (Option.some.inj (hcall.symm.trans hload))
    rfl

end Dib
