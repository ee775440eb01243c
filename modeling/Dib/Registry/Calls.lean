import Dib.Registry.Conf
import Dib.Registry.Expansion

/-!
# The calls of the daemon, computed

* `createPathFromEnv_mono`, **`addGroupFromFile_mono`**: in more replacements an expansion ends with
  the same path, and a group file leaves the same registry;
* `Daemon.call`: a step of the daemon as a function; `step_iff_call`, `call_mono`;
* **`run_iff_calls`**: the runs of the daemon are what these calls compute one after the other.
-/

set_option autoImplicit false

namespace Dib

open CString Lines Lts

/-! ## More replacements -/

variable {T : LibTestbox} {n m p g : ℕ} {r r' : Registry} {line text file : List Char}

theorem createPathFromEnv_mono {path : Option (List Char)} (hnm : n ≤ m)
    (h : createPathFromEnv T n text = some path) : createPathFromEnv T m text = some path := by
  rw [createPathFromEnv_eq] at h ⊢
  cases href : envReference T text with
  | none => rwa [href] at h
  | some x =>
    rw [href] at h
    obtain ⟨result, hresult, rfl⟩ := Option.map_eq_some_iff.mp h
    exact Option.map_eq_some_iff.mpr ⟨result, replaceString_mono hresult hnm, rfl⟩

theorem addExecutable_mono (hnm : n ≤ m) (h : addExecutable T n p text r = some r') :
    addExecutable T m p text r = some r' := by
  unfold addExecutable at h ⊢
  cases hpath : createPathFromEnv T n text with
  | none =>
    rw [hpath] at h
    cases h
  | some path =>
    rw [createPathFromEnv_mono hnm hpath]
    rwa [hpath] at h

theorem tcLine_mono {x : Registry × Bool} (hnm : n ≤ m) (h : tcLine T n p line r = some x) :
    tcLine T m p line r = some x := by
  unfold tcLine at h ⊢
  cases hdescr : after line ['D', 'E', 'S', 'C', 'R', '('] with
  | some text => rwa [hdescr] at h
  | none =>
    cases htc : after line ['T', 'C', '('] with
    | some text => rwa [hdescr, htc] at h
    | none =>
      cases hexec : after line ['E', 'X', 'E', 'C', '('] with
      | none => rwa [hdescr, htc, hexec] at h
      | some text =>
        rw [hdescr, htc, hexec] at h
        obtain ⟨text, htext, h⟩ := Option.bind_eq_some_iff.mp h
        obtain ⟨r', hr', rfl⟩ := Option.map_eq_some_iff.mp h
        exact Option.bind_eq_some_iff.mpr
          ⟨text, htext, Option.map_eq_some_iff.mpr ⟨r', addExecutable_mono hnm hr', rfl⟩⟩

theorem addTcFromFile_mono {x : FileResult} (hnm : n ≤ m)
    (h : addTcFromFile T n p r file = some x) : addTcFromFile T m p r file = some x := by
  refine whileFgets_mono (fun line r file x hx => ?_) h
  unfold addTcBody at hx ⊢
  cases hline : textLine T line with
  | none => rwa [hline] at hx
  | some line =>
    rw [hline] at hx
    obtain ⟨y, hy, rfl⟩ := Option.map_eq_some_iff.mp hx
    exact Option.map_eq_some_iff.mpr ⟨y, tcLine_mono hnm hy, rfl⟩

theorem addSuiteFromFile_mono {x : FileResult} (hnm : n ≤ m)
    (h : addSuiteFromFile T n g r file = some x) : addSuiteFromFile T m g r file = some x := by
  refine whileFgets_mono (fun line s file x hx => ?_) h
  unfold addSuiteBody at hx ⊢
  cases hline : textLine T line with
  | none => rwa [hline] at hx
  | some line =>
    rw [hline] at hx
    dsimp only at hx ⊢
    cases hsuite : after line ['S', 'U', 'I', 'T', 'E', '('] with
    | none => rwa [hsuite] at hx
    | some text =>
      rw [hsuite] at hx
      dsimp only at hx ⊢
      split at hx
      · exact hx
      split at hx
      · exact hx
      split at hx
      · exact hx
      · obtain ⟨y, hy, rfl⟩ := Option.map_eq_some_iff.mp hx
        exact Option.map_eq_some_iff.mpr ⟨y, addTcFromFile_mono hnm hy, rfl⟩

/-- **More replacements** change nothing that is read from a group file. -/
theorem addGroupFromFile_mono {conf : Option (List Char)} {x : Registry × Bool} (hnm : n ≤ m)
    (h : addGroupFromFile T n r conf = some x) : addGroupFromFile T m r conf = some x := by
  cases conf with
  | none => exact h
  | some file =>
    refine whileFgets_mono (fun line r file x hx => ?_) h
    unfold addGroupBody at hx ⊢
    cases hline : textLine T line with
    | none => rwa [hline] at hx
    | some line =>
      rw [hline] at hx
      dsimp only at hx ⊢
      split at hx
      · exact hx
      split at hx
      · exact hx
      next group_name _ =>
      by_cases hname : group_name = []
      · rwa [if_pos hname] at hx ⊢
      · rw [if_neg hname] at hx ⊢
        obtain ⟨y, hy, rfl⟩ := Option.map_eq_some_iff.mp hx
        exact Option.map_eq_some_iff.mpr ⟨y, addSuiteFromFile_mono hnm hy, rfl⟩

/-! ## Calls -/

/-- **A call**, which may fault or not return; paths are expanded in at most so many
replacements. -/
def Daemon.call (H : Host) (rounds : ℕ) (s : Daemon) : DaemonCall → Option Daemon
  | .load lib o info => (loadTestcaseFromLib H lib o info s).map Prod.fst
  | .unload lib o => (unloadLib H.loader lib o s.libs).map fun (libs, e) =>
    ⟨libs, if e = .refused then s.registry else unregisterLib (H.groupsOf lib) s.registry⟩
  | .groupFile file => (addGroupFromFile H.testbox rounds s.registry file).map fun (r, _) =>
    ⟨s.libs, r⟩

variable {H : Host} {s s' : Daemon} {c : DaemonCall}

/-- **The steps of the daemon** are its calls. -/
theorem step_iff_call : s.Step H c s' ↔ ∃ rounds, s.call H rounds c = some s' := by
  constructor
  · intro h
    cases h with
    | load lib o info hl => exact ⟨0, by rw [Daemon.call, loadTestcaseFromLib, hl]; rfl⟩
    | loadFails lib o info hl => exact ⟨0, by rw [Daemon.call, loadTestcaseFromLib, hl]; rfl⟩
    | unload lib o hu => exact ⟨0, by rw [Daemon.call, hu]; rfl⟩
    | groupFile file rounds hf => exact ⟨rounds, by rw [Daemon.call, hf]; rfl⟩
  · rintro ⟨rounds, h⟩
    cases c with
    | load lib o info =>
      obtain ⟨⟨_, ok⟩, hl, rfl⟩ := Option.map_eq_some_iff.mp h
      exact step_loadTestcaseFromLib hl
    | unload lib o =>
      obtain ⟨⟨libs, e⟩, hu, rfl⟩ := Option.map_eq_some_iff.mp h
      exact .unload lib o hu
    | groupFile file =>
      obtain ⟨⟨r, ok⟩, hf, rfl⟩ := Option.map_eq_some_iff.mp h
      exact .groupFile file rounds hf

theorem call_mono (hnm : n ≤ m) (h : s.call H n c = some s') : s.call H m c = some s' := by
  cases c with
  | load lib o info => exact h
  | unload lib o => exact h
  | groupFile file =>
    obtain ⟨x, hx, rfl⟩ := Option.map_eq_some_iff.mp h
    exact Option.map_eq_some_iff.mpr ⟨x, addGroupFromFile_mono hnm hx, rfl⟩

/-- **The runs of the daemon** are what its calls compute. -/
theorem run_iff_calls (calls : List DaemonCall) :
    (∃ tr, (daemon H).Run tr s ∧ tr.map Prod.snd = calls) ↔
      ∃ rounds, calls.foldlM (Daemon.call H rounds) .start = some s :=
  run_iff_foldlM (f := Daemon.call H) (fun _ => Iff.rfl) (fun _ _ _ => step_iff_call) call_mono
    calls

end Dib
