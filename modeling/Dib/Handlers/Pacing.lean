import Dib.Handlers.Rounds
import Mathlib.Data.List.Chain

/-!
# The pace of cases and executables

A case sleeps for `execution_dly_time` before it goes on with its loop; an executable has the same
loop without the `sleep`.

* `Spaced`: every two consecutive executions are separated by the sleep;
* `roundsFrom_eq_iff`, `spaced_case`, `spaced_executable_iff`: the two loops;
* **`rounds_agree_iff`**: the two handlers leave the same rounds only where the case does not sleep,
  and an executable is paced only where it is executed at most once.
-/

set_option autoImplicit false

namespace Dib

variable {T : TestBox} {args : ThreadArgs} {stop_on_fail : Bool} {deadline : ℤ}

/-- An execution that is not the last event is followed by a sleep of `seconds`. -/
def Spaced (seconds : ℤ) (rounds : List Event) : Prop :=
  rounds.IsChain fun e e' => (∃ outcome, e = .run none outcome) → e' = .sleep seconds

/-- The loop has no round, or is left in its first one. -/
def LeftAtOnce (T : TestBox) (args : ThreadArgs) : Prop :=
  args.loops ≤ 0 ∨ StopsAt T args.stop_on_fail 0 ∨ ExpiresAt T (args.deadline T) 0

theorem roundsFrom_eq_iff {seconds : ℤ} {i n : ℕ} :
    roundsFrom T stop_on_fail deadline [.sleep seconds] i n =
        roundsFrom T stop_on_fail deadline [] i n ↔
      n = 0 ∨ Breaks T stop_on_fail deadline i = true := by
  cases n with
  | zero => exact iff_of_true rfl (.inl rfl)
  | succ n =>
    by_cases hb : Breaks T stop_on_fail deadline i = true
    · exact iff_of_true (by rw [roundsFrom, roundsFrom, if_pos hb, if_pos hb]) (.inr hb)
    · rw [roundsFrom, roundsFrom, if_neg hb, if_neg hb]
      refine iff_of_false (fun h => ?_) (by simp [hb])
      -- the sleep meets the end of the executions, or the next one
      cases n <;> simp [roundsFrom] at h

theorem spaced_case (seconds : ℤ) (i n : ℕ) :
    Spaced seconds (roundsFrom T stop_on_fail deadline [.sleep seconds] i n) := by
  induction n generalizing i with
  | zero => exact .nil
  | succ n ih =>
    rw [roundsFrom]
    split_ifs with hb
    · exact .singleton _
    · refine .cons_cons (fun _ => rfl) ((ih (i + 1)).cons fun e _ he => ?_)
      obtain ⟨outcome, h⟩ := he
      cases h

theorem spaced_executable_iff {seconds : ℤ} {i n : ℕ} :
    Spaced seconds (roundsFrom T stop_on_fail deadline [] i n) ↔
      n ≤ 1 ∨ Breaks T stop_on_fail deadline i = true := by
  match n with
  | 0 => exact iff_of_true .nil (.inl (Nat.zero_le 1))
  | n + 1 =>
    rw [roundsFrom]
    split_ifs with hb
    · exact iff_of_true (.singleton _) (.inr hb)
    · cases n with
      | zero => exact iff_of_true (.singleton _) (.inl le_rfl)
      | succ n =>
        refine iff_of_false (fun h => ?_) (by simp [hb])
        rw [List.nil_append, roundsFrom] at h
        have h1 := (List.isChain_cons_cons.mp h).1 ⟨_, rfl⟩
        cases h1

theorem rounds_finished {kind : HandlerKind} (hkind : kind = .case ∨ kind = .executable)
    (hs : SetsUp T kind args) : (finished T kind none args).rounds =
      roundsFrom T args.stop_on_fail (args.deadline T) (kind.pause args) 0 args.loops.toNat := by
  obtain ⟨r, w, hend, -, hrun⟩ := handler_counted hkind hs
  rw [finished, hrun, ← hend.rounds]
  exact rounds_finalized w

/-- **Pacing.** A case and an executable with the same arguments, outcomes and readings of the clock
leave the same rounds exactly when the loop is left before the first sleep of the case. A case
sleeps between any two executions, an executable only where there are no two. -/
theorem rounds_agree_iff (hc : SetsUp T .case args) (he : SetsUp T .executable args) :
    ((finished T .case none args).rounds = (finished T .executable none args).rounds ↔
        LeftAtOnce T args) ∧
      Spaced args.execution_dly_time (finished T .case none args).rounds ∧
      (Spaced args.execution_dly_time (finished T .executable none args).rounds ↔
        args.loops ≤ 1 ∨ LeftAtOnce T args) := by
  rw [rounds_finished (.inl rfl) hc, rounds_finished (.inr rfl) he]
  have hbreaks : Breaks T args.stop_on_fail (args.deadline T) 0 = true ↔
      StopsAt T args.stop_on_fail 0 ∨ ExpiresAt T (args.deadline T) 0 := by simp [Breaks]
  refine ⟨?_, spaced_case _ _ _, ?_⟩
  · refine roundsFrom_eq_iff.trans ?_
    rw [hbreaks, LeftAtOnce, Int.toNat_eq_zero]
  · refine spaced_executable_iff.trans ?_
    rw [hbreaks, LeftAtOnce, Int.toNat_le]
    constructor
    · exact fun h => h.imp_right .inr
    · rintro (h | h | h)
      · exact .inl h
      · exact .inl (h.trans (by decide))
      · exact .inr h

/-- Run `t` twice, one second apart, with the log as the only output. -/
def pacedRun : ThreadArgs := ⟨3, 3, false, 2, false, false, 0, 1, ['t'], [['t']]⟩

/-- The case sleeps, the executable does not. -/
theorem pacedRun_differs : ¬ ∀ T args, SetsUp T .case args → SetsUp T .executable args →
    (finished T .case none args).rounds = (finished T .executable none args).rounds := by
  intro h
  have h1 := h passing pacedRun (by decide) (by decide)
  revert h1
  decide

theorem rounds_agree_once : SetsUp passing .case background ∧
    SetsUp passing .executable background ∧
      Spaced 0 (finished passing .executable none background).rounds := by
  have hc : SetsUp passing .case background := by decide
  have he : SetsUp passing .executable background := by decide
  exact ⟨hc, he, (rounds_agree_iff hc he).2.2.mpr (.inl le_rfl)⟩

end Dib
