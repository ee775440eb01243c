import Dib.Args.Numbers
import Dib.Handlers.Rounds

/-!
# The deadline of a timed run

The seconds that `--exe_time` allows are kept in an `int`, and the start of the run is added to them
there.

* `DeadlineKept`: after an execution the limit is still set, and the run is found to be over exactly
  when it is;
* `deadline_lt_start`: a deadline that does not fit comes before the start of the run;
* **`deadlineKept_iff`**: so the limit is kept when the deadline fits, and otherwise only where it
  has passed anyway.
-/

set_option autoImplicit false

namespace Dib

variable {T : TestBox} {args : ThreadArgs} {i : ℕ}

/-- **The limit of a timed run**, tested after the execution `i`: it is set, and the test is true
exactly when `execution_time` seconds have passed since the start. -/
structure DeadlineKept (T : TestBox) (args : ThreadArgs) (i : ℕ) : Prop where
  armed : args.deadline T ≠ 0
  exact : ExpiresAt T (args.deadline T) i ↔
    T.clock_gettime 0 + args.execution_time < T.clock_gettime (i + 1)

theorem timeStrToSec_lt {tmp str : List Char} {sec : ℤ} (h : timeStrToSec tmp str = some sec) :
    sec < 2 ^ 31 := by
  unfold timeStrToSec at h
  obtain ⟨-, h1⟩ := Option.ite_none_left_eq_some.mp h
  obtain rfl := Option.some.inj h1
  exact Int.bmod_lt (by decide)

/-- A sum that does not fit loses at least `2 ^ 32`. -/
theorem toInt_le_of_le {n : ℤ} (h : 2 ^ 31 ≤ n) : toInt n ≤ n - 2 ^ 32 := by
  have hlt : toInt n < 2 ^ 31 := Int.bmod_lt (by decide)
  obtain ⟨k, hk⟩ : (2 ^ 32 : ℤ) ∣ n - toInt n := Int.dvd_self_sub_bmod
  omega

theorem toInt_eq_zero_iff {n : ℤ} : toInt n = 0 ↔ 2 ^ 32 ∣ n := Int.dvd_iff_bmod_eq_zero.symm

/-- **A deadline that does not fit** comes before the start. -/
theorem deadline_lt_start {start sec : ℤ} (hsec : sec < 2 ^ 31) (h : 2 ^ 31 ≤ start + sec) :
    toInt (start + sec) < start := by
  have hle := toInt_le_of_le h
  omega

/-- **The deadline is kept** when it fits; otherwise only when it has passed, and is not taken for
none. -/
theorem deadlineKept_iff {tmp str : List Char} (hnarrow : T.narrow = toInt)
    (hsec : timeStrToSec tmp str = some args.execution_time) (hpos : 0 < args.execution_time)
    (hstart : 0 ≤ T.clock_gettime 0) (hlater : T.clock_gettime 0 ≤ T.clock_gettime (i + 1)) :
    DeadlineKept T args i ↔
      T.clock_gettime 0 + args.execution_time < 2 ^ 31 ∨
        T.clock_gettime 0 + args.execution_time < T.clock_gettime (i + 1) ∧
          ¬ 2 ^ 32 ∣ T.clock_gettime 0 + args.execution_time := by
  have hlt := timeStrToSec_lt hsec
  have hdeadline : args.deadline T = toInt (T.clock_gettime 0 + args.execution_time) := by
    rw [ThreadArgs.deadline, if_pos hpos.ne', hnarrow, Int.add_comm]
  rcases lt_or_ge (T.clock_gettime 0 + args.execution_time) (2 ^ 31) with hfits | hwraps
  · rw [toInt_of_range ⟨by omega, hfits⟩] at hdeadline
    refine iff_of_true ⟨?_, ?_⟩ (.inl hfits)
    · omega
    · rw [ExpiresAt, hdeadline]
      exact and_iff_right (by omega)
  · have hbefore : args.deadline T < T.clock_gettime (i + 1) := by
      rw [hdeadline]
      exact (deadline_lt_start hlt hwraps).trans_le hlater
    have hzero : args.deadline T ≠ 0 ↔ ¬ 2 ^ 32 ∣ T.clock_gettime 0 + args.execution_time := by
      rw [hdeadline, Ne, toInt_eq_zero_iff]
    -- the test is true from the start on
    rw [or_iff_right (not_lt.mpr hwraps), ← hzero]
    constructor
    · rintro ⟨harmed, hexact⟩
      exact ⟨hexact.mp ⟨harmed, hbefore⟩, harmed⟩
    · rintro ⟨hpassed, harmed⟩
      exact ⟨harmed, iff_of_true ⟨harmed, hbefore⟩ hpassed⟩

/-- Run `t` up to five times within a second. -/
def secondRun : ThreadArgs := ⟨3, 0, true, 5, false, false, 1, 0, ['t'], [['t']]⟩

/-- The clock starts at `start`, and shows the same time after every execution. -/
def clockBox (start : ℤ) : TestBox :=
  { noCase with clock_gettime := fun _ => start, narrow := toInt }

theorem deadlineKept_second : DeadlineKept (clockBox 1000) secondRun 0 :=
  (deadlineKept_iff rfl (show timeStrToSec [] "0:0:0:1".toList = some 1 by decide) (by decide)
    (by decide) le_rfl).mpr (.inl (by decide))

/-- In the last second that fits, the run is over as soon as it begins. -/
theorem lastSecond_not_kept : ¬ ∀ (T : TestBox) (args : ThreadArgs) (tmp str : List Char) (i : ℕ),
    T.narrow = toInt → timeStrToSec tmp str = some args.execution_time →
      0 < args.execution_time → 0 ≤ T.clock_gettime 0 →
        T.clock_gettime 0 ≤ T.clock_gettime (i + 1) → DeadlineKept T args i := by
  intro h
  have hkept := h (clockBox (2 ^ 31 - 1)) secondRun [] "0:0:0:1".toList 0 rfl (by decide)
    (by decide) (by decide) le_rfl
  have hexpired : ExpiresAt (clockBox (2 ^ 31 - 1))
      (secondRun.deadline (clockBox (2 ^ 31 - 1))) 0 := by decide
  have hpassed := hkept.exact.mp hexpired
  revert hpassed
  decide

end Dib
