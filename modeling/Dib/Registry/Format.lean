import Dib.Registry.Daemon

/-!
# Format errors in group files

* `Level`, `Mark`, `markOf`: the blocks that are open, and what a line says about them where it
  stands;
* `Level.next`, `Level.read`, `WellNested`: the levels from line to line;
* `FormatChecked`: a file is accepted only if it is well nested, and refused otherwise;
* `ok_addGroupFromFile`: a file that can be opened is never refused: the loops over its groups and
  suites drop what the inner functions return;
* **`formatChecked_iff`**: so the check is right for well-nested files, and for no others.
-/

set_option autoImplicit false

namespace Dib

open CString Lines

/-! ## Nesting -/

/-- The blocks that are open. -/
inductive Level where
  | outside
  | inGroup
  | inSuite
  deriving DecidableEq, Repr

/-- The begin or the end of a block. -/
inductive Mark where
  | group
  | suite
  | endSuite
  | endGroup
  deriving DecidableEq, Repr

/-- The keyword occurs in the line. -/
def Says (line keyword : List Char) : Prop := (strstr line keyword).isSome = true

instance (line keyword : List Char) : Decidable (Says line keyword) :=
  inferInstanceAs (Decidable (_ = true))

/-- What a line says about the blocks. A comment says nothing, nor does an entry of a suite, and
there are entries in suites only: elsewhere the text of an entry may stand in a name. The keywords
of a level come first, in the order in which they are looked for there. -/
def markOf (line : List Char) (level : Level) : Option Mark :=
  if line.head? = some '#' then none
  else
    match level with
    | .outside => if Says line ['G', 'R', 'O', 'U', 'P', '('] then some .group else none
    | .inGroup =>
      if Says line ['S', 'U', 'I', 'T', 'E', '('] then some .suite
      else if Says line ['E', 'N', 'D', '_', 'G', 'R', 'O', 'U', 'P'] then some .endGroup
      else if Says line ['G', 'R', 'O', 'U', 'P', '('] then some .group
      else none
    | .inSuite =>
      if Says line ['D', 'E', 'S', 'C', 'R', '('] ∨ Says line ['T', 'C', '('] ∨
        Says line ['E', 'X', 'E', 'C', '('] then none
      else if Says line ['E', 'N', 'D', '_', 'S', 'U', 'I', 'T', 'E'] then some .endSuite
      else if Says line ['S', 'U', 'I', 'T', 'E', '('] then some .suite
      else if Says line ['E', 'N', 'D', '_', 'G', 'R', 'O', 'U', 'P'] then some .endGroup
      else if Says line ['G', 'R', 'O', 'U', 'P', '('] then some .group
      else none

/-- A suite is closed before the next suite, the next group and the end of its group; a group is
closed before the next group. -/
def Level.next : Level → Mark → Option Level
  | .outside, .group => some .inGroup
  | .inGroup, .suite => some .inSuite
  | .inGroup, .endGroup => some .outside
  | .inSuite, .endSuite => some .inGroup
  | _, _ => none

/-- The level behind a line. -/
def Level.read (level : Level) (line : List Char) : Option Level :=
  match markOf line level with
  | none => some level
  | some mark => level.next mark

/-- The blocks of the file are closed where they should be, at its end at the latest. -/
def WellNested (file : List Char) : Prop :=
  (file.splitOn '\n').foldlM Level.read .outside = some .outside

instance (file : List Char) : Decidable (WellNested file) := inferInstanceAs (Decidable (_ = _))

example : WellNested "GROUP(g)\nSUITE(TC(x))\nTC(END_SUITE)\nEND_SUITE\nEND_GROUP".toList := by
  decide

/-- A group may have the text of an entry for its name, and is to be closed all the same. -/
example : ¬ WellNested "GROUP(TC(x))".toList := by
  decide

/-! ## The check -/

/-- `add_group_from_file` returns `TB_OK` only for a well-nested file, and `TB_ERROR` for every
other. -/
structure FormatChecked (T : LibTestbox) (rounds : ℕ) (r : Registry) (file : List Char) : Prop where
  accepted : ∀ r', addGroupFromFile T rounds r (some file) = some (r', true) → WellNested file
  refused : ¬ WellNested file → ∃ r', addGroupFromFile T rounds r (some file) = some (r', false)

variable {T : LibTestbox} {rounds : ℕ} {r r' : Registry} {file : List Char} {ok : Bool}

/-- **A file that can be opened is not refused.** -/
theorem ok_addGroupFromFile (h : addGroupFromFile T rounds r (some file) = some (r', ok)) :
    ok = true := by
  refine whileFgets_inv (I := fun _ _ => True) (R := fun x => x.2 = true) trivial
    (fun line r file rest x _ _ hx => ?_) (fun _ _ _ => rfl) h
  rcases addGroupBody_cases hx with rfl | ⟨name, r', file', ok, -, rfl⟩
  · exact trivial
  · exact trivial

/-- **The format check** does what it should for well-nested files only. -/
theorem formatChecked_iff (T : LibTestbox) (rounds : ℕ) (r : Registry) (file : List Char) :
    FormatChecked T rounds r file ↔ WellNested file := by
  constructor
  · intro h
    by_contra hnested
    obtain ⟨r', hr'⟩ := h.refused hnested
    have hok := ok_addGroupFromFile hr'
    cases hok
  · exact fun h => ⟨fun _ _ => h, fun hn => absurd h hn⟩

def openGroup : List Char := ['G', 'R', 'O', 'U', 'P', '(', 'g', ')', '\n']

/-- The group is never closed, and the file accepted. -/
theorem unclosed_group :
    addGroupFromFile plainTestbox 0 .start (some openGroup) =
        some (⟨[], [], [⟨0, ['g'], []⟩], 1⟩, true) ∧
      ¬ FormatChecked plainTestbox 0 .start openGroup := by
  have hrun : addGroupFromFile plainTestbox 0 .start (some openGroup) =
      some (⟨[], [], [⟨0, ['g'], []⟩], 1⟩, true) := by decide
  refine ⟨hrun, fun h => ?_⟩
  have hnested : WellNested openGroup := h.accepted _ hrun
  revert hnested
  decide

end Dib
