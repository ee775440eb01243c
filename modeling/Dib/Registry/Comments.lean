import Dib.Registry.Conf

/-!
# Comments in configuration files

A line that begins with `#` is skipped as far as one call of `fgets` reads it; what does not fit
into the buffer comes as further lines.

* `CommentLine`, `CanFollow`, `furtherPieces`: a comment in a file, and its pieces but the first;
* `furtherPieces_of_fits`: a comment that fits has none;
* `callLog`, `SameCalls`: two configuration files lead to the same calls and the same status;
* **`sameCalls_iff`**: a comment can be deleted if and only if its further pieces are skipped too.
-/

set_option autoImplicit false

namespace Dib

open CString Lines

/-! ## Comments in a file -/

/-- A line that begins with `#`, and the lines before it. Only the last line of a file may have no
newline. -/
structure CommentLine (before line : List Char) : Prop where
  whole : Whole before
  head : line.head? = some '#'
  newline : '\n' ∉ line.dropLast

/-- What may come after a line: nothing, or anything if it ends with a newline. -/
def CanFollow (line behind : List Char) : Prop := behind = [] ∨ line.getLast? = some '\n'

/-- The pieces of a line after the first. -/
def furtherPieces (size : ℕ) (line : List Char) : List (List Char) := (chunks size line).tail

/-- `strip_newline` removes the newline at the end of a line, and nothing else. -/
structure LibTestbox.Strips (T : LibTestbox) : Prop where
  newline : ∀ l, '\n' ∉ l → T.strip_newline (l ++ ['\n']) = l
  other : ∀ l, '\n' ∉ l → T.strip_newline l = l

variable {size : ℕ} {before line behind : List Char}

/-- **A comment that fits** has no further pieces. -/
theorem furtherPieces_of_fits (h : CommentLine before line) (hlen : line.length < size) :
    furtherPieces size line = [] := by
  have hne : line ≠ [] := by
    rintro rfl
    cases h.head
  rw [furtherPieces, chunks_of_length_lt hne hlen h.newline]
  rfl

theorem chunks_comment (h : CommentLine before line) (hsize : 1 < size) :
    ∃ piece rest, fgets size line = some ('#' :: piece, rest) ∧
      chunks size line = ('#' :: piece) :: furtherPieces size line := by
  obtain ⟨l, rfl⟩ := List.head?_eq_some_iff.mp h.head
  obtain ⟨piece, rest, hget⟩ := exists_fgets_cons (c := '#') hsize (by decide) l
  refine ⟨piece, rest, hget, ?_⟩
  rw [furtherPieces, chunks_of_fgets hsize hget]
  rfl

theorem chunks_with (h : CommentLine before line) (hsize : 1 < size)
    (hbehind : CanFollow line behind) : chunks size (before ++ line ++ behind) =
      chunks size before ++ (chunks size line ++ chunks size behind) := by
  rw [List.append_assoc, chunks_append hsize h.whole]
  congr 1
  rcases hbehind with rfl | hline
  · rw [List.append_nil, chunks_nil, List.append_nil]
  · exact chunks_append hsize (.inr hline) behind

theorem chunks_without (h : CommentLine before line) (hsize : 1 < size) (behind : List Char) :
    chunks size (before ++ behind) = chunks size before ++ chunks size behind :=
  chunks_append hsize h.whole behind

/-! ## Configuration files -/

section Calls

variable {σ : Type} (T : LibTestbox) (rounds : ℕ) (call : ℕ → List Char → σ → Option (σ × Bool))

/-- The calls that are begun, with their results; the last one may not return. -/
def callLog : σ → ℕ → List (List Char) → List (List Char × Option Bool)
  | _, _, [] => []
  | s, k, lib_path :: entries =>
    match confPath T rounds lib_path with
    | none => []
    | some path =>
      match call k path s with
      | none => [(path, none)]
      | some (s', ok) => (path, some ok) :: callLog s' (k + 1) entries

/-- The loop begins the same calls for two files, and ends in the same way. -/
def SameCalls (set : Bool → Bool → Bool) (size : ℕ) (s : σ) (file file' : List Char) : Prop :=
  callLog T rounds call s 0 (entriesOf T size file) =
      callLog T rounds call s 0 (entriesOf T size file') ∧
    fromConfFile T rounds call set size (some file) s =
      fromConfFile T rounds call set size (some file') s

end Calls

variable {σ : Type} {T : LibTestbox} {rounds : ℕ} {call : ℕ → List Char → σ → Option (σ × Bool)}
  {set : Bool → Bool → Bool} {s : σ} {x y : σ × List (List Char × Bool)}
  {entries entries' : List (List Char)}

theorem callEntry_eq_some {lib_path : List Char} (h : callEntry T rounds call x lib_path = some y) :
    ∃ path ok, confPath T rounds lib_path = some path ∧
      call x.2.length path x.1 = some (y.1, ok) ∧ y.2 = x.2 ++ [(path, ok)] := by
  obtain ⟨path, hpath, h1⟩ := Option.bind_eq_some_iff.mp h
  obtain ⟨⟨s', ok⟩, hcall, rfl⟩ := Option.map_eq_some_iff.mp h1
  exact ⟨path, ok, hpath, hcall, rfl⟩

theorem length_callEach (h : callEach T rounds call entries x = some y) :
    y.2.length = x.2.length + entries.length := by
  rw [callEach] at h
  induction entries generalizing x with
  | nil =>
    obtain rfl := Option.some.inj h
    rfl
  | cons lib_path entries ih =>
    rw [List.foldlM_cons] at h
    obtain ⟨x', h1, h2⟩ := Option.bind_eq_some_iff.mp h
    obtain ⟨path, ok, -, -, hx'⟩ := callEntry_eq_some h1
    rw [ih h2, hx', List.length_append, List.length_singleton, List.length_cons]
    omega

theorem callEach_append : callEach T rounds call (entries ++ entries') x =
    (callEach T rounds call entries x).bind (callEach T rounds call entries') :=
  List.foldlM_append

theorem callLog_append (h : callEach T rounds call entries x = none) :
    callLog T rounds call x.1 x.2.length (entries ++ entries') =
      callLog T rounds call x.1 x.2.length entries := by
  rw [callEach] at h
  induction entries generalizing x with
  | nil => cases h
  | cons lib_path entries ih =>
    rw [List.cons_append, callLog, callLog]
    cases hpath : confPath T rounds lib_path with
    | none => rfl
    | some path =>
      dsimp only
      cases hcall : call x.2.length path x.1 with
      | none => rfl
      | some y =>
        have h1 : callEntry T rounds call x lib_path = some (y.1, x.2 ++ [(path, y.2)]) := by
          rw [callEntry, hpath, Option.bind_some, hcall, Option.map_some]
        rw [List.foldlM_cons, h1] at h
        have h2 := ih h
        rw [List.length_append, List.length_singleton] at h2
        dsimp only
        rw [h2]

theorem confEntry_comment {piece rest : List Char} (hT : T.Strips)
    (hget : fgets size line = some ('#' :: piece, rest)) : confEntry T ('#' :: piece) = none := by
  have hhead : (T.strip_newline ('#' :: piece)).head? = some '#' := by
    rcases fgets_newline hget with h | ⟨l, hl, h⟩
    · rw [hT.other _ h]
      rfl
    · rw [h, hT.newline l hl]
      cases l with
      | nil => exact absurd (List.cons.inj h).1 (by decide)
      | cons c l => rw [(List.cons.inj h).1, List.head?_cons]
  exact if_pos (.inl hhead)

theorem entriesOf_with (hT : T.Strips) (h : CommentLine before line) (hsize : 1 < size)
    (hbehind : CanFollow line behind) : entriesOf T size (before ++ line ++ behind) =
      entriesOf T size before ++
        ((furtherPieces size line).filterMap (confEntry T) ++ entriesOf T size behind) := by
  obtain ⟨piece, rest, hget, hline⟩ := chunks_comment h hsize
  rw [entriesOf, chunks_with h hsize hbehind, hline, List.filterMap_append, List.cons_append,
    List.filterMap_cons_none (confEntry_comment hT hget), List.filterMap_append]
  rfl

theorem entriesOf_without (h : CommentLine before line) (hsize : 1 < size) (behind : List Char) :
    entriesOf T size (before ++ behind) = entriesOf T size before ++ entriesOf T size behind := by
  rw [entriesOf, chunks_without h hsize, List.filterMap_append]
  rfl

theorem fromConfFile_of_none {file : List Char} (hsize : 1 < size)
    (hentries : entriesOf T size file = entries ++ entries')
    (h : callEach T rounds call entries (s, []) = none) :
    fromConfFile T rounds call set size (some file) s = none := by
  rw [fromConfFile_eq hsize, hentries, callEach_append, h]
  rfl

/-- **A comment in a configuration file** makes no difference, whatever comes after it, if and only
if its further pieces are skipped, or a call before it does not return. -/
theorem sameCalls_iff (hT : T.Strips) (h : CommentLine before line) (hsize : 1 < size)
    (rounds : ℕ) (call : ℕ → List Char → σ → Option (σ × Bool)) (set : Bool → Bool → Bool) (s : σ) :
    (∀ behind, CanFollow line behind →
        SameCalls T rounds call set size s (before ++ line ++ behind) (before ++ behind)) ↔
      ∀ x, callEach T rounds call (entriesOf T size before) (s, []) = some x →
        ∀ piece ∈ furtherPieces size line, confEntry T piece = none := by
  constructor
  · intro hsame x hx
    have hrun := (hsame [] (.inl rfl)).2
    have hwith := entriesOf_with hT h hsize (.inl rfl : CanFollow line [])
    have hnil : entriesOf T size [] = [] := rfl
    rw [fromConfFile_eq hsize, fromConfFile_eq hsize, hwith, entriesOf_without h hsize, hnil,
      List.append_nil, List.append_nil, callEach_append, hx, Option.bind_some] at hrun
    obtain ⟨y, hy, hyx⟩ := Option.map_eq_some_iff.mp hrun
    have hcalls : y.2 = x.2 := (ConfRun.mk.inj hyx).2.1
    have hlen := length_callEach hy
    rw [hcalls] at hlen
    exact List.filterMap_eq_nil_iff.mp (List.eq_nil_of_length_eq_zero (by omega))
  · intro hskip behind hbehind
    have hwith := entriesOf_with hT h hsize hbehind
    have hwithout := entriesOf_without (T := T) h hsize behind
    cases hx : callEach T rounds call (entriesOf T size before) (s, []) with
    | none =>
      constructor
      · rw [hwith, hwithout]
        exact (callLog_append hx).trans (callLog_append hx).symm
      · rw [fromConfFile_of_none hsize hwith hx, fromConfFile_of_none hsize hwithout hx]
    | some x =>
      have heq : entriesOf T size (before ++ line ++ behind) =
          entriesOf T size (before ++ behind) := by
        rw [hwith, hwithout, List.filterMap_eq_nil_iff.mpr (hskip x hx), List.nil_append]
      constructor
      · rw [heq]
      · rw [fromConfFile_eq hsize, fromConfFile_eq hsize, heq]

end Dib
