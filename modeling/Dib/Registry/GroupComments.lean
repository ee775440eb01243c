import Dib.Registry.Comments
import Dib.Registry.Operations

/-!
# Comments in group files

* `SameOps`: two group files lead to the same operations and the same status;
* `Idle`: a piece does nothing where it is read;
* `lineStep_quiet`, `pieces_quiet`: lines without operations are idle, or end a block;
* `exists_distinguishing`: after the end of a block, what comes next may be read differently;
* **`sameOps_iff`**: a comment can be deleted if and only if its further pieces are idle;
* **`comment_deletion_iff`**: so it is in all three functions that read such files.
-/

set_option autoImplicit false

namespace Dib

open CString Lines

/-! ## Operations -/

section Operations

variable (T : LibTestbox) (rounds : ℕ)

/-- The loops do the same operations for two group files, and end in the same way. -/
def SameOps (r : Registry) (file file' : List Char) : Prop :=
  fileOps T rounds r file = fileOps T rounds r file' ∧
    addGroupFromFile T rounds r (some file) = addGroupFromFile T rounds r (some file')

/-- A piece does nothing where it is read, and the reading goes on there. -/
def Idle (s : FileState) (piece : List Char) : Prop :=
  lineStep T rounds s piece = some s ∧ lineOps T rounds s piece = []

end Operations

/-- How many blocks are open. -/
def Place.depth : Place → ℕ
  | .outside => 0
  | .inGroup _ _ => 1
  | .inSuite _ _ => 2

/-- A line that one call may return. -/
def Readable (size : ℕ) (line : List Char) : Prop :=
  line.length ≤ size - 1 ∧ ('\n' ∉ line ∨ ∃ l, '\n' ∉ l ∧ line = l ++ ['\n'])

theorem readable_furtherPieces (size : ℕ) (line : List Char) :
    ∀ piece ∈ furtherPieces size line, Readable size piece := fun _ h =>
  forall_chunks (fun _ _ _ hget => ⟨fgets_length hget, fgets_newline hget⟩) line _
    (List.mem_of_mem_tail h)

variable {T : LibTestbox} {rounds size : ℕ} {before line behind text piece : List Char}
  {pieces : List (List Char)} {st st' : FileState} {r r' : Registry} {g p : ℕ} {q : Option ℕ}

theorem length_of_strstr {pat : List Char} (h : (strstr text pat).isSome = true) :
    pat.length ≤ text.length := by
  have hne : strstr text pat ≠ none := Option.isSome_iff_ne_none.mp h
  rw [ne_eq, strstr_eq_none_iff, not_not] at hne
  exact hne.length_le

theorem length_of_textLine (hT : T.Strips) (h : Readable T.TB_STR_LEN piece)
    (htext : textLine T piece = some text) : text.length ≤ T.TB_STR_LEN - 1 := by
  obtain ⟨-, ⟨⟩⟩ := Option.ite_none_left_eq_some.mp htext
  refine le_trans ?_ h.1
  rcases h.2 with h | ⟨l, hl, rfl⟩
  · rw [hT.other _ h]
  · rw [hT.newline l hl, List.length_append]
    exact Nat.le_add_right _ _

/-! ### Lines without operations -/

theorem groupLine_quiet (h : groupLine T text r = some st') (hops : groupOps text = []) :
    st' = (r, .outside) := by
  unfold groupLine at h
  unfold groupOps at hops
  split at h
  · exact (Option.some.inj h).symm
  · next t ht =>
    rw [ht] at hops
    obtain ⟨name, hname, rfl⟩ := Option.map_eq_some_iff.mp h
    by_cases hnil : name = []
    · rw [if_pos hnil]
    · simp only [bracketOps, hname, Option.elim_some, if_neg hnil, List.cons_ne_nil] at hops

theorem suiteLine_quiet (h : suiteLine T g text (r, q) = some st')
    (hops : suiteOps T g (r, q) text = []) : st' = (r, .inGroup g q) ∨
      st' = (r, .outside) ∧
        (strstr text ['E', 'N', 'D', '_', 'G', 'R', 'O', 'U', 'P']).isSome = true := by
  unfold suiteLine at h
  unfold suiteOps at hops
  split at h
  · next t ht =>
    rw [ht] at hops
    obtain ⟨name, hname, h1⟩ := Option.bind_eq_some_iff.mp h
    obtain ⟨p, hp, -⟩ := Option.map_eq_some_iff.mp h1
    simp only [bracketOps, hname, Option.elim_some, hp, List.append_eq_nil_iff, List.cons_ne_nil,
      and_false] at hops
  · split at h
    · next hend => exact .inr ⟨(Option.some.inj h).symm, by rw [hend]; rfl⟩
    · exact .inl (Option.some.inj h).symm

theorem strstr_of_ended (h : tcLine T rounds p text r = some (r', true)) :
    (strstr text ['E', 'N', 'D', '_', 'S', 'U', 'I', 'T', 'E']).isSome = true := by
  unfold tcLine at h
  split at h
  · obtain ⟨_, -, h1⟩ := Option.map_eq_some_iff.mp h
    cases h1
  split at h
  · obtain ⟨_, -, h1⟩ := Option.bind_eq_some_iff.mp h
    obtain ⟨_, -, h2⟩ := Option.map_eq_some_iff.mp h1
    cases h2
  split at h
  · obtain ⟨_, -, h1⟩ := Option.bind_eq_some_iff.mp h
    obtain ⟨_, -, h2⟩ := Option.map_eq_some_iff.mp h1
    cases h2
  · exact (Prod.mk.inj (Option.some.inj h)).2

/-- **A line without operations** ends a block, or is idle. -/
theorem lineStep_quiet (hT : T.Strips) (hpiece : Readable T.TB_STR_LEN piece)
    (h : lineStep T rounds st piece = some st') (hops : lineOps T rounds st piece = []) :
    st' = st ∨ st'.1 = st.1 ∧ st'.2.depth < st.2.depth ∧ 9 < T.TB_STR_LEN := by
  have hreg : st'.1 = st.1 := by rw [apply_lineOps h, hops]; rfl
  obtain ⟨r, place⟩ := st
  unfold lineStep at h
  unfold lineOps at hops
  split at h
  · exact .inl (Option.some.inj h).symm
  next text htext =>
  rw [htext] at hops
  have hlen := length_of_textLine hT hpiece htext
  cases place with
  | outside => exact .inl (groupLine_quiet h hops)
  | inGroup g q =>
    rcases suiteLine_quiet h hops with rfl | ⟨rfl, hend⟩
    · exact .inl rfl
    · have hkey : 9 ≤ text.length := length_of_strstr hend
      exact .inr ⟨rfl, Nat.zero_lt_one, by omega⟩
  | inSuite g p =>
    obtain ⟨⟨r', ended⟩, h1, rfl⟩ := Option.map_eq_some_iff.mp h
    obtain rfl : r' = r := hreg
    cases ended with
    | false => exact .inl rfl
    | true =>
      have hkey : 9 ≤ text.length := length_of_strstr (strstr_of_ended h1)
      exact .inr ⟨rfl, Nat.one_lt_two, by omega⟩

theorem run_of_idle (h : ∀ piece ∈ pieces, Idle T rounds st piece) :
    pieces.foldlM (lineStep T rounds) st = some st ∧ readOps T rounds st pieces = ([], true) := by
  induction pieces with
  | nil => exact ⟨rfl, rfl⟩
  | cons piece pieces ih =>
    obtain ⟨⟨hstep, hops⟩, htail⟩ := List.forall_mem_cons.mp h
    obtain ⟨hrun, hread⟩ := ih htail
    rw [List.foldlM_cons, hstep, readOps, hstep]
    dsimp only
    rw [hops, hread]
    exact ⟨hrun, rfl⟩

/-- **Pieces without operations** are idle, or end a block. -/
theorem pieces_quiet (hT : T.Strips) (hpieces : ∀ piece ∈ pieces, Readable T.TB_STR_LEN piece)
    (hops : readOps T rounds st pieces = ([], true)) : (∀ piece ∈ pieces, Idle T rounds st piece) ∨
      ∃ st', pieces.foldlM (lineStep T rounds) st = some st' ∧ st'.1 = st.1 ∧
        st'.2.depth < st.2.depth ∧ 9 < T.TB_STR_LEN := by
  induction pieces generalizing st with
  | nil => exact .inl fun piece h => absurd h List.not_mem_nil
  | cons piece pieces ih =>
    obtain ⟨hpiece, htail⟩ := List.forall_mem_cons.mp hpieces
    rw [readOps] at hops
    cases hstep : lineStep T rounds st piece with
    | none =>
      rw [hstep] at hops
      cases hops
    | some st₁ =>
      rw [hstep] at hops
      obtain ⟨h1, h2⟩ := Prod.mk.inj hops
      obtain ⟨hline, hrest⟩ := List.append_eq_nil_iff.mp h1
      have hread : readOps T rounds st₁ pieces = ([], true) := Prod.ext hrest h2
      rw [List.foldlM_cons, hstep]
      rcases lineStep_quiet hT hpiece hstep hline with rfl | ⟨hreg, hdepth, hlen⟩
      · exact (ih htail hread).imp_left fun h => List.forall_mem_cons.mpr ⟨⟨hstep, hline⟩, h⟩
      · refine .inr ?_
        rcases ih htail hread with hidle | ⟨st₂, hrun, hreg₂, hdepth₂, -⟩
        · exact ⟨st₁, (run_of_idle hidle).1, hreg, hdepth, hlen⟩
        · exact ⟨st₂, hrun, hreg₂.trans hreg, hdepth₂.trans hdepth, hlen⟩

/-! ### Idle lines -/

theorem readOps_cons_of_idle (h : Idle T rounds st piece) (pieces : List (List Char)) :
    readOps T rounds st (piece :: pieces) = readOps T rounds st pieces := by
  rw [readOps, h.1]
  dsimp only
  rw [h.2, List.nil_append]

theorem idle_outside (htext : textLine T piece = some text)
    (hgroup : after text ['G', 'R', 'O', 'U', 'P', '('] = none) (rounds : ℕ) (r : Registry) :
    Idle T rounds (r, .outside) piece := by
  constructor
  · rw [lineStep, htext]
    simp only [groupLine, hgroup]
  · rw [lineOps, htext]
    simp only [groupOps, hgroup]

theorem idle_inGroup (htext : textLine T piece = some text)
    (hsuite : after text ['S', 'U', 'I', 'T', 'E', '('] = none)
    (hend : strstr text ['E', 'N', 'D', '_', 'G', 'R', 'O', 'U', 'P'] = none) (rounds : ℕ)
    (r : Registry) (g : ℕ) (q : Option ℕ) : Idle T rounds (r, .inGroup g q) piece := by
  constructor
  · rw [lineStep, htext]
    simp only [suiteLine, hsuite, hend]
  · rw [lineOps, htext]
    simp only [suiteOps, hsuite]

/-! ### Lines that tell the places apart -/

/-- `DESCR()`, which does something in a suite only. -/
def emptyDescr : List Char := ['D', 'E', 'S', 'C', 'R', '(', ')']

/-- `GROUP(z)`, which does something outside the groups only. -/
def groupZ : List Char := ['G', 'R', 'O', 'U', 'P', '(', 'z', ')']

theorem chunks_oneLine {l : List Char} (hT : T.Strips) (hl : isText l = true) (hnul : NUL ∉ l)
    (hnl : '\n' ∉ l) (hlen : l.length + 1 < T.TB_STR_LEN) :
    ∃ piece, textLine T piece = some l ∧ chunks T.TB_STR_LEN (l ++ ['\n']) = [piece] := by
  refine ⟨cstr (l ++ ['\n']), textLine_text hT.newline hl hnul hnl, chunks_of_length_lt ?_ ?_ ?_⟩
  · exact List.append_ne_nil_of_right_ne_nil _ (List.cons_ne_nil _ _)
  · rw [List.length_append]
    exact hlen
  · rwa [List.dropLast_concat]

theorem readOps_ne_of_idle {v : FileOp} (hidle : Idle T rounds st' piece)
    (hstep : lineStep T rounds st piece ≠ none) (hops : lineOps T rounds st piece = [v]) :
    readOps T rounds st' [piece] ≠ readOps T rounds st [piece] := by
  obtain ⟨st₁, hst₁⟩ := Option.ne_none_iff_exists'.mp hstep
  rw [readOps_cons_of_idle hidle, readOps, readOps, hst₁]
  dsimp only
  rw [hops]
  exact fun h => List.cons_ne_nil _ _ (Prod.mk.inj h).1.symm

/-- **Two places** with different blocks open are told apart by what may come next. -/
theorem exists_distinguishing (hT : T.Strips) (rounds : ℕ) (hreg : st'.1 = st.1)
    (hdepth : st'.2.depth < st.2.depth) (hlen : 9 < T.TB_STR_LEN) :
    ∃ behind, readOps T rounds st' (chunks T.TB_STR_LEN behind) ≠
      readOps T rounds st (chunks T.TB_STR_LEN behind) := by
  obtain ⟨r, place⟩ := st
  obtain ⟨r', place'⟩ := st'
  obtain rfl : r' = r := hreg
  cases place with
  | outside => exact absurd hdepth (Nat.not_lt_zero _)
  | inGroup g q =>
    obtain ⟨piece, htext, hchunks⟩ := chunks_oneLine (l := groupZ) hT (by decide) (by decide)
      (by decide) (show 9 < _ from hlen)
    obtain rfl : place' = .outside := by
      cases place' with
      | outside => rfl
      | inGroup _ _ => exact absurd hdepth (lt_irrefl _)
      | inSuite _ _ => exact absurd hdepth (show ¬ 2 < 1 by decide)
    refine ⟨groupZ ++ ['\n'], ?_⟩
    rw [hchunks]
    refine (readOps_ne_of_idle (v := .groupAddnode ['z'])
      (idle_inGroup htext (by decide) (by decide) rounds r' g q) ?_ ?_).symm
    · rw [lineStep, htext]
      exact Option.some_ne_none _
    · rw [lineOps, htext]
      rfl
  | inSuite g p =>
    obtain ⟨piece, htext, hchunks⟩ := chunks_oneLine (l := emptyDescr) hT (by decide) (by decide)
      (by decide) (show 8 < _ from Nat.lt_of_succ_lt hlen)
    have hidle : Idle T rounds (r', place') piece := by
      cases place' with
      | outside => exact idle_outside htext (by decide) rounds r'
      | inGroup g' q' => exact idle_inGroup htext (by decide) (by decide) rounds r' g' q'
      | inSuite _ _ => exact absurd hdepth (lt_irrefl _)
    refine ⟨emptyDescr ++ ['\n'], ?_⟩
    rw [hchunks]
    refine readOps_ne_of_idle (v := .setDescr p []) hidle ?_ ?_
    · rw [lineStep, htext]
      exact Option.some_ne_none _
    · rw [lineOps, htext]
      rfl

/-! ### Comments -/

theorem idle_comment (T : LibTestbox) (rounds : ℕ) (st : FileState) (piece : List Char) :
    Idle T rounds st ('#' :: piece) := by
  have htext : textLine T ('#' :: piece) = none := if_pos (.inl rfl)
  constructor
  · rw [lineStep, htext]
  · rw [lineOps, htext]

theorem fileOps_with (h : CommentLine before line) (hbehind : CanFollow line behind)
    (hst : (chunks T.TB_STR_LEN before).foldlM (lineStep T rounds) (r, .outside) = some st) :
    fileOps T rounds r (before ++ line ++ behind) =
      ((readOps T rounds (r, .outside) (chunks T.TB_STR_LEN before)).1 ++
          (readOps T rounds st
            (furtherPieces T.TB_STR_LEN line ++ chunks T.TB_STR_LEN behind)).1,
        (readOps T rounds st
          (furtherPieces T.TB_STR_LEN line ++ chunks T.TB_STR_LEN behind)).2) := by
  obtain ⟨piece, rest, -, hline⟩ := chunks_comment h T.strLen_gt
  rw [fileOps, chunks_with h T.strLen_gt hbehind, readOps_append hst, hline, List.cons_append,
    readOps_cons_of_idle (idle_comment T rounds st piece)]

theorem fileOps_without (h : CommentLine before line) (behind : List Char)
    (hst : (chunks T.TB_STR_LEN before).foldlM (lineStep T rounds) (r, .outside) = some st) :
    fileOps T rounds r (before ++ behind) =
      ((readOps T rounds (r, .outside) (chunks T.TB_STR_LEN before)).1 ++
          (readOps T rounds st (chunks T.TB_STR_LEN behind)).1,
        (readOps T rounds st (chunks T.TB_STR_LEN behind)).2) := by
  rw [fileOps, chunks_without h T.strLen_gt, readOps_append hst]

theorem readOps_of_sameOps (h : CommentLine before line) (hbehind : CanFollow line behind)
    (hst : (chunks T.TB_STR_LEN before).foldlM (lineStep T rounds) (r, .outside) = some st)
    (hsame : SameOps T rounds r (before ++ line ++ behind) (before ++ behind)) :
    readOps T rounds st (furtherPieces T.TB_STR_LEN line ++ chunks T.TB_STR_LEN behind) =
      readOps T rounds st (chunks T.TB_STR_LEN behind) := by
  have hops := hsame.1
  rw [fileOps_with h hbehind hst, fileOps_without h behind hst] at hops
  obtain ⟨h1, h2⟩ := Prod.mk.inj hops
  exact Prod.ext (List.append_cancel_left h1) h2

theorem sameOps_of_fileOps {file file' : List Char}
    (h : fileOps T rounds r file = fileOps T rounds r file') : SameOps T rounds r file file' := by
  refine ⟨h, ?_⟩
  rw [addGroupFromFile_ops, addGroupFromFile_ops, h]

/-- **A comment in a group file** makes no difference, whatever comes after it, if and only if its
further pieces are idle where it stands; at the end of the file without a newline, if and only if
they do no operation; or a line before it faults. -/
theorem sameOps_iff (hT : T.Strips) (h : CommentLine before line) (rounds : ℕ) (r : Registry) :
    (∀ behind, CanFollow line behind →
        SameOps T rounds r (before ++ line ++ behind) (before ++ behind)) ↔
      ∀ st, (chunks T.TB_STR_LEN before).foldlM (lineStep T rounds) (r, .outside) = some st →
        (∀ piece ∈ furtherPieces T.TB_STR_LEN line, Idle T rounds st piece) ∨
          line.getLast? ≠ some '\n' ∧
            readOps T rounds st (furtherPieces T.TB_STR_LEN line) = ([], true) := by
  constructor
  · intro hsame st hst
    have hops : readOps T rounds st (furtherPieces T.TB_STR_LEN line) = ([], true) := by
      have hread := readOps_of_sameOps h (.inl rfl) hst (hsame [] (.inl rfl))
      rwa [chunks_nil, List.append_nil] at hread
    rcases pieces_quiet hT (readable_furtherPieces _ line) hops with
      hidle | ⟨st', hrun, hreg, hdepth, hlen⟩
    · exact .inl hidle
    refine .inr ⟨fun hline => ?_, hops⟩
    -- something may follow that is read in another place
    obtain ⟨behind, hne⟩ := exists_distinguishing hT rounds hreg hdepth hlen
    have hread := readOps_of_sameOps h (.inr hline) hst (hsame behind (.inr hline))
    rw [readOps_append hrun, hops, List.nil_append] at hread
    exact hne hread
  · intro hquiet behind hbehind
    refine sameOps_of_fileOps ?_
    cases hst : (chunks T.TB_STR_LEN before).foldlM (lineStep T rounds) (r, .outside) with
    | none =>
      rw [fileOps, chunks_with h T.strLen_gt hbehind, (readOps_of_fault hst).1, fileOps,
        chunks_without h T.strLen_gt, (readOps_of_fault hst).1]
    | some st =>
      rw [fileOps_with h hbehind hst, fileOps_without h behind hst]
      rcases hquiet st hst with hidle | ⟨hline, hops⟩
      · obtain ⟨hrun, hops⟩ := run_of_idle hidle
        rw [readOps_append hrun, hops, List.nil_append]
      · obtain rfl := hbehind.resolve_right hline
        rw [chunks_nil, List.append_nil, hops]
        rfl

/-! ## All three -/

section Statement

variable (H : Host) (rounds : ℕ)

/-- `find_libs_from_conf_file` makes the same loads for two files, and returns the same. -/
def SameLoads (answers : ℕ → LoadAnswers × TestcaseNod) (s : Daemon) (file file' : List Char) :
    Prop :=
  callLog H.testbox rounds (loadEntry H answers) s 0
      (entriesOf H.testbox H.loader.TB_MAX_PATH_LEN file) =
    callLog H.testbox rounds (loadEntry H answers) s 0
      (entriesOf H.testbox H.loader.TB_MAX_PATH_LEN file') ∧
  findLibsFromConfFile H rounds answers (some file) s =
    findLibsFromConfFile H rounds answers (some file') s

/-- `find_groups_from_conf_file` reads the same group files for two files, and returns the same. -/
def SameGroups (files : ℕ → List Char → Option (List Char)) (r : Registry)
    (file file' : List Char) : Prop :=
  callLog H.testbox rounds (groupEntry H rounds files) r 0
      (entriesOf H.testbox H.loader.TB_MAX_PATH_LEN file) =
    callLog H.testbox rounds (groupEntry H rounds files) r 0
      (entriesOf H.testbox H.loader.TB_MAX_PATH_LEN file') ∧
  findGroupsFromConfFile H rounds files (some file) r =
    findGroupsFromConfFile H rounds files (some file') r

end Statement

/-- **Comments have no effect** where their further pieces have none: in `find_libs_from_conf_file`,
in `find_groups_from_conf_file`, and in the loops of `add_group_from_file`. -/
theorem comment_deletion_iff (H : Host) (hT : H.testbox.Strips)
    (hsize : 1 < H.loader.TB_MAX_PATH_LEN) (h : CommentLine before line) (rounds : ℕ)
    (answers : ℕ → LoadAnswers × TestcaseNod) (files : ℕ → List Char → Option (List Char))
    (s : Daemon) :
    ((∀ behind, CanFollow line behind →
        SameLoads H rounds answers s (before ++ line ++ behind) (before ++ behind)) ↔
      ∀ x, callEach H.testbox rounds (loadEntry H answers)
          (entriesOf H.testbox H.loader.TB_MAX_PATH_LEN before) (s, []) = some x →
        ∀ piece ∈ furtherPieces H.loader.TB_MAX_PATH_LEN line, confEntry H.testbox piece = none) ∧
    ((∀ behind, CanFollow line behind →
        SameGroups H rounds files s.registry (before ++ line ++ behind) (before ++ behind)) ↔
      ∀ x, callEach H.testbox rounds (groupEntry H rounds files)
          (entriesOf H.testbox H.loader.TB_MAX_PATH_LEN before) (s.registry, []) = some x →
        ∀ piece ∈ furtherPieces H.loader.TB_MAX_PATH_LEN line, confEntry H.testbox piece = none) ∧
    ((∀ behind, CanFollow line behind →
        SameOps H.testbox rounds s.registry (before ++ line ++ behind) (before ++ behind)) ↔
      ∀ st, (chunks H.testbox.TB_STR_LEN before).foldlM (lineStep H.testbox rounds)
          (s.registry, .outside) = some st →
        (∀ piece ∈ furtherPieces H.testbox.TB_STR_LEN line, Idle H.testbox rounds st piece) ∨
          line.getLast? ≠ some '\n' ∧
            readOps H.testbox rounds st (furtherPieces H.testbox.TB_STR_LEN line) = ([], true)) :=
  ⟨sameCalls_iff hT h hsize rounds _ _ s, sameCalls_iff hT h hsize rounds _ _ s.registry,
    sameOps_iff hT h rounds s.registry⟩

theorem plainTestbox_strips : plainTestbox.Strips where
  newline l _ := by
    show (if (l ++ ['\n']).getLast? = some '\n' then (l ++ ['\n']).dropLast else l ++ ['\n']) = l
    rw [List.getLast?_concat, if_pos rfl, List.dropLast_concat]
  other l hl := by
    refine if_neg fun h => hl ?_
    exact List.mem_of_getLast? h

/-- `#c`, and a group behind it. -/
theorem comment_deletion_c :
    SameOps plainTestbox 0 .start ([] ++ ['#', 'c', '\n'] ++ openGroup) ([] ++ openGroup) := by
  have h : CommentLine [] ['#', 'c', '\n'] := ⟨.inl rfl, rfl, by decide⟩
  refine (comment_deletion_iff oneLibrary plainTestbox_strips (by decide) h 0 (failsAt 0)
    (fun _ _ => none) .start).2.2.mpr (fun st _ => .inl fun piece hpiece => ?_) openGroup (.inr rfl)
  rw [show furtherPieces oneLibrary.testbox.TB_STR_LEN ['#', 'c', '\n'] = [] from
    furtherPieces_of_fits h (by decide)] at hpiece
  exact absurd hpiece List.not_mem_nil

/-- The host with shorter paths. -/
def shortPaths : Host := { oneLibrary with loader := ⟨fun _ => 1, fun _ _ => False, 16⟩ }

/-- A comment that fills the buffer, and goes on. -/
def longComment (size : ℕ) (tail : List Char) : List Char :=
  '#' :: (List.replicate (size - 2) 'x' ++ tail)

/-- What it goes on with is read as a line of its own. -/
theorem longComment_read :
    CommentLine [] (longComment 16 ['l', '\n']) ∧ CommentLine [] (longComment 16 openGroup) ∧
    ¬ SameLoads shortPaths 0 (failsAt 1) .start
      ([] ++ longComment 16 ['l', '\n'] ++ []) ([] ++ []) ∧
    ¬ SameGroups shortPaths 0 (fun _ _ => none) .start
      ([] ++ longComment 16 ['l', '\n'] ++ []) ([] ++ []) ∧
    ¬ SameOps plainTestbox 0 .start ([] ++ longComment 16 openGroup ++ []) ([] ++ []) := by
  refine ⟨⟨.inl rfl, rfl, by decide⟩, ⟨.inl rfl, rfl, by decide⟩, fun h => ?_, fun h => ?_,
    fun h => ?_⟩
  · have hlog := h.1
    revert hlog
    decide
  · have hlog := h.1
    revert hlog
    decide
  · have hops := h.1
    revert hops
    decide

end Dib
