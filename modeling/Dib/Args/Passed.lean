import Dib.Args.WellFormed
import Mathlib.Data.List.Forall2

/-!
# What a test is given

A test is meant to get its own name and, in order, what is neither an option nor the value of one.

* `Word`, `words`, `testArgs`: the arguments in question, and what the test is meant to get;
* `Rows`, `Rows.push`: what the loop makes of the words;
* `Holds`, `holds_word`, **`holds_words`**: the record holds these rows;
* `Rows.Before`, `foldl_push_name`: the rows before and after the name was found;
* **`testArgs_iff`**: the test gets what it is meant to when all words before its name are empty and
  `--maxtmo` has no value but the name.
-/

set_option autoImplicit false

namespace Dib

open CString

/-! ## Statement -/

/-- An argument that the loop does not take for an option. -/
structure Word where
  index : ℕ
  text : List Char
  /-- It is the value of `--maxtmo`, which the loop does not skip. -/
  isValue : Bool
  deriving DecidableEq, Repr

/-- The words of a command from the `i`-th argument on. -/
def words : List (List Char) → ℕ → List Word
  | [], _ => []
  | arg :: rest, i =>
    match keywordOf arg with
    | none => ⟨i, arg, false⟩ :: words rest (i + 1)
    | some k =>
      if k.takesValue then
        match rest with
        | [] => []
        | value :: rest =>
          if k.skips then words rest (i + 2) else ⟨i + 1, value, true⟩ :: words rest (i + 2)
      else words rest (i + 1)

/-- The word names a test that has a handler. -/
def CmdBox.selects (B : CmdBox) (w : Word) : Bool := (B.kindOf w.index w.text).isSome

/-- **What the test is meant to get**: its name, and the words but for that one and for values. -/
def testArgs (B : CmdBox) (argv : List (List Char)) : List (List Char) :=
  match (words argv.tail 1).find? B.selects with
  | none => []
  | some name =>
    name.text ::
      (((words argv.tail 1).eraseP B.selects).filter fun w => ! w.isValue).map Word.text

/-- The words before the name are empty, and none but the name is a value. -/
def NameFirst (B : CmdBox) (argv : List (List Char)) : Prop :=
  (∀ w ∈ (words argv.tail 1).takeWhile fun w => ! B.selects w, w.text = []) ∧
    ∀ w ∈ (words argv.tail 1).eraseP B.selects, w.isValue = false

/-! ## Rows -/

variable {B : CmdBox} {beyond : List Char} {s s' : ParseState} {i : ℕ} {w : Word}

/-- The strings in the first `argc` rows of the record, and the handler. -/
structure Rows where
  rows : List (List Char)
  threadfunc : Option HandlerKind

/-- One more word: a name is written to row 0, and a row is left empty. -/
def Rows.push (B : CmdBox) (r : Rows) (w : Word) : Rows :=
  if r.threadfunc = none ∧ B.IsName w.index w.text then
    ⟨(r.rows ++ [[]]).set 0 w.text, B.kindOf w.index w.text⟩
  else ⟨r.rows ++ [w.text], r.threadfunc⟩

theorem Rows.length_push (r : Rows) (w : Word) :
    (r.push B w).rows.length = r.rows.length + 1 := by
  unfold Rows.push
  split_ifs <;> simp

/-- The record holds the rows; all others are zero. -/
structure Holds (B : CmdBox) (r : Rows) (s : ParseState) : Prop where
  threadfunc : s.threadfunc = r.threadfunc
  argc : s.args.argc = r.rows.length
  rows : s.args.argv.map cstr = r.rows ++ List.replicate (B.TB_MAX_ARGS - r.rows.length) []
  row_end : ∀ row ∈ s.args.argv, B.ZeroEnd row

theorem Holds.write {r : Rows} (h : Holds B r s) (k : Keyword) (sec : Option ℤ)
    (value : List Char) : Holds B r (s.withArgs (k.write B sec value s.args)) := by
  refine ⟨h.threadfunc, ?_, ?_, ?_⟩
  · show (k.write B sec value s.args).argc = _
    rw [Keyword.write_argc, h.argc]
  · show (k.write B sec value s.args).argv.map cstr = _
    rw [Keyword.write_argv, h.rows]
  · show ∀ row ∈ (k.write B sec value s.args).argv, B.ZeroEnd row
    rw [Keyword.write_argv]
    exact h.row_end

theorem append_replicate_set {rows : List (List Char)} {n j : ℕ} (hn : rows.length < n)
    (hj : j ≤ rows.length) (t : List Char) :
    (rows ++ List.replicate (n - rows.length) []).set j t =
      (rows ++ [[]]).set j t ++ List.replicate (n - (rows.length + 1)) [] := by
  have hsplit : n - rows.length = n - (rows.length + 1) + 1 := by omega
  have hlt : j < (rows ++ [([] : List Char)]).length := by
    rw [List.length_append, List.length_singleton]
    omega
  rw [hsplit, List.replicate_succ, ← List.singleton_append, ← List.append_assoc,
    List.set_append_left _ _ hlt]

/-- **One word.** -/
theorem holds_word {r : Rows} (h : Holds B r s) (hroom : r.rows.length < B.TB_MAX_ARGS)
    (htext : NUL ∉ w.text ∧ w.text.length < B.TB_STR_LEN)
    (hs : parseWord B w.index w.text s = .next s') : Holds B (r.push B w) s' := by
  have hcopy : cstr (B.copyOf w.text) = w.text := cstr_copyOf htext.1 htext.2
  rw [parseWord_eq, h.threadfunc] at hs
  unfold Rows.push
  by_cases hname : r.threadfunc = none ∧ B.IsName w.index w.text
  · rw [if_pos hname] at hs ⊢
    unfold selectTest at hs
    split at hs
    · cases hs
    next a' hw =>
    obtain ⟨-, rfl⟩ := writeArg_eq_some
      (a := { s.args with node_name := strncpy s.args.node_name w.text (B.TB_STR_LEN - 1) })
      h.row_end hw
    obtain rfl := OptionResult.next.inj hs
    refine ⟨rfl, ?_, ?_, zeroEnd_set h.row_end⟩
    · show s.args.argc + 1 = _
      simp [h.argc]
    · show (s.args.argv.set 0 (B.copyOf w.text)).map cstr = _
      rw [List.map_set, hcopy, h.rows, append_replicate_set hroom (Nat.zero_le _)]
      simp
  · rw [if_neg hname] at hs ⊢
    split at hs
    · cases hs
    next a' hw =>
    obtain ⟨-, rfl⟩ := writeArg_eq_some h.row_end hw
    obtain rfl := OptionResult.next.inj hs
    refine ⟨h.threadfunc, ?_, ?_, zeroEnd_set h.row_end⟩
    · show s.args.argc + 1 = _
      simp [h.argc]
    · show (s.args.argv.set s.args.argc (B.copyOf w.text)).map cstr = _
      rw [List.map_set, hcopy, h.rows, h.argc, append_replicate_set hroom le_rfl]
      simp

/-- **The loop**: the words are pushed one after the other. -/
theorem holds_words {rest : List (List Char)} {r : Rows} (h : Holds B r s)
    (hroom : r.rows.length + (words rest i).length ≤ B.TB_MAX_ARGS)
    (hrest : ∀ arg ∈ rest, NUL ∉ arg ∧ arg.length < B.TB_STR_LEN)
    (hs : parseOptions B beyond rest i s = .done s') :
    Holds B ((words rest i).foldl (Rows.push B) r) s' := by
  fun_induction words rest i generalizing s r with
  | case1 i =>
    obtain rfl := Parsed.done.inj hs
    exact h
  | case2 arg rest i hkey ih =>
    obtain ⟨s₁, hword, hs⟩ := (parseOptions_word_done hkey).mp hs
    rw [List.length_cons] at hroom
    have h1 := holds_word (w := ⟨i, arg, false⟩) h (by omega) (hrest _ List.mem_cons_self) hword
    refine ih h1 ?_ (fun arg harg => hrest arg (List.mem_cons_of_mem _ harg)) hs
    rw [Rows.length_push]
    omega
  | case3 arg i k hkey hval =>
    obtain ⟨-, hs⟩ := (parseOptions_keyword_done hkey).mp hs
    rw [List.tail_nil, ite_self, parseOptions] at hs
    obtain rfl := Parsed.done.inj hs
    exact h.write k _ beyond
  | case4 arg i k hkey hval value rest hskip ih =>
    obtain ⟨-, hs⟩ := (parseOptions_keyword_done hkey).mp hs
    rw [if_pos hskip, if_pos hskip] at hs
    exact ih (h.write k _ value) hroom
      (fun arg harg => hrest arg (List.mem_cons_of_mem _ (List.mem_cons_of_mem _ harg))) hs
  | case5 arg i k hkey hval value rest hskip ih =>
    -- the value of `--maxtmo` is looked at again, and is no option
    obtain ⟨hacc, hs⟩ := (parseOptions_keyword_done hkey).mp hs
    obtain rfl := Keyword.eq_maxtmo hval hskip
    obtain ⟨s₁, hword, hs⟩ := (parseOptions_word_done (keywordOf_of_maxtmo hacc)).mp hs
    rw [List.length_cons] at hroom
    have h1 := holds_word (w := ⟨i + 1, value, true⟩) (h.write .maxtmo _ value) (by omega)
      (hrest _ (List.mem_cons_of_mem _ List.mem_cons_self)) hword
    refine ih h1 ?_
      (fun arg harg => hrest arg (List.mem_cons_of_mem _ (List.mem_cons_of_mem _ harg))) hs
    rw [Rows.length_push]
    omega
  | case6 arg rest i k hkey hval ih =>
    obtain ⟨-, hs⟩ := (parseOptions_keyword_done hkey).mp hs
    have hskip : ¬ k.skips = true := fun hskip => hval (Keyword.takesValue_of_skips hskip)
    rw [if_neg hskip, if_neg hskip] at hs
    exact ih (h.write k _ _) hroom (fun arg harg => hrest arg (List.mem_cons_of_mem _ harg)) hs

theorem length_words_le (rest : List (List Char)) (i : ℕ) :
    (words rest i).length ≤ rest.length := by
  fun_induction words rest i <;> simp only [List.length_cons, List.length_nil] <;> omega

/-! ## The rows when a test was found -/

theorem foldl_push_some (kind : HandlerKind) (ws : List Word) (rows : List (List Char)) :
    ws.foldl (Rows.push B) ⟨rows, some kind⟩ = ⟨rows ++ ws.map Word.text, some kind⟩ := by
  induction ws generalizing rows with
  | nil => simp
  | cons w ws ih =>
    have hpush : Rows.push B ⟨rows, some kind⟩ w = ⟨rows ++ [w.text], some kind⟩ := by
      rw [Rows.push, if_neg (fun h => Option.some_ne_none kind h.1)]
    rw [List.foldl_cons, hpush, ih, List.map_cons, List.append_assoc, List.singleton_append]

/-- The rows of words that select nothing: from the second on, each is that of its word or empty. -/
structure Rows.Before (r : Rows) (ws : List Word) : Prop where
  threadfunc : r.threadfunc = none
  length : r.rows.length = ws.length
  tail : List.Forall₂ (fun row w => row = [] ∨ row = w.text) r.rows.tail ws.tail

theorem forall₂_tail_concat {α β : Type*} {R : α → β → Prop} {l : List α} {m : List β} {x : α}
    {y : β} (hlen : l.length = m.length) (h : List.Forall₂ R l.tail m.tail) (hxy : R x y) :
    List.Forall₂ R (l ++ [x]).tail (m ++ [y]).tail := by
  cases l with
  | nil =>
    obtain rfl := List.length_eq_zero_iff.mp hlen.symm
    exact .nil
  | cons a l =>
    cases m with
    | nil => cases hlen
    | cons b m => exact List.rel_append h (.cons hxy .nil)

/-- One more word that selects nothing. It may be called a name: then its row is empty. -/
theorem Rows.Before.push {r : Rows} {ws : List Word} (h : r.Before ws)
    (hw : B.selects w = false) : (r.push B w).Before (ws ++ [w]) := by
  have hkind : B.kindOf w.index w.text = none := by
    rwa [CmdBox.selects, Option.isSome_eq_false_iff, Option.isNone_iff_eq_none] at hw
  have hlen : (r.push B w).rows.length = (ws ++ [w]).length := by
    rw [Rows.length_push, h.length, List.length_append, List.length_singleton]
  obtain ⟨rows, threadfunc⟩ := r
  obtain rfl : threadfunc = none := h.threadfunc
  by_cases hname : B.IsName w.index w.text
  · have hpush : Rows.push B ⟨rows, none⟩ w = ⟨(rows ++ [[]]).set 0 w.text, none⟩ := by
      rw [Rows.push, if_pos ⟨rfl, hname⟩, hkind]
    rw [hpush] at hlen ⊢
    refine ⟨rfl, hlen, ?_⟩
    -- only the head is another
    have htail : ((rows ++ [[]]).set 0 w.text).tail = (rows ++ [[]]).tail := by
      cases rows <;> rfl
    show List.Forall₂ _ ((rows ++ [[]]).set 0 w.text).tail _
    rw [htail]
    exact forall₂_tail_concat h.length h.tail (.inl rfl)
  · have hpush : Rows.push B ⟨rows, none⟩ w = ⟨rows ++ [w.text], none⟩ := by
      rw [Rows.push, if_neg (fun h => hname h.2)]
    rw [hpush] at hlen ⊢
    exact ⟨rfl, hlen, forall₂_tail_concat h.length h.tail (.inr rfl)⟩

theorem before_foldl_push (ws : List Word) (hws : ∀ w ∈ ws, B.selects w = false) :
    (ws.foldl (Rows.push B) ⟨[], none⟩).Before ws := by
  induction ws using List.reverseRecOn with
  | nil => exact ⟨rfl, rfl, .nil⟩
  | append_singleton ws w ih =>
    rw [List.foldl_append, List.foldl_cons, List.foldl_nil]
    exact (ih fun w hw => hws w (List.mem_append_left _ hw)).push (hws w (by simp))

theorem shifted_iff {rows : List (List Char)} {ws : List Word} {w : Word}
    (h : List.Forall₂ (fun row w => row = [] ∨ row = w.text) rows ws) :
    rows ++ [[]] = w.text :: ws.map Word.text ↔ w.text = [] ∧ ∀ v ∈ ws, v.text = [] := by
  induction h generalizing w with
  | nil => simp [eq_comm]
  | @cons row v rows ws hrow h ih =>
    rw [List.map_cons, List.cons_append, List.cons.injEq, ih, List.forall_mem_cons]
    constructor
    · rintro ⟨rfl, hv, hws⟩
      refine ⟨?_, hv, hws⟩
      rcases hrow with hrow | hrow
      · exact hrow
      · rw [hrow, hv]
    · rintro ⟨hw, hv, hws⟩
      refine ⟨?_, hv, hws⟩
      rcases hrow with hrow | hrow
      · rw [hrow, hw]
      · rw [hrow, hv, hw]

theorem Rows.Before.tail_eq_iff {r : Rows} {ws : List Word} (h : r.Before ws) :
    (r.rows ++ [[]]).tail = ws.map Word.text ↔ ∀ w ∈ ws, w.text = [] := by
  obtain ⟨rows, threadfunc⟩ := r
  have hlen : rows.length = ws.length := h.length
  have htail : List.Forall₂ _ rows.tail ws.tail := h.tail
  cases rows with
  | nil =>
    obtain rfl := List.length_eq_zero_iff.mp hlen.symm
    simp
  | cons row rows =>
    cases ws with
    | nil => cases hlen
    | cons w ws =>
      rw [List.cons_append, List.tail_cons, List.map_cons, List.forall_mem_cons]
      exact shifted_iff htail

/-- **The rows of a whole command**, up to and from the name on. -/
theorem foldl_push_name {pre : List Word} {name : Word} {kind : HandlerKind} (post : List Word)
    (hpre : ∀ w ∈ pre, B.selects w = false) (hname : B.kindOf name.index name.text = some kind) :
    ∃ rows : Rows, rows.Before pre ∧
      (pre ++ name :: post).foldl (Rows.push B) ⟨[], none⟩ =
        ⟨name.text :: (rows.rows ++ [[]]).tail ++ post.map Word.text, some kind⟩ := by
  have h := before_foldl_push pre hpre
  refine ⟨_, h, ?_⟩
  have hpush : Rows.push B (pre.foldl (Rows.push B) ⟨[], none⟩) name =
      ⟨name.text :: ((pre.foldl (Rows.push B) ⟨[], none⟩).rows ++ [[]]).tail, some kind⟩ := by
    rw [Rows.push, if_pos ⟨h.threadfunc, CmdBox.isName_of_kindOf hname⟩, hname]
    cases (pre.foldl (Rows.push B) ⟨[], none⟩).rows <;> rfl
  rw [List.foldl_append, List.foldl_cons, hpush, foldl_push_some]

theorem exists_name {ws : List Word} {kind : HandlerKind}
    (h : (ws.foldl (Rows.push B) ⟨[], none⟩).threadfunc = some kind) :
    ∃ pre name post kind, ws = pre ++ name :: post ∧ (∀ w ∈ pre, B.selects w = false) ∧
      B.kindOf name.index name.text = some kind := by
  have hfind : ws.find? B.selects ≠ none := by
    intro hnone
    have hws : ∀ w ∈ ws, B.selects w = false := by
      simpa using List.find?_eq_none.mp hnone
    rw [(before_foldl_push ws hws).threadfunc] at h
    cases h
  obtain ⟨name, hname⟩ := Option.ne_none_iff_exists'.mp hfind
  obtain ⟨hsel, pre, post, rfl, hpre⟩ := List.find?_eq_some_iff_append.mp hname
  obtain ⟨kind', hkind'⟩ := Option.isSome_iff_exists.mp hsel
  exact ⟨pre, name, post, kind', rfl, fun w hw => by simpa using hpre w hw, hkind'⟩

/-! ## What is meant -/

variable {argv : List (List Char)} {pre post : List Word} {name : Word}

theorem testArgs_of_words (hwords : words argv.tail 1 = pre ++ name :: post)
    (hpre : ∀ w ∈ pre, B.selects w = false) (hname : B.selects name = true) :
    testArgs B argv =
      name.text :: ((pre ++ post).filter fun w => ! w.isValue).map Word.text := by
  have hfind : (pre ++ name :: post).find? B.selects = some name := by
    rw [List.find?_eq_some_iff_append]
    exact ⟨hname, pre, post, rfl, fun w hw => by rw [hpre w hw]; rfl⟩
  have herase : (pre ++ name :: post).eraseP B.selects = pre ++ post := by
    rw [List.eraseP_append_right _ (fun w hw => by rw [hpre w hw]; decide),
      List.eraseP_cons_of_pos hname]
  rw [testArgs, hwords, hfind, herase]

theorem nameFirst_of_words (hwords : words argv.tail 1 = pre ++ name :: post)
    (hpre : ∀ w ∈ pre, B.selects w = false) (hname : B.selects name = true) :
    NameFirst B argv ↔ (∀ w ∈ pre, w.text = []) ∧ ∀ w ∈ pre ++ post, w.isValue = false := by
  have htake : (pre ++ name :: post).takeWhile (fun w => ! B.selects w) = pre := by
    rw [List.takeWhile_append_of_pos (fun w hw => by rw [hpre w hw]; rfl),
      List.takeWhile_cons_of_neg (by rw [hname]; decide), List.append_nil]
  have herase : (pre ++ name :: post).eraseP B.selects = pre ++ post := by
    rw [List.eraseP_append_right _ (fun w hw => by rw [hpre w hw]; decide),
      List.eraseP_cons_of_pos hname]
  rw [NameFirst, hwords, htake, herase]

/-- A row too many stands for each value of `--maxtmo`, so there must be none. -/
theorem append_eq_filter_iff {T : List (List Char)} (hT : T.length = pre.length) :
    T ++ post.map Word.text = ((pre ++ post).filter fun w => ! w.isValue).map Word.text ↔
      T = pre.map Word.text ∧ ∀ w ∈ pre ++ post, w.isValue = false := by
  constructor
  · intro h
    have hlen : ((pre ++ post).filter fun w => ! w.isValue).length = (pre ++ post).length := by
      rw [← List.length_map (f := Word.text), ← h, List.length_append, List.length_append,
        List.length_map, hT]
    have hall : ∀ w ∈ pre ++ post, w.isValue = false := by
      simpa using List.length_filter_eq_length_iff.mp hlen
    rw [List.filter_eq_self.mpr (by simpa using hall), List.map_append] at h
    exact ⟨(List.append_inj h (by rw [hT, List.length_map])).1, hall⟩
  · rintro ⟨rfl, hall⟩
    rw [List.filter_eq_self.mpr (by simpa using hall), List.map_append]

/-! ## The command -/

theorem cstr_zeros : cstr B.zeros = [] := by
  unfold CmdBox.zeros
  cases B.TB_STR_LEN <;> simp [List.replicate_succ, cstr]

theorem holds_creatDefaultThreadArgs {a : CmdArgs} (h : creatDefaultThreadArgs B = some a)
    (socket : ℤ) : Holds B ⟨[], none⟩ ⟨{ a with socket := socket }, none, B.zeros⟩ := by
  unfold creatDefaultThreadArgs at h
  obtain ⟨-, ⟨⟩⟩ := Option.ite_none_right_eq_some.mp h
  refine ⟨rfl, rfl, ?_, fun row hrow => ?_⟩
  · simp [cstr_zeros]
  · obtain rfl := List.eq_of_mem_replicate hrow
    rfl

theorem Holds.toThreadArgs {r : Rows} (h : Holds B r s) :
    s.args.toThreadArgs.argv = r.rows := by
  simp only [CmdArgs.toThreadArgs]
  rw [List.map_take, h.rows, h.argc, List.take_left]

/-- **A test gets what it is meant to** if and only if no word but the empty one stands before its
name, and no value of `--maxtmo` is taken for an argument. -/
theorem testArgs_iff {fd : ℤ} {wait : Bool} {kind : HandlerKind} {a : CmdArgs}
    {str : List Char} (h : cmdParse B argv beyond fd = .launched wait kind a str)
    (hargs : ∀ arg ∈ argv, NUL ∉ arg ∧ arg.length < B.TB_STR_LEN)
    (hmax : argv.length ≤ B.TB_MAX_ARGS) :
    a.toThreadArgs.argv = testArgs B argv ↔ NameFirst B argv := by
  obtain ⟨-, -, a₀, s, ha₀, hs, -, hkind, rfl, -, -⟩ := cmdParse_launched_iff.mp h
  have hroom : (words argv.tail 1).length ≤ B.TB_MAX_ARGS := by
    refine (length_words_le _ _).trans (le_trans ?_ hmax)
    rw [List.length_tail]
    exact Nat.sub_le _ _
  have hholds := holds_words (holds_creatDefaultThreadArgs ha₀ fd) (by simpa using hroom)
    (fun arg harg => hargs arg (List.mem_of_mem_tail harg)) hs
  obtain ⟨pre, name, post, kind', hwords, hpre, hname⟩ :=
    exists_name (hholds.threadfunc.symm.trans hkind)
  have hsel : B.selects name = true := by rw [CmdBox.selects, hname]; rfl
  obtain ⟨rows, hbefore, hfold⟩ := foldl_push_name post hpre hname
  rw [hwords, hfold] at hholds
  have hlen : (rows.rows ++ [[]]).tail.length = pre.length := by
    rw [List.length_tail, List.length_append, hbefore.length]
    rfl
  rw [hholds.toThreadArgs, testArgs_of_words hwords hpre hsel,
    nameFirst_of_words hwords hpre hsel, List.cons_append, List.cons.injEq,
    append_eq_filter_iff hlen, hbefore.tail_eq_iff]
  simp

/-- `caseBox` with room for more arguments. -/
def roomyBox : CmdBox := { caseBox with TB_MAX_ARGS := 8 }

/-- The record of `t` with the argument `arg` and nothing else but a level, loops and a timeout. -/
def plainArgs (arg : List Char) (loops max_timeout : ℤ) : CmdArgs where
  socket := 4
  verbose_level := 0
  wait_for_response := false
  extended := false
  gen_xml_file := false
  stop_on_fail := false
  loops := loops
  max_timeout := max_timeout
  execution_time := 0
  execution_dly_time := 0
  node_name := roomyBox.copyOf ['t']
  argc := 2
  argv := roomyBox.copyOf ['t'] :: roomyBox.copyOf arg :: List.replicate 6 roomyBox.zeros

/-- `dibc t --loop 2 x`. -/
def loopCommand : List (List Char) := ["dibc", "t", "--loop", "2", "x"].map String.toList

/-- The number of loops is skipped. -/
theorem testArgs_iff_loop :
    (plainArgs ['x'] 2 0).toThreadArgs.argv = testArgs roomyBox loopCommand := by
  have hparse : cmdParse roomyBox loopCommand [] 4 =
      .launched false .case (plainArgs ['x'] 2 0) ['t'] := rfl
  exact (testArgs_iff hparse (by decide) (by decide)).mpr (by unfold NameFirst; decide)

/-- `dibc t --maxtmo 5`. -/
def maxtmoCommand : List (List Char) := ["dibc", "t", "--maxtmo", "5"].map String.toList

/-- The timeout is not. -/
theorem maxtmoCommand_passes :
    cmdParse roomyBox maxtmoCommand [] 4 = .launched false .case (plainArgs ['5'] 1 5) ['t'] ∧
      (plainArgs ['5'] 1 5).toThreadArgs.argv ≠ testArgs roomyBox maxtmoCommand :=
  ⟨rfl, by decide⟩

end Dib
