import Dib.Registry.GroupFile

/-!
# Files that declare groups

* `TestDecl`, `SuiteDecl`, `GroupDecl`: what a file says, with what makes it fit to be written;
  `linesOf` are its lines;
* `isText`: a file may have blank lines and comments between them;
* `register`: the operations of libtestbox that a declaration asks for, in order;
* **`addGroupFromFile_unlines`**: the file is read to its end, and these are performed.
-/

set_option autoImplicit false

namespace Dib

open CString Lines

/-! ## Declarations -/

/-- A name, a description or a token: no newline, no parenthesis. -/
def Plain (s : List Char) : Prop := ∀ c ∈ s, c ≠ '\n' ∧ c ≠ '(' ∧ c ≠ ')' ∧ c ≠ NUL

instance (s : List Char) : Decidable (Plain s) := List.decidableBAll _ s

/-- `TC(name args)`, for a registered case. -/
structure TestDecl (T : LibTestbox) (cases : List TestcaseNod) where
  name : List Char
  args : List (List Char)
  tc : TestcaseNod
  registered : cases.find? (fun c => cstr c.name = name) = some tc
  plain : ∀ a ∈ name :: args, Plain a
  token : ∀ a ∈ name :: args, a ≠ [] ∧ ' ' ∉ a
  slots : (name :: args).length < argSlots
  count : (name :: args).length ≤ T.TB_MAX_ARGS

/-- `SUITE(name)`, `DESCR(descr)` if there is one, the tests, `END_SUITE`. -/
structure SuiteDecl (T : LibTestbox) (cases : List TestcaseNod) where
  name : List Char
  descr : Option (List Char)
  tests : List (TestDecl T cases)
  name_ne : name ≠ []
  plain : Plain name
  descr_plain : ∀ d ∈ descr, Plain d

/-- `GROUP(name)`, the suites, `END_GROUP`. -/
structure GroupDecl (T : LibTestbox) (cases : List TestcaseNod) where
  name : List Char
  suites : List (SuiteDecl T cases)
  name_ne : name ≠ []
  plain : Plain name

variable {T : LibTestbox} {cases : List TestcaseNod}

/-- `keyword(text)`. -/
def bracket (keyword text : List Char) : List Char := keyword ++ '(' :: (text ++ [')'])

def TestDecl.tokens (d : TestDecl T cases) : List (List Char) := d.name :: d.args

def TestDecl.line (d : TestDecl T cases) : List Char :=
  bracket ['T', 'C'] ([' '].intercalate d.tokens)

def descrLine (descr : List Char) : List Char := bracket ['D', 'E', 'S', 'C', 'R'] descr

def endSuite : List Char := ['E', 'N', 'D', '_', 'S', 'U', 'I', 'T', 'E']

def endGroup : List Char := ['E', 'N', 'D', '_', 'G', 'R', 'O', 'U', 'P']

/-- The lines between `SUITE` and `END_SUITE`. -/
def SuiteDecl.body (s : SuiteDecl T cases) : List (List Char) :=
  s.descr.toList.map descrLine ++ s.tests.map TestDecl.line

def SuiteDecl.lines (s : SuiteDecl T cases) : List (List Char) :=
  bracket ['S', 'U', 'I', 'T', 'E'] s.name :: (s.body ++ [endSuite])

def GroupDecl.lines (g : GroupDecl T cases) : List (List Char) :=
  bracket ['G', 'R', 'O', 'U', 'P'] g.name :: (g.suites.flatMap SuiteDecl.lines ++ [endGroup])

/-- The lines of a file that declares these groups. -/
def linesOf (gs : List (GroupDecl T cases)) : List (List Char) := gs.flatMap GroupDecl.lines

/-- Neither a blank line nor a comment. -/
def isText (l : List Char) : Bool := l ≠ [] ∧ l.head? ≠ some '#'

/-! ## What they ask for -/

/-- The entry for a test. -/
def TestDecl.node (d : TestDecl T cases) : TestcaseNod :=
  { T.zeroInfo with
    name := strncpy T.zeroInfo.name (cstr d.tc.name) (T.TB_STR_LEN - 1)
    description := strncpy T.zeroInfo.description (cstr d.tc.description) (T.TB_STR_LEN - 1)
    valid_board := d.tc.valid_board
    is_extended := d.tc.is_extended
    function := d.tc.function
    argc := d.tokens.length
    args := T.copyArgs d.tokens }

def TestDecl.register (d : TestDecl T cases) (p : ℕ) (r : Registry) : Registry :=
  (tbSuiteAddtest T r p d.node).getD r

def SuiteDecl.register (s : SuiteDecl T cases) (g : ℕ) (r : Registry) : Registry :=
  let (r, p) := tbSuiteAddnode T r s.name
  let r := (tbGroupAddsuite T r g p).getD r
  let r := s.descr.elim r (setDescr T r p)
  s.tests.foldl (fun r d => d.register p r) r

def GroupDecl.register (g : GroupDecl T cases) (r : Registry) : Registry :=
  let (r, p) := tbGroupAddnode T r g.name
  g.suites.foldl (fun r s => s.register p r) r

def register (gs : List (GroupDecl T cases)) (r : Registry) : Registry :=
  gs.foldl (fun r g => g.register r) r

/-! ## Lines -/

variable {r : Registry} {rounds p : ℕ} {text keyword : List Char}

theorem after_bracket (keyword text : List Char) :
    after (bracket keyword text) (keyword ++ ['(']) = some (text ++ [')']) := by
  have hsplit : bracket keyword text = (keyword ++ ['(']) ++ (text ++ [')']) := by simp [bracket]
  rw [after, hsplit, strstr_prefix, Option.map_some, Nat.zero_add, List.drop_left]

theorem cutParen_concat (text : List Char) : cutParen (text ++ [')']) = some text := by
  rw [cutParen, strrchr_concat, Option.map_some, List.take_left]

theorem after_bracket_eq_none (pat : List Char) (htext : Plain text) (hkey : '(' ∉ keyword)
    (h : ¬ pat <:+ keyword) : after (bracket keyword text) (pat ++ ['(']) = none := by
  rw [after, Option.map_eq_none_iff, strstr_eq_none_iff]
  rintro ⟨u, v, huv⟩
  refine h ⟨u, ?_⟩
  have hsplit : keyword ++ '(' :: (text ++ [')']) = (u ++ pat) ++ '(' :: v := by
    rw [← bracket, ← huv]
    simp
  have hnot : '(' ∉ text ++ [')'] := by
    intro hmem
    rcases List.mem_append.mp hmem with hmem | hmem
    · exact (htext _ hmem).2.1 rfl
    · cases List.mem_singleton.mp hmem
  exact ((List.append_cons_inj_of_notMem hkey hnot).mp hsplit).1.symm

/-- What the code relies on: new nodes, and no refusals. -/
structure Obliging (T : LibTestbox) : Prop where
  strip_newline : ∀ l, '\n' ∉ l → T.strip_newline (l ++ ['\n']) = l
  tb_group_addnode : ∀ r name, T.tb_group_addnode r name = none
  tb_suite_addnode : ∀ r name, T.tb_suite_addnode r name = none
  tb_group_addsuite : ∀ r g p, T.tb_group_addsuite r g p = true
  tb_suite_addtest : ∀ r p t, T.tb_suite_addtest r p t = true

variable {l : List Char} {ls ts : List (List Char)}

theorem textLine_skip (h : ¬ isText l = true) : textLine T (cstr (l ++ ['\n'])) = none := by
  refine if_pos ?_
  cases l with
  | nil => exact .inr (by decide)
  | cons c l =>
    have hc : c = '#' := by simpa [isText] using h
    refine .inl ?_
    rw [hc]
    rfl

theorem textLine_text (hstrip : ∀ l, '\n' ∉ l → T.strip_newline (l ++ ['\n']) = l)
    (h : isText l = true) (hnul : NUL ∉ l) (hnl : '\n' ∉ l) :
    textLine T (cstr (l ++ ['\n'])) = some l := by
  obtain ⟨hne, hhead⟩ : l ≠ [] ∧ l.head? ≠ some '#' := by simpa [isText] using h
  have hnul' : NUL ∉ l ++ ['\n'] := fun hmem => by
    rcases List.mem_append.mp hmem with hmem | hmem
    · exact hnul hmem
    · exact absurd (List.mem_singleton.mp hmem) (by decide)
  rw [cstr_of_notMem hnul', textLine, if_neg, hstrip l hnl]
  rintro (h1 | h1)
  · rw [List.head?_append_of_ne_nil _ hne] at h1
    exact hhead h1
  · have h2 := List.length_pos_of_ne_nil hne
    rw [List.length_append, List.length_singleton] at h1
    omega

/-- A line that is neither blank nor a comment, and has no terminator in it. -/
def Written (l : List Char) : Prop := isText l = true ∧ NUL ∉ l

theorem written_bracket {c : Char} (hc : c ≠ '#') (hkey : NUL ∉ c :: keyword) (htext : Plain text) :
    Written (bracket (c :: keyword) text) := by
  refine ⟨by simp [isText, bracket, hc], fun h => ?_⟩
  rcases List.mem_append.mp h with h | h
  · exact hkey h
  rcases List.mem_cons.mp h with h | h
  · exact absurd h (by decide)
  rcases List.mem_append.mp h with h | h
  · exact (htext _ h).2.2.2 rfl
  · exact absurd (List.mem_singleton.mp h) (by decide)

/-! ## The lines of a suite -/

theorem plain_intercalate {ws : List (List Char)} (h : ∀ w ∈ ws, Plain w) :
    Plain ([' '].intercalate ws) := by
  intro c hc
  rcases mem_intercalate hc with rfl | ⟨w, hw, hcw⟩
  · decide
  · exact h w hw c hcw

theorem tcLine_descr (T : LibTestbox) (rounds p : ℕ) (r : Registry) (descr : List Char) :
    tcLine T rounds p (descrLine descr) r = some (setDescr T r p descr, false) := by
  have hafter : after (descrLine descr) ['D', 'E', 'S', 'C', 'R', '('] = some (descr ++ [')']) :=
    after_bracket ['D', 'E', 'S', 'C', 'R'] descr
  rw [tcLine, hafter]
  dsimp only
  rw [cutParen_concat, Option.map_some]

theorem addTestFunction_line (d : TestDecl T cases) (hr : r.cases = cases) :
    addTestFunction T p ([' '].intercalate d.tokens) r = some (d.register p r) := by
  have hargs : strtok ([' '].intercalate d.tokens) ' ' = d.tokens :=
    strtok_intercalate (List.cons_ne_nil _ _) d.token
  have hlookup : tbCaseLookupnode r d.name = some d.tc := by
    rw [tbCaseLookupnode, hr]
    exact d.registered
  have hslots : ¬ argSlots ≤ d.tokens.length := Nat.not_le_of_lt d.slots
  have hcount : ¬ T.TB_MAX_ARGS < d.tokens.length := Nat.not_lt_of_le d.count
  have hhead : d.tokens.head? = some d.name := rfl
  simp only [addTestFunction, hargs, hhead]
  rw [if_neg hslots, hlookup]
  dsimp only
  rw [if_neg hcount]
  rfl

theorem tcLine_test (d : TestDecl T cases) (hr : r.cases = cases) :
    tcLine T rounds p d.line r = some (d.register p r, false) := by
  have hplain : Plain ([' '].intercalate d.tokens) := plain_intercalate d.plain
  have hdescr : after d.line ['D', 'E', 'S', 'C', 'R', '('] = none :=
    after_bracket_eq_none ['D', 'E', 'S', 'C', 'R'] hplain (by decide) (by decide)
  have htc : after d.line ['T', 'C', '('] = some ([' '].intercalate d.tokens ++ [')']) :=
    after_bracket ['T', 'C'] _
  rw [tcLine, hdescr]
  dsimp only
  rw [htc]
  dsimp only
  rw [cutParen_concat, Option.bind_some, addTestFunction_line d hr, Option.map_some]

theorem tcLine_endSuite : tcLine T rounds p endSuite r = some (r, true) := by
  have h1 : after endSuite ['D', 'E', 'S', 'C', 'R', '('] = none := by decide
  have h2 : after endSuite ['T', 'C', '('] = none := by decide
  have h3 : after endSuite ['E', 'X', 'E', 'C', '('] = none := by decide
  have h4 : (strstr endSuite ['E', 'N', 'D', '_', 'S', 'U', 'I', 'T', 'E']).isSome = true := by
    decide
  rw [tcLine, h1]
  dsimp only
  rw [h2]
  dsimp only
  rw [h3]
  dsimp only
  rw [h4]

/-! ## The loops -/

section Loops

variable {σ β : Type} {body : List Char → σ → List Char → Option (Round σ β)}
  {eof : σ → List Char → β}

theorem loop_line (hT : Obliging T)
    (hshrinks : ∀ line s file s' file', body line s file = some (.next s' file') →
      file'.length ≤ file.length)
    (hskip : ∀ line s file, textLine T line = none → body line s file = some (.next s file))
    (hfits : Fits T.TB_STR_LEN ls) (hls : ls.filter isText = l :: ts) (hl : NUL ∉ l) (s : σ) :
    ∃ ls' line, ls'.filter isText = ts ∧ Fits T.TB_STR_LEN ls' ∧ textLine T line = some l ∧
      loop T.TB_STR_LEN body eof s (unlines ls) =
        afterRound T.TB_STR_LEN body eof (body line s (unlines ls')) := by
  have hmem : l ∈ ls ∧ isText l = true := by
    rw [← List.mem_filter, hls]
    exact List.mem_cons_self
  obtain ⟨ls', hts, hfits', hloop⟩ := loop_text T.strLen_gt hshrinks
    (fun l s file h => hskip _ s file (textLine_skip h)) hfits hls
  exact ⟨ls', _, hts, hfits', textLine_text hT.strip_newline hmem.2 hl (hfits l hmem.1).1, hloop⟩

end Loops

theorem addTc_line (rounds : ℕ) (hT : Obliging T) (hfits : Fits T.TB_STR_LEN ls)
    (hls : ls.filter isText = l :: ts) (hl : NUL ∉ l) {r' : Registry} {ended : Bool}
    (hline : tcLine T rounds p l r = some (r', ended)) :
    ∃ ls', ls'.filter isText = ts ∧ Fits T.TB_STR_LEN ls' ∧
      addTcFromFile T rounds p r (unlines ls) =
        if ended then some (r', unlines ls', true)
        else addTcFromFile T rounds p r' (unlines ls') := by
  obtain ⟨ls', line, hts, hfits', htext, hloop⟩ := loop_line hT
    (fun line r file r' file' => @shrinks_addTcBody T r rounds p line file file' r')
    (fun line r file h => by rw [addTcBody, h]) hfits hls hl r
  refine ⟨ls', hts, hfits', hloop.trans ?_⟩
  rw [addTcBody, htext]
  dsimp only
  rw [hline]
  cases ended with
  | true => rfl
  | false => rfl

theorem cases_register (d : TestDecl T cases) : (d.register p r).cases = r.cases := by
  rw [TestDecl.register]
  cases h : tbSuiteAddtest T r p d.node with
  | none => rfl
  | some r' => exact cases_tbSuiteAddtest h

theorem written_line (d : TestDecl T cases) : Written d.line :=
  written_bracket (by decide) (by decide) (plain_intercalate d.plain)

theorem addTc_tests (rounds : ℕ) (hT : Obliging T) (tests : List (TestDecl T cases))
    (hr : r.cases = cases) (hfits : Fits T.TB_STR_LEN ls)
    (hls : ls.filter isText = tests.map TestDecl.line ++ endSuite :: ts) :
    ∃ ls', ls'.filter isText = ts ∧ Fits T.TB_STR_LEN ls' ∧
      addTcFromFile T rounds p r (unlines ls) =
        some (tests.foldl (fun r d => d.register p r) r, unlines ls', true) := by
  induction tests generalizing r ls with
  | nil =>
    obtain ⟨ls', hts, hfits', hend⟩ := addTc_line rounds hT hfits hls (by decide)
      (tcLine_endSuite (p := p) (r := r))
    exact ⟨ls', hts, hfits', hend⟩
  | cons d tests ih =>
    obtain ⟨ls₁, hts₁, hfits₁, hline⟩ := addTc_line rounds hT hfits hls (written_line d).2
      (tcLine_test d hr)
    obtain ⟨ls', hts, hfits', htests⟩ := ih ((cases_register d).trans hr) hfits₁ hts₁
    exact ⟨ls', hts, hfits', hline.trans htests⟩

theorem addTc_suite (rounds : ℕ) (hT : Obliging T) (s : SuiteDecl T cases) (hr : r.cases = cases)
    (hfits : Fits T.TB_STR_LEN ls) (hls : ls.filter isText = s.body ++ endSuite :: ts) :
    ∃ ls', ls'.filter isText = ts ∧ Fits T.TB_STR_LEN ls' ∧
      addTcFromFile T rounds p r (unlines ls) =
        some (s.tests.foldl (fun r d => d.register p r) (s.descr.elim r (setDescr T r p)),
          unlines ls', true) := by
  rw [SuiteDecl.body] at hls
  cases hd : s.descr with
  | none =>
    rw [hd] at hls
    exact addTc_tests rounds hT s.tests hr hfits hls
  | some d =>
    rw [hd] at hls
    have hwritten : Written (descrLine d) :=
      written_bracket (by decide) (by decide) (s.descr_plain d hd)
    obtain ⟨ls₁, hts₁, hfits₁, hline⟩ := addTc_line rounds hT hfits hls hwritten.2
      (tcLine_descr T rounds p r d)
    obtain ⟨ls', hts, hfits', htests⟩ :=
      addTc_tests (r := setDescr T r p d) rounds hT s.tests hr hfits₁ hts₁
    exact ⟨ls', hts, hfits', hline.trans htests⟩

theorem cases_registerSuite (hT : Obliging T) (s : SuiteDecl T cases) (g : ℕ) :
    (s.register g r).cases = r.cases := by
  have htests : ∀ (tests : List (TestDecl T cases)) (p : ℕ) (r : Registry),
      (tests.foldl (fun r d => d.register p r) r).cases = r.cases := by
    intro tests p
    induction tests with
    | nil => exact fun _ => rfl
    | cons d tests ih => exact fun r => (ih _).trans (cases_register d)
  have hdescr : ∀ (p : ℕ) (r : Registry), (s.descr.elim r (setDescr T r p)).cases = r.cases := by
    intro p r
    cases s.descr <;> rfl
  rw [SuiteDecl.register]
  dsimp only
  rw [htests, hdescr, tbGroupAddsuite, if_pos (hT.tb_group_addsuite _ _ _)]
  exact cases_tbSuiteAddnode T r s.name

theorem addSuiteBody_suite (hT : Obliging T) {g : ℕ} {line file : List Char} {si : Option ℕ}
    (s : SuiteDecl T cases)
    (hline : textLine T line = some (bracket ['S', 'U', 'I', 'T', 'E'] s.name)) :
    addSuiteBody T rounds g line (r, si) file =
      (addTcFromFile T rounds (tbSuiteAddnode T r s.name).2
        ((tbGroupAddsuite T (tbSuiteAddnode T r s.name).1 g (tbSuiteAddnode T r s.name).2).getD
          (tbSuiteAddnode T r s.name).1) file).map fun (r', file', _) =>
            .next (r', some (tbSuiteAddnode T r s.name).2) file' := by
  have hafter : after (bracket ['S', 'U', 'I', 'T', 'E'] s.name) ['S', 'U', 'I', 'T', 'E', '('] =
      some (s.name ++ [')']) := after_bracket ['S', 'U', 'I', 'T', 'E'] s.name
  simp only [addSuiteBody, hline, hafter, cutParen_concat, if_neg s.name_ne, tbGroupAddsuite,
    if_pos (hT.tb_group_addsuite _ _ _), Option.getD_some]

theorem addSuiteBody_endGroup {g : ℕ} {line file : List Char} {st : Registry × Option ℕ}
    (hline : textLine T line = some endGroup) :
    addSuiteBody T rounds g line st file = some (.ret (st.1, file, true)) := by
  have hafter : after endGroup ['S', 'U', 'I', 'T', 'E', '('] = none := by decide
  have hend : strstr endGroup ['E', 'N', 'D', '_', 'G', 'R', 'O', 'U', 'P'] = some 0 := by decide
  simp only [addSuiteBody, hline, hafter, hend]

theorem addSuite_suites (rounds : ℕ) (hT : Obliging T) (g : ℕ) (suites : List (SuiteDecl T cases))
    (si : Option ℕ) (hr : r.cases = cases) (hfits : Fits T.TB_STR_LEN ls)
    (hls : ls.filter isText = suites.flatMap SuiteDecl.lines ++ endGroup :: ts) :
    ∃ ls', ls'.filter isText = ts ∧ Fits T.TB_STR_LEN ls' ∧
      loop T.TB_STR_LEN (addSuiteBody T rounds g) (fun s file => (s.1, file, false)) (r, si)
          (unlines ls) =
        some (suites.foldl (fun r s => s.register g r) r, unlines ls', true) := by
  -- the next line of the group, as the loop sees it
  have hnext : ∀ (st : Registry × Option ℕ) {l : List Char} {ls ts : List (List Char)},
      Fits T.TB_STR_LEN ls → ls.filter isText = l :: ts → NUL ∉ l →
      ∃ ls' line, ls'.filter isText = ts ∧ Fits T.TB_STR_LEN ls' ∧ textLine T line = some l ∧
        loop T.TB_STR_LEN (addSuiteBody T rounds g) (fun s file => (s.1, file, false)) st
            (unlines ls) =
          afterRound T.TB_STR_LEN (addSuiteBody T rounds g) (fun s file => (s.1, file, false))
            (addSuiteBody T rounds g line st (unlines ls')) :=
    fun st _ _ _ hfits hls hl => loop_line hT
      (fun line s file s' file' => @shrinks_addSuiteBody T rounds g line file file' s s')
      (fun line s file h => by rw [addSuiteBody, h]) hfits hls hl st
  induction suites generalizing r si ls with
  | nil =>
    obtain ⟨ls', line, hts, hfits', hline, hloop⟩ := hnext (r, si) hfits hls (by decide)
    rw [addSuiteBody_endGroup hline] at hloop
    exact ⟨ls', hts, hfits', hloop⟩
  | cons s suites ih =>
    simp only [List.flatMap_cons, SuiteDecl.lines, List.cons_append, List.append_assoc,
      List.nil_append] at hls
    obtain ⟨ls₁, line, hts₁, hfits₁, hline, hloop⟩ := hnext (r, si) hfits hls
      (written_bracket (by decide) (by decide) s.plain).2
    rw [addSuiteBody_suite hT s hline] at hloop
    have hcases : ((tbGroupAddsuite T (tbSuiteAddnode T r s.name).1 g
        (tbSuiteAddnode T r s.name).2).getD (tbSuiteAddnode T r s.name).1).cases = cases := by
      rw [tbGroupAddsuite, if_pos (hT.tb_group_addsuite _ _ _)]
      exact (cases_tbSuiteAddnode T r s.name).trans hr
    obtain ⟨ls₂, hts₂, hfits₂, hsuite⟩ := addTc_suite rounds hT s hcases hfits₁ hts₁
    rw [hsuite, Option.map_some] at hloop
    obtain ⟨ls', hts, hfits', hrest⟩ := ih _ ((cases_registerSuite hT s g).trans hr) hfits₂ hts₂
    exact ⟨ls', hts, hfits', hloop.trans hrest⟩

theorem addGroupBody_group {line file : List Char} (g : GroupDecl T cases)
    (hline : textLine T line = some (bracket ['G', 'R', 'O', 'U', 'P'] g.name)) :
    addGroupBody T rounds line r file =
      (addSuiteFromFile T rounds (tbGroupAddnode T r g.name).2 (tbGroupAddnode T r g.name).1
        file).map fun (r', file', _) => .next r' file' := by
  have hafter : after (bracket ['G', 'R', 'O', 'U', 'P'] g.name) ['G', 'R', 'O', 'U', 'P', '('] =
      some (g.name ++ [')']) := after_bracket ['G', 'R', 'O', 'U', 'P'] g.name
  simp only [addGroupBody, hline, hafter, cutParen_concat, if_neg g.name_ne]

theorem cases_registerGroup (hT : Obliging T) (g : GroupDecl T cases) :
    (g.register r).cases = r.cases := by
  have hsuites : ∀ (suites : List (SuiteDecl T cases)) (p : ℕ) (r : Registry),
      (suites.foldl (fun r s => s.register p r) r).cases = r.cases := by
    intro suites p
    induction suites with
    | nil => exact fun _ => rfl
    | cons s suites ih => exact fun r => (ih _).trans (cases_registerSuite hT s p)
  exact (hsuites _ _ _).trans (cases_tbGroupAddnode T r g.name)

/-- **The file is read to its end**, and what it declares is registered. -/
theorem addGroupFromFile_unlines (rounds : ℕ) (hT : Obliging T) (gs : List (GroupDecl T cases))
    (hr : r.cases = cases) (hfits : Fits T.TB_STR_LEN ls) (hls : ls.filter isText = linesOf gs) :
    addGroupFromFile T rounds r (some (unlines ls)) = some (register gs r, true) := by
  show loop T.TB_STR_LEN (addGroupBody T rounds) (fun r _ => (r, true)) r (unlines ls) = _
  have hshrinks : ∀ line r file r' file',
      addGroupBody T rounds line r file = some (.next r' file') → file'.length ≤ file.length :=
    fun _ _ _ _ _ => shrinks_addGroupBody
  have hskip : ∀ line r file, textLine T line = none →
      addGroupBody T rounds line r file = some (.next r file) := fun line r file h => by
    rw [addGroupBody, h]
  induction gs generalizing r ls with
  | nil =>
    exact loop_blank T.strLen_gt hshrinks (fun l r file h => hskip _ r file (textLine_skip h))
      hfits hls
  | cons g gs ih =>
    simp only [linesOf, List.flatMap_cons, GroupDecl.lines, List.cons_append, List.append_assoc,
      List.nil_append] at hls
    obtain ⟨ls₁, line, hts₁, hfits₁, hline, hloop⟩ := loop_line hT hshrinks hskip hfits hls
      (written_bracket (by decide) (by decide) g.plain).2 r
    rw [addGroupBody_group g hline] at hloop
    have hcases : (tbGroupAddnode T r g.name).1.cases = cases :=
      (cases_tbGroupAddnode T r g.name).trans hr
    obtain ⟨ls₂, hts₂, hfits₂, hsuites⟩ := addSuite_suites rounds hT
      (tbGroupAddnode T r g.name).2 g.suites none hcases hfits₁ hts₁
    have hgroup : addSuiteFromFile T rounds (tbGroupAddnode T r g.name).2
        (tbGroupAddnode T r g.name).1 (unlines ls₁) = _ := hsuites
    rw [hgroup, Option.map_some] at hloop
    exact hloop.trans (ih ((cases_registerGroup hT g).trans hr) hfits₂ hts₂)

end Dib
