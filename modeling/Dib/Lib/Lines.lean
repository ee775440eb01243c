import Dib.Lib.CString

/-!
# Reading a file line by line

A file is what is left of its characters.

* `fgets`: one call, which reads a line or the part of it that fits;
* `Round`, `whileFgets`: the loop `while (fgets(line, size, file) != NULL)`, whose body may read on
  and may return;
* **`whileFgets_inv`**: what the body keeps, the loop keeps; `whileFgets_mono`: what it does, the
  loop does;
* **`whileFgets_stable`**: the loop takes fewer rounds than the file has characters, so that the
  bound on them does not matter;
* `loop`: the loop with as many rounds as it needs;
* `chunks`: all the lines that are read; **`loop_bind_eq`**: nested loops are a fold over them;
  `loop_eq_foldlM`: so is a loop whose body reads no further; `flatten_chunks_eq_iff`: the lines
  put together;
* `Whole`, **`chunks_append`**: whole lines are read in the same pieces whatever comes after them;
  `chunks_of_length_lt`: a line that fits is one piece;
* `unlines`, `Fits`, **`loop_text`**, `loop_blank`: the loop over a file that is written line by
  line, some of which it skips.
-/

set_option autoImplicit false

namespace Lines

open CString

universe u v w

/-- At most `n` characters, up to the first newline: those, and the rest. -/
def readLine : ℕ → List Char → List Char × List Char
  | 0, file => ([], file)
  | _ + 1, [] => ([], [])
  | n + 1, c :: file =>
    if c = '\n' then ([c], file) else (c :: (readLine n file).1, (readLine n file).2)

/-- `fgets(line, size, file)`: the string then in `line`, and the rest of the file. -/
def fgets (size : ℕ) (file : List Char) : Option (List Char × List Char) :=
  if file = [] then none
  else some (cstr (readLine (size - 1) file).1, (readLine (size - 1) file).2)

/-- The end of a round: go on with this state and file, or return. -/
inductive Round (σ : Type u) (β : Type v) where
  | next (s : σ) (file : List Char)
  | ret (b : β)

variable {σ : Type u} {β : Type v}

/-- A round that goes on meets `I`, and one that returns meets `R`. -/
def Round.Meets (I : σ → List Char → Prop) (R : β → Prop) : Round σ β → Prop
  | .next s file => I s file
  | .ret b => R b

/-- `while (fgets(line, size, file) != NULL)`, in at most `n` rounds; `body` and `eof` may fault. -/
def whileFgets (size : ℕ) (body : List Char → σ → List Char → Option (Round σ β))
    (eof : σ → List Char → β) : ℕ → σ → List Char → Option β
  | 0, _, _ => none
  | n + 1, s, file =>
    match fgets size file with
    | none => some (eof s file)
    | some (line, file) =>
      match body line s file with
      | none => none
      | some (.ret b) => some b
      | some (.next s file) => whileFgets size body eof n s file

/-! ## One call -/

theorem readLine_append (n : ℕ) (file : List Char) :
    (readLine n file).1 ++ (readLine n file).2 = file := by
  induction n generalizing file with
  | zero => rfl
  | succ n ih =>
    cases file with
    | nil => rfl
    | cons c file =>
      unfold readLine
      split
      · rfl
      · simp [ih]

theorem readLine_ne_nil {n : ℕ} {file : List Char} (hn : 0 < n) (hf : file ≠ []) :
    (readLine n file).1 ≠ [] := by
  obtain ⟨n, rfl⟩ := Nat.exists_eq_succ_of_ne_zero hn.ne'
  cases file with
  | nil => exact absurd rfl hf
  | cons c file =>
    unfold readLine
    split <;> simp

variable {size : ℕ} {line file rest : List Char}

theorem length_lt_of_fgets (hsize : 1 < size) (h : fgets size file = some (line, rest)) :
    rest.length < file.length := by
  unfold fgets at h
  split at h
  · cases h
  · next hf =>
    obtain ⟨-, rfl⟩ := Prod.mk.inj (Option.some.inj h)
    have h1 := congrArg List.length (readLine_append (size - 1) file)
    have h2 := List.length_pos_of_ne_nil (readLine_ne_nil (n := size - 1) (by omega) hf)
    rw [List.length_append] at h1
    omega

/-! ## The loop -/

variable {body : List Char → σ → List Char → Option (Round σ β)} {eof : σ → List Char → β} {s : σ}
  {b : β} {m n : ℕ}

/-- **Invariants of the loop**, about its state and the rest of the file. -/
theorem whileFgets_inv {I : σ → List Char → Prop} {R : β → Prop} (hs : I s file)
    (hbody : ∀ line s file rest x, I s file → fgets size file = some (line, rest) →
      body line s rest = some x → x.Meets I R)
    (heof : ∀ s file, I s file → R (eof s file))
    (h : whileFgets size body eof n s file = some b) : R b := by
  induction n generalizing s file with
  | zero => cases h
  | succ n ih =>
    unfold whileFgets at h
    split at h
    · obtain rfl := Option.some.inj h
      exact heof s _ hs
    · next hget =>
      split at h
      · cases h
      · next hx =>
        obtain rfl := Option.some.inj h
        exact hbody _ _ _ _ _ hs hget hx
      · next hx => exact ih (hbody _ _ _ _ _ hs hget hx) h

/-- A body that does more gives a loop that does. -/
theorem whileFgets_mono {body' : List Char → σ → List Char → Option (Round σ β)}
    (hbody : ∀ line s file x, body line s file = some x → body' line s file = some x)
    (h : whileFgets size body eof n s file = some b) :
    whileFgets size body' eof n s file = some b := by
  induction n generalizing s file with
  | zero => exact h
  | succ n ih =>
    unfold whileFgets at h ⊢
    split at h
    · exact h
    · split at h
      · cases h
      · next hx =>
        rw [hbody _ _ _ _ hx]
        exact h
      · next hx =>
        rw [hbody _ _ _ _ hx]
        exact ih h

/-- **The bound on the rounds does not matter** when it exceeds the length of the file. -/
theorem whileFgets_stable (hsize : 1 < size)
    (hbody : ∀ line s file s' file', body line s file = some (.next s' file') →
      file'.length ≤ file.length) (hn : file.length < n) (hm : file.length < m) :
    whileFgets size body eof n s file = whileFgets size body eof m s file := by
  induction n generalizing s file m with
  | zero => omega
  | succ n ih =>
    obtain ⟨m, rfl⟩ := Nat.exists_eq_succ_of_ne_zero (Nat.ne_of_gt (Nat.zero_lt_of_lt hm))
    rw [whileFgets, whileFgets]
    split
    · rfl
    · next hget =>
      have h1 := length_lt_of_fgets hsize hget
      split
      · rfl
      · rfl
      · next hb =>
        have h2 := hbody _ _ _ _ _ hb
        exact ih (by omega) (by omega)

/-- The loop, in as many rounds as it needs. -/
def loop (size : ℕ) (body : List Char → σ → List Char → Option (Round σ β))
    (eof : σ → List Char → β) (s : σ) (file : List Char) : Option β :=
  whileFgets size body eof (file.length + 1) s file

/-- What follows a round. -/
def afterRound (size : ℕ) (body : List Char → σ → List Char → Option (Round σ β))
    (eof : σ → List Char → β) : Option (Round σ β) → Option β
  | none => none
  | some (.ret b) => some b
  | some (.next s file) => loop size body eof s file

theorem loop_of_fgets (eof : σ → List Char → β) (s : σ) (hsize : 1 < size)
    (hbody : ∀ line s file s' file', body line s file = some (.next s' file') →
      file'.length ≤ file.length) (h : fgets size file = some (line, rest)) :
    loop size body eof s file = afterRound size body eof (body line s rest) := by
  rw [loop, whileFgets, h]
  dsimp only
  split
  · next hx => rw [hx]; rfl
  · next hx => rw [hx]; rfl
  · next s' file' hx =>
    rw [hx, afterRound]
    have h1 := length_lt_of_fgets hsize h
    have h2 := hbody _ _ _ _ _ hx
    exact whileFgets_stable hsize hbody (by omega) (Nat.lt_succ_self _)

/-! ## The loop as a fold -/

/-- The lines that at most `n` calls read. -/
def chunksFrom (size : ℕ) : ℕ → List Char → List (List Char)
  | 0, _ => []
  | n + 1, file =>
    match fgets size file with
    | none => []
    | some (line, file) => line :: chunksFrom size n file

/-- All the lines that the calls read. -/
def chunks (size : ℕ) (file : List Char) : List (List Char) :=
  chunksFrom size (file.length + 1) file

theorem chunksFrom_stable (hsize : 1 < size) (hn : file.length < n) (hm : file.length < m) :
    chunksFrom size n file = chunksFrom size m file := by
  induction n generalizing file m with
  | zero => omega
  | succ n ih =>
    obtain ⟨m, rfl⟩ := Nat.exists_eq_succ_of_ne_zero (Nat.ne_of_gt (Nat.zero_lt_of_lt hm))
    rw [chunksFrom, chunksFrom]
    split
    · rfl
    · next hget =>
      have h1 := length_lt_of_fgets hsize hget
      rw [ih (m := m) (by omega) (by omega)]

theorem chunks_nil (size : ℕ) : chunks size [] = [] := rfl

theorem chunks_of_fgets (hsize : 1 < size) (h : fgets size file = some (line, rest)) :
    chunks size file = line :: chunks size rest := by
  rw [chunks, chunksFrom, h]
  dsimp only
  have h1 := length_lt_of_fgets hsize h
  rw [chunks, chunksFrom_stable hsize h1 (Nat.lt_succ_self _)]

theorem exists_of_foldlM_eq_none {τ : Type u} {α : Type v} {f : τ → α → Option τ} {t : τ}
    {l : List α} (h : l.foldlM f t = none) :
    ∃ before x behind t', l = before ++ x :: behind ∧ before.foldlM f t = some t' ∧
      f t' x = none := by
  induction l generalizing t with
  | nil => cases h
  | cons x l ih =>
    cases hx : f t x with
    | none => exact ⟨[], x, l, t, rfl, rfl, hx⟩
    | some t₁ =>
      rw [List.foldlM_cons, hx] at h
      obtain ⟨before, y, behind, t', rfl, hbefore, hy⟩ := ih h
      refine ⟨x :: before, y, behind, t', rfl, ?_, hy⟩
      rw [List.foldlM_cons, hx]
      exact hbefore

/-- What comes after a round. -/
def Round.follow {γ : Type w} (next : σ → List Char → Option γ) (ret : β → Option γ) :
    Round σ β → Option γ
  | .next s file => next s file
  | .ret b => ret b

/-- **A loop among others is a fold over the lines.** `F` is what the fold makes of the rest of the
file, in a state of the loop (`emb`) or in the one that `K` goes on with. -/
theorem loop_bind_eq {τ : Type u} {γ : Type w} (F : τ → List Char → Option γ) (emb : σ → τ)
    (K : β → Option γ) (hsize : 1 < size)
    (hshrinks : ∀ line s file s' file', body line s file = some (.next s' file') →
      file'.length ≤ file.length)
    (heof : ∀ s, K (eof s []) = F (emb s) [])
    (hbody : ∀ line s file rest, fgets size file = some (line, rest) →
      (body line s rest).bind (Round.follow (fun s file => F (emb s) file) K) = F (emb s) file)
    (s : σ) (file : List Char) : (loop size body eof s file).bind K = F (emb s) file := by
  induction hn : file.length using Nat.strong_induction_on generalizing s file with
  | _ n ih =>
    subst hn
    cases hget : fgets size file with
    | none =>
      have hnil : file = [] := by
        by_contra hne
        rw [fgets, if_neg hne] at hget
        cases hget
      subst hnil
      exact heof s
    | some x =>
      obtain ⟨line, rest⟩ := x
      have hlt := length_lt_of_fgets hsize hget
      rw [loop_of_fgets eof s hsize hshrinks hget, ← hbody line s file rest hget]
      cases hx : body line s rest with
      | none => rfl
      | some x =>
        cases x with
        | ret b => rfl
        | next s' file' =>
          have hle := hshrinks _ _ _ _ _ hx
          exact ih _ (by omega) s' file' rfl

/-- **A loop whose body reads no further** and does not return. -/
theorem loop_eq_foldlM {f : σ → List Char → Option σ} (hsize : 1 < size)
    (hbody : ∀ line s file, body line s file = (f s line).map fun s => .next s file)
    (s : σ) (file : List Char) :
    loop size body eof s file = ((chunks size file).foldlM f s).map fun s => eof s [] := by
  rw [← Option.bind_fun_some (loop size body eof s file)]
  refine loop_bind_eq (fun s file => ((chunks size file).foldlM f s).map fun s => eof s []) id some
    hsize (fun line s file s' file' h => ?_) (fun _ => rfl) (fun line s file rest hget => ?_) s file
  · rw [hbody] at h
    obtain ⟨s₁, -, h1⟩ := Option.map_eq_some_iff.mp h
    cases h1
    exact le_rfl
  · rw [hbody, chunks_of_fgets hsize hget, List.foldlM_cons, id_eq]
    cases f s line with
    | none => rfl
    | some s' => rfl

/-- **The pieces make up the file** exactly when no NUL cuts one of them. -/
theorem flatten_chunks_eq_iff (hsize : 1 < size) (file : List Char) :
    (chunks size file).flatten = file ↔ NUL ∉ file := by
  constructor
  · intro h hmem
    rw [← h, List.mem_flatten] at hmem
    obtain ⟨piece, hpiece, hmem⟩ := hmem
    -- every piece is the string of an array
    have hcut : ∀ n file, ∀ piece ∈ chunksFrom size n file, NUL ∉ piece := by
      intro n
      induction n with
      | zero => exact fun file piece hp => absurd hp List.not_mem_nil
      | succ n ih =>
        intro file piece hp
        rw [chunksFrom] at hp
        split at hp
        · exact absurd hp List.not_mem_nil
        · next line rest hget =>
          rcases List.mem_cons.mp hp with rfl | hp
          · unfold fgets at hget
            split at hget
            · cases hget
            · obtain ⟨rfl, -⟩ := Prod.mk.inj (Option.some.inj hget)
              exact NUL_notMem_cstr _
          · exact ih rest piece hp
    exact hcut _ file piece hpiece hmem
  · induction hn : file.length using Nat.strong_induction_on generalizing file with
    | _ n ih =>
      subst hn
      intro hz
      by_cases hne : file = []
      · rw [hne]
        rfl
      have hsplit := readLine_append (size - 1) file
      have hget : fgets size file =
          some (cstr (readLine (size - 1) file).1, (readLine (size - 1) file).2) := if_neg hne
      have hz' : NUL ∉ (readLine (size - 1) file).1 ∧ NUL ∉ (readLine (size - 1) file).2 := by
        rwa [← hsplit, List.mem_append, not_or] at hz
      rw [chunks_of_fgets hsize hget, List.flatten_cons, cstr_of_notMem hz'.1,
        ih _ (length_lt_of_fgets hsize hget) _ rfl hz'.2, hsplit]

/-! ## Whole lines -/

/-- Nothing, or whole lines. -/
def Whole (file : List Char) : Prop := file = [] ∨ file.getLast? = some '\n'

instance (file : List Char) : Decidable (Whole file) := inferInstanceAs (Decidable (_ ∨ _))

variable {before l : List Char}

theorem Whole.of_cons {c : Char} (h : (c :: l).getLast? = some '\n') : Whole l := by
  cases l with
  | nil => exact .inl rfl
  | cons d l => exact .inr (by rwa [List.getLast?_cons_cons] at h)

theorem readLine_whole (hbefore : Whole before) (hne : before ≠ []) (n : ℕ) (file : List Char) :
    readLine n (before ++ file) = ((readLine n before).1, (readLine n before).2 ++ file) ∧
      Whole (readLine n before).2 := by
  induction n generalizing before with
  | zero => exact ⟨rfl, hbefore⟩
  | succ n ih =>
    obtain ⟨c, l, rfl⟩ := List.exists_cons_of_ne_nil hne
    have hlast : (c :: l).getLast? = some '\n' := hbefore.resolve_left hne
    rw [List.cons_append, readLine, readLine]
    split_ifs with hc
    · exact ⟨rfl, Whole.of_cons hlast⟩
    · have hl : l ≠ [] := by
        rintro rfl
        exact hc (Option.some.inj hlast)
      obtain ⟨h1, h2⟩ := ih (Whole.of_cons hlast) hl
      rw [h1]
      exact ⟨rfl, h2⟩

/-- **What is read of whole lines** does not depend on what comes after them. -/
theorem chunks_append (hsize : 1 < size) (hbefore : Whole before) (file : List Char) :
    chunks size (before ++ file) = chunks size before ++ chunks size file := by
  induction hn : before.length using Nat.strong_induction_on generalizing before with
  | _ n ih =>
    subst hn
    by_cases hne : before = []
    · rw [hne]
      rfl
    obtain ⟨h1, h2⟩ := readLine_whole hbefore hne (size - 1) file
    have hget : fgets size before =
        some (cstr (readLine (size - 1) before).1, (readLine (size - 1) before).2) :=
      if_neg hne
    have hget' : fgets size (before ++ file) =
        some (cstr (readLine (size - 1) before).1, (readLine (size - 1) before).2 ++ file) := by
      rw [fgets, if_neg fun h => hne (List.append_eq_nil_iff.mp h).1, h1]
    have hrest := ih _ (length_lt_of_fgets hsize hget) h2 rfl
    rw [chunks_of_fgets hsize hget, chunks_of_fgets hsize hget', hrest]
    rfl

theorem exists_fgets_cons {c : Char} (hsize : 1 < size) (hc : c ≠ NUL) (l : List Char) :
    ∃ piece rest, fgets size (c :: l) = some (c :: piece, rest) := by
  obtain ⟨n, hn⟩ : ∃ n, size - 1 = n + 1 := ⟨size - 2, by omega⟩
  have hcstr : ∀ l, cstr (c :: l) = c :: cstr l := fun l => by simp [cstr, hc]
  rw [fgets, if_neg (List.cons_ne_nil c l), hn, readLine]
  split_ifs
  · rw [hcstr]
    exact ⟨_, _, rfl⟩
  · rw [hcstr]
    exact ⟨_, _, rfl⟩

theorem readLine_all (hn : l.length ≤ n) (hl : '\n' ∉ l.dropLast) : readLine n l = (l, []) := by
  induction l generalizing n with
  | nil => cases n <;> rfl
  | cons c l ih =>
    obtain ⟨n, rfl⟩ := Nat.exists_eq_succ_of_ne_zero (Nat.ne_of_gt (Nat.zero_lt_of_lt hn))
    rw [readLine]
    cases l with
    | nil => split_ifs <;> cases n <;> rfl
    | cons d l =>
      rw [List.dropLast_cons_cons, List.mem_cons, not_or] at hl
      rw [if_neg (Ne.symm hl.1), ih (Nat.le_of_succ_le_succ hn) hl.2]

/-- **A line that fits** is read in one piece. -/
theorem chunks_of_length_lt (hne : l ≠ []) (hlen : l.length < size) (hl : '\n' ∉ l.dropLast) :
    chunks size l = [cstr l] := by
  have hpos : 0 < l.length := List.length_pos_of_ne_nil hne
  have hget : fgets size l = some (cstr l, []) := by
    rw [fgets, if_neg hne, readLine_all (by omega) hl]
  rw [chunks_of_fgets (by omega) hget, chunks_nil]

theorem readLine_newline (n : ℕ) (file : List Char) :
    ∃ l, '\n' ∉ l ∧ ((readLine n file).1 = l ∨ (readLine n file).1 = l ++ ['\n']) := by
  induction n generalizing file with
  | zero => exact ⟨[], List.not_mem_nil, .inl rfl⟩
  | succ n ih =>
    cases file with
    | nil => exact ⟨[], List.not_mem_nil, .inl rfl⟩
    | cons c file =>
      rw [readLine]
      split_ifs with hc
      · exact ⟨[], List.not_mem_nil, .inr (by rw [hc]; rfl)⟩
      · obtain ⟨l, hl, h⟩ := ih file
        have hcl : '\n' ∉ c :: l := fun h => (List.mem_cons.mp h).elim (fun h => hc h.symm) hl
        refine ⟨c :: l, hcl, h.imp (fun h => ?_) fun h => ?_⟩
        · rw [h]
        · rw [h]
          rfl

theorem length_readLine (n : ℕ) (file : List Char) : (readLine n file).1.length ≤ n := by
  induction n generalizing file with
  | zero => exact le_rfl
  | succ n ih =>
    cases file with
    | nil => exact Nat.zero_le _
    | cons c file =>
      rw [readLine]
      split_ifs
      · exact Nat.succ_le_succ (Nat.zero_le _)
      · exact Nat.succ_le_succ (ih file)

theorem fgets_length (h : fgets size file = some (line, rest)) : line.length ≤ size - 1 := by
  unfold fgets at h
  split at h
  · cases h
  obtain ⟨rfl, -⟩ := Prod.mk.inj (Option.some.inj h)
  exact (List.takeWhile_prefix _).length_le.trans (length_readLine _ _)

theorem fgets_newline (h : fgets size file = some (line, rest)) :
    '\n' ∉ line ∨ ∃ l, '\n' ∉ l ∧ line = l ++ ['\n'] := by
  unfold fgets at h
  split at h
  · cases h
  obtain ⟨rfl, -⟩ := Prod.mk.inj (Option.some.inj h)
  obtain ⟨l, hl, hr | hr⟩ := readLine_newline (size - 1) file
  · rw [hr]
    exact .inl fun h => hl ((List.takeWhile_prefix _).subset h)
  · rw [hr]
    by_cases hnul : NUL ∈ l
    · obtain ⟨s, r, rfl, hs⟩ := List.eq_append_cons_of_mem hnul
      rw [List.append_assoc, List.cons_append, cstr_append_NUL hs]
      exact .inl fun h => hl (List.mem_append_left _ h)
    · refine .inr ⟨l, hl, cstr_of_notMem fun h => ?_⟩
      rcases List.mem_append.mp h with h | h
      · exact hnul h
      · exact absurd (List.mem_singleton.mp h) (by decide)

theorem forall_chunks {P : List Char → Prop}
    (hP : ∀ line file rest, fgets size file = some (line, rest) → P line) (file : List Char) :
    ∀ line ∈ chunks size file, P line := by
  rw [chunks]
  generalize file.length + 1 = n
  induction n generalizing file with
  | zero => exact fun line h => absurd h List.not_mem_nil
  | succ n ih =>
    rw [chunksFrom]
    split
    · exact fun line h => absurd h List.not_mem_nil
    · next line rest hget => exact List.forall_mem_cons.mpr ⟨hP _ _ _ hget, ih rest⟩

/-! ## Files written line by line -/

/-- The file with these lines. -/
def unlines (ls : List (List Char)) : List Char := (ls.map (· ++ ['\n'])).flatten

/-- The lines have no newline in them, and with theirs they fit into an array. -/
def Fits (size : ℕ) (ls : List (List Char)) : Prop := ∀ l ∈ ls, '\n' ∉ l ∧ l.length + 1 < size

instance (size : ℕ) (ls : List (List Char)) : Decidable (Fits size ls) := List.decidableBAll _ ls

variable {l t : List Char} {ls ts : List (List Char)}

theorem unlines_cons (l : List Char) (ls : List (List Char)) :
    unlines (l :: ls) = l ++ '\n' :: unlines ls := by
  simp [unlines]

theorem readLine_of_newline (hl : '\n' ∉ l) (hn : l.length < n) (rest : List Char) :
    readLine n (l ++ '\n' :: rest) = (l ++ ['\n'], rest) := by
  induction l generalizing n with
  | nil =>
    obtain ⟨n, rfl⟩ := Nat.exists_eq_succ_of_ne_zero hn.ne'
    rfl
  | cons c l ih =>
    obtain ⟨n, rfl⟩ := Nat.exists_eq_succ_of_ne_zero (Nat.ne_of_gt (Nat.zero_lt_of_lt hn))
    have hc : c ≠ '\n' := fun h => hl (h ▸ List.mem_cons_self)
    have htail := ih (fun h => hl (List.mem_cons_of_mem _ h)) (Nat.lt_of_succ_lt_succ hn)
    rw [List.cons_append, readLine, if_neg hc, htail]
    rfl

theorem fgets_line (hl : '\n' ∉ l) (hlen : l.length + 1 < size) (file : List Char) :
    fgets size (l ++ '\n' :: file) = some (cstr (l ++ ['\n']), file) := by
  have hne : l ++ '\n' :: file ≠ [] := by simp
  rw [fgets, if_neg hne, readLine_of_newline hl (by omega)]

theorem fgets_unlines_cons (ls : List (List Char)) (hl : '\n' ∉ l) (hlen : l.length + 1 < size) :
    fgets size (unlines (l :: ls)) = some (cstr (l ++ ['\n']), unlines ls) := by
  rw [unlines_cons]
  exact fgets_line hl hlen _

/-- **The next line that the loop does not skip** is `t`. -/
theorem loop_text {text : List Char → Bool} (hsize : 1 < size)
    (hbody : ∀ line s file s' file', body line s file = some (.next s' file') →
      file'.length ≤ file.length)
    (hskip : ∀ l s file, ¬ text l = true → body (cstr (l ++ ['\n'])) s file = some (.next s file))
    (hfits : Fits size ls) (ht : ls.filter text = t :: ts) :
    ∃ ls', ls'.filter text = ts ∧ Fits size ls' ∧ loop size body eof s (unlines ls) =
      afterRound size body eof (body (cstr (t ++ ['\n'])) s (unlines ls')) := by
  induction ls with
  | nil => cases ht
  | cons l ls ih =>
    obtain ⟨hl, hlen⟩ := hfits l List.mem_cons_self
    have hfits' : Fits size ls := fun l hl => hfits l (List.mem_cons_of_mem _ hl)
    have hround := loop_of_fgets eof s hsize hbody
      (fgets_unlines_cons ls hl hlen)
    by_cases hlt : text l = true
    · rw [List.filter_cons_of_pos hlt] at ht
      obtain ⟨rfl, hts⟩ := List.cons.inj ht
      exact ⟨ls, hts, hfits', hround⟩
    · rw [List.filter_cons_of_neg hlt] at ht
      obtain ⟨ls', hts, hfits'', hloop⟩ := ih hfits' ht
      refine ⟨ls', hts, hfits'', hround.trans ?_⟩
      rw [hskip l s _ hlt]
      exact hloop

theorem loop_blank {text : List Char → Bool} (hsize : 1 < size)
    (hbody : ∀ line s file s' file', body line s file = some (.next s' file') →
      file'.length ≤ file.length)
    (hskip : ∀ l s file, ¬ text l = true → body (cstr (l ++ ['\n'])) s file = some (.next s file))
    (hfits : Fits size ls) (ht : ls.filter text = []) :
    loop size body eof s (unlines ls) = some (eof s []) := by
  induction ls with
  | nil => rfl
  | cons l ls ih =>
    obtain ⟨hl, hlen⟩ := hfits l List.mem_cons_self
    have hlt : ¬ text l = true := List.filter_eq_nil_iff.mp ht l List.mem_cons_self
    rw [List.filter_cons_of_neg hlt] at ht
    rw [loop_of_fgets eof s hsize hbody (fgets_unlines_cons ls hl hlen), hskip l s _ hlt]
    exact ih (fun l hl => hfits l (List.mem_cons_of_mem _ hl)) ht

end Lines
