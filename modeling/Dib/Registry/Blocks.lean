import Dib.Lib.Memory
import Dib.Registry.Buffers

/-!
# The blocks of `replace_string`

`ostr` and `nstr` are blocks that `malloc` has returned. Either is freed when a larger one is
needed, and at the end only the one that is returned is left.

* `regrowBlock`, `replaceMatchIn`, `replaceIteration`, `replaceStringIn`: the function with its
  calls of `malloc` and `free`; it is partial where it leaves a block or frees what it must not;
* `nstrFails`: there is no memory for `nstr`, so that `ostr` and the pointer into it are freed;
* `InMemory`, **`replaceIteration_sim`**: an iteration does what `replaceRound` does to its buffers;
* `replaceStringIn_sim`, **`replaceStringIn_iff`**: the function goes wrong exactly where `nstr`
  fails; otherwise the only block that is left is the one that is returned.
-/

set_option autoImplicit false

namespace Dib

open Blocks CString Replace

/-! ## The function -/

/-- Blocks of characters. -/
abbrev CharUses := Uses (List Char)

/-- `ostr` and `nstr`, which may be `NULL`, with the sizes that are kept for them. -/
structure ReplaceVars where
  ostr : ℕ
  ostr_allocated : ℕ
  nstr : Option ℕ
  nstr_allocated : ℕ

/-- The end of an iteration: the loop goes on, or the function returns a block or `NULL`. -/
inductive Iteration where
  | next (v : ReplaceVars)
  | ret (p : Option ℕ)

section Function

variable (M : Allocator)

/-- A new block for `size` characters, if it is needed, in the place of the one at `p`. -/
def regrowBlock (size : ℕ) (needed : Bool) (p : Option ℕ) (allocated : ℕ) :
    CharUses (Option ℕ × ℕ) :=
  if needed then do
    freeIf p
    let p ← malloc fun k => M.malloc k size
    pure (p, size % 2 ^ 32)
  else pure (p, allocated)

/-- The new text in `nstr` is copied to `ostr`. -/
def copyBackIn (v : ReplaceVars) (nstr nstr_allocated : ℕ) : CharUses Iteration := do
  let text ← load nstr
  let len ← strlen text
  let (ostr, ostr_allocated) ←
    regrowBlock M (len + 1) (v.ostr_allocated < len + 1) (some v.ostr) v.ostr_allocated
  match ostr with
  | none =>
    freeIf (some nstr)
    pure (.ret none)
  | some ostr =>
    let a ← load ostr
    let a ← strcpy a text
    store ostr a
    pure (.next ⟨ostr, ostr_allocated, some nstr, nstr_allocated⟩)

/-- The new text, of `nlen` characters, when `ostr` is cut at `pdest` and `tail` is behind it. -/
def rebuildIn (replace_str : List Char) (v : ReplaceVars) (pdest : Pointer)
    (ostr tail : List Char) (nlen : ℕ) : CharUses Iteration := do
  let (nstr, nstr_allocated) ←
    regrowBlock M nlen (v.nstr.isNone || v.nstr_allocated < nlen) v.nstr v.nstr_allocated
  match nstr with
  | none =>
    free ⟨v.ostr, 0⟩
    free pdest
    pure (.ret none)
  | some nstr =>
    let a ← load nstr
    let built ← buildText a ostr replace_str tail nstr_allocated
    store nstr built.2
    copyBackIn M v nstr nstr_allocated

/-- The occurrence at `length` is replaced. -/
def replaceMatchIn (search_str replace_str : List Char) (v : ReplaceVars) (length : ℕ) :
    CharUses Iteration := do
  let ostr ← load v.ostr
  let ostr ← truncateAt ostr length
  store v.ostr ostr
  let n ← strlen ostr
  let tail := ostr.drop (n + search_str.length)
  let text ← readString tail
  rebuildIn M replace_str v ⟨v.ostr, length⟩ ostr tail
    (toSize (newLength n replace_str.length text.length))

/-- The body of the loop, and what comes after it. -/
def replaceIteration (search_str replace_str : List Char) (v : ReplaceVars) :
    CharUses Iteration := do
  let ostr ← load v.ostr
  let text ← readString ostr
  match strstr text search_str with
  | none =>
    freeIf v.nstr
    pure (.ret (some v.ostr))
  | some length => replaceMatchIn M search_str replace_str v length

/-- The loop, for so many iterations. -/
def replaceLoop (search_str replace_str : List Char) : ℕ → ReplaceVars → CharUses (Option ℕ)
  | 0, _ => failure
  | n + 1, v => do
    match ← replaceIteration M search_str replace_str v with
    | .next v => replaceLoop search_str replace_str n v
    | .ret p => pure p

/-- `replace_string`, which returns a block or `NULL`. -/
def replaceStringIn (search_str replace_str : List Char) (rounds : ℕ) (source_str : List Char) :
    CharUses (Option ℕ) := do
  match ← malloc fun k => M.malloc k (source_str.length + 1) with
  | none => pure none
  | some ostr =>
    let a ← load ostr
    let a ← strcpy a (source_str ++ [NUL])
    store ostr a
    replaceLoop M search_str replace_str rounds ⟨ostr, (source_str.length + 1) % 2 ^ 32, none, 0⟩

end Function

/-- There is no memory for `nstr`, when the text up to the first occurrence is `x` and behind it
there is `y`. -/
def NstrFails (M : Allocator) (search_str replace_str : List Char) (s : ReplaceState) : Prop :=
  ∃ ostr x y, s.ostr.ptr = some ostr ∧ Leftmost search_str (cstr ostr) x y ∧
    (growNstr M (newLength x.length replace_str.length y.length) s).1.ptr = none

/-! ## The memory -/

/-- A pointer to a buffer, and the block that the buffer is; `NULL` has none. -/
inductive Backs : Option ℕ → Option (List Char) → List (ℕ × List Char) → Prop
  | null : Backs none none []
  | block (b : ℕ) (a : List Char) : Backs (some b) (some a) [(b, a)]

/-- The calls behind the first `n`. -/
def Allocator.after (M : Allocator) (n : ℕ) : Allocator where
  malloc k := M.malloc (n + k)
  length_eq k := M.length_eq (n + k)

variable {M : Allocator} {search_str replace_str source_str T ostr nstr a : List Char}
  {m₀ m : Memory (List Char)} {own l : List (ℕ × List Char)} {p : Option ℕ}
  {ptr : Option (List Char)} {s : ReplaceState} {v : ReplaceVars} {b : Sized}
  {k n size allocated : ℕ} {needed : Bool} {events : List ReplaceEvent} {e : ReplaceEnd}

theorem Backs.freeIf (h : Backs p ptr own) (hm : Since m₀ m (own ++ l)) :
    ∃ m', (freeIf p).run m = some ((), m') ∧ Since m₀ m' l ∧ m'.mallocs = m.mallocs := by
  cases h with
  | null => exact ⟨m, rfl, hm, rfl⟩
  | block b a => exact hm.free

theorem regrowBlock_sim (M : Allocator) (size : ℕ) (needed : Bool) (h : Backs p b.ptr own)
    (hm : Since m₀ m (own ++ l)) (hk : m.mallocs = m₀.mallocs + k) :
    ∃ p' own' m', (regrowBlock M size needed p b.allocated).run m =
        some ((p', (b.regrow (M.after m₀.mallocs) k size needed).1.allocated), m') ∧
      Backs p' (b.regrow (M.after m₀.mallocs) k size needed).1.ptr own' ∧
      Since m₀ m' (own' ++ l) ∧
      m'.mallocs = m₀.mallocs + (b.regrow (M.after m₀.mallocs) k size needed).2 := by
  cases needed with
  | false => exact ⟨p, own, m, rfl, h, hm, hk⟩
  | true =>
    obtain ⟨m₁, hfree, hm₁, hmallocs⟩ := h.freeIf hm
    rw [← hmallocs] at hk
    simp only [regrowBlock, if_true, StateT.run_bind, hfree, Option.bind_eq_bind, Option.bind_some,
      Sized.regrow, Allocator.after, ← hk]
    cases ha : M.malloc m₁.mallocs size with
    | none =>
      rw [malloc_none ha]
      exact ⟨none, [], m₁.refuse, rfl, .null, hm₁.refuse, by rw [Memory.mallocs_refuse, hk]; rfl⟩
    | some a =>
      rw [malloc_some ha]
      exact ⟨_, [(_, a)], m₁.add a, rfl, .block _ a, hm₁.add a, by rw [Memory.mallocs_add, hk]; rfl⟩

/-- The memory, when the variables of the loop are these. -/
structure InMemory (m₀ : Memory (List Char)) (v : ReplaceVars) (s : ReplaceState)
    (m : Memory (List Char)) : Prop where
  ostr_allocated : v.ostr_allocated = s.ostr.allocated
  nstr_allocated : v.nstr_allocated = s.nstr.allocated
  mallocs : m.mallocs = m₀.mallocs + s.mallocs
  blocks : ∃ a own, s.ostr.ptr = some a ∧ Backs v.nstr s.nstr.ptr own ∧
    Since m₀ m ((v.ostr, a) :: own)

/-- Some call of `malloc` returns `NULL`. -/
def Allocator.Refuses (M : Allocator) : Prop := ∃ k size, M.malloc k size = none

theorem Allocator.Refuses.of_after (h : (M.after n).Refuses) : M.Refuses := by
  obtain ⟨k, size, h⟩ := h
  exact ⟨n + k, size, h⟩

theorem refuses_of_regrow (h : (b.regrow M k size needed).1.ptr = none)
    (hb : b.ptr = none → needed = true) : M.Refuses := by
  unfold Sized.regrow at h
  split at h
  · exact ⟨k, size, h⟩
  · next hneeded => exact absurd (hb h) hneeded

/-- The answer to an iteration that comes to the end `e`: only a block that is returned is left. -/
inductive Answers (M : Allocator) (m₀ : Memory (List Char)) (s : ReplaceState) :
    ReplaceEnd → Iteration → Memory (List Char) → Prop
  | next {s' : ReplaceState} {v : ReplaceVars} {m : Memory (List Char)} :
    InMemory m₀ v s' m → Answers M m₀ s (.next s') (.next v) m
  | null {m : Memory (List Char)} : M.Refuses → Since m₀ m [] → Answers M m₀ s .null (.ret none) m
  | done {a : List Char} {b : ℕ} {m : Memory (List Char)} :
    s.ostr.ptr = some a → Since m₀ m [(b, a)] → Answers M m₀ s .done (.ret (some b)) m

theorem copyBack_sim (hm : Since m₀ m [(v.ostr, ostr), (n, nstr)])
    (hk : m.mallocs = m₀.mallocs + k)
    (h : copyBack (M.after m₀.mallocs) k ⟨some ostr, v.ostr_allocated⟩ nstr allocated =
      some (events, e)) :
    ∃ i m', (copyBackIn M v n allocated).run m = some (i, m') ∧ Answers M m₀ s e i m' := by
  have hload : (load n).run m = some (nstr, m) := hm.load (by simp)
  unfold copyBack at h
  cases hlen : strlen nstr with
  | none => simp [hlen] at h
  | some len =>
    obtain ⟨p, own, m₁, hregrow, hbacks, hm₁, hk₁⟩ := regrowBlock_sim M (len + 1)
      (v.ostr_allocated < len + 1) (b := ⟨some ostr, v.ostr_allocated⟩) (.block v.ostr ostr) hm hk
    simp only [hlen] at h
    generalize hr : Sized.regrow (M.after m₀.mallocs) k (len + 1) (v.ostr_allocated < len + 1)
      ⟨some ostr, v.ostr_allocated⟩ = r at h hregrow hbacks hk₁
    obtain ⟨⟨ptr, ostr_allocated⟩, k₁⟩ := r
    simp only [copyBackIn, StateT.run_bind, hload, run_defined hlen, hregrow, Option.bind_eq_bind,
      Option.bind_some]
    cases hbacks with
    | null =>
      obtain ⟨rfl, rfl⟩ : events = [] ∧ e = .null := by simpa [eq_comm] using h
      obtain ⟨m₂, hfree, hm₂, -⟩ := Since.free hm₁
      have hptr : (Sized.regrow (M.after m₀.mallocs) k (len + 1) (v.ostr_allocated < len + 1)
          ⟨some ostr, v.ostr_allocated⟩).1.ptr = none := by rw [hr]
      have hrefuses := (refuses_of_regrow hptr (by rintro ⟨⟩)).of_after
      exact ⟨_, m₂, by simp [freeIf, hfree], .null hrefuses hm₂⟩
    | block b a =>
      obtain ⟨d, hd, h⟩ := Option.map_eq_some_iff.mp h
      obtain ⟨-, rfl⟩ := Prod.mk.inj h
      obtain ⟨m₂, hstore, hm₂, hk₂⟩ := Since.store hm₁ d
      refine ⟨.next ⟨b, ostr_allocated, some n, allocated⟩, m₂, ?_,
        .next ⟨rfl, rfl, hk₂.trans hk₁, d, _, rfl, .block n nstr, hm₂⟩⟩
      simp [hm₁.load List.mem_cons_self, hd, hstore]

theorem Backs.isNone_eq (h : Backs p ptr own) : p.isNone = ptr.isNone := by
  cases h <;> rfl

theorem rebuildIn_sim {tail : List Char} {nlen i : ℕ} {x : Sized × ℕ} (M : Allocator)
    (hback : Backs v.nstr s.nstr.ptr own) (hallocated : v.nstr_allocated = s.nstr.allocated)
    (hm : Since m₀ m ((v.ostr, ostr) :: own)) (hk : m.mallocs = m₀.mallocs + s.mallocs)
    (hx : s.nstr.regrow (M.after m₀.mallocs) s.mallocs nlen
      (s.nstr.ptr.isNone || s.nstr.allocated < nlen) = x) :
    (x.1.ptr = none → (rebuildIn M replace_str v ⟨v.ostr, i⟩ ostr tail nlen).run m = none) ∧
    ∀ a d events, x.1.ptr = some a →
      buildText a ostr replace_str tail x.1.allocated = some (events, d) →
      ∃ nstr m₁, Since m₀ m₁ [(v.ostr, ostr), (nstr, d)] ∧ m₁.mallocs = m₀.mallocs + x.2 ∧
        (rebuildIn M replace_str v ⟨v.ostr, i⟩ ostr tail nlen).run m =
          (copyBackIn M v nstr x.1.allocated).run m₁ := by
  obtain ⟨p, own', m₂, hregrow, hback', hm₂, hk₂⟩ := regrowBlock_sim M nlen
    (s.nstr.ptr.isNone || s.nstr.allocated < nlen) hback
    (hm.perm (List.perm_append_singleton _ _).symm) hk
  obtain ⟨⟨ptr, allocated⟩, k₁⟩ := x
  rw [hx] at hregrow hback' hk₂
  dsimp only at hregrow hback' hk₂ ⊢
  simp only [rebuildIn, StateT.run_bind, hback.isNone_eq, hallocated, hregrow, Option.bind_eq_bind,
    Option.bind_some]
  constructor
  · rintro rfl
    cases hback' with
    | null =>
      obtain ⟨m₃, hfree, hm₃, -⟩ := Since.free hm₂
      have hdangling : (free ⟨v.ostr, i⟩).run m₃ = none :=
        hm₃.free_eq_none (hm.new v.ostr List.mem_cons_self) List.not_mem_nil
      simp [hfree, hdangling]
  · rintro a d events rfl hbuild
    cases hback' with
    | block b =>
      obtain ⟨m₃, hstore, hm₃, hk₃⟩ := Since.store hm₂ d
      refine ⟨b, m₃, hm₃.perm (.swap _ _ _), hk₃.trans hk₂, ?_⟩
      simp [hm₂.load List.mem_cons_self, hbuild, hstore]

theorem exists_truncateAt {x y : List Char} (hsearch : search_str ≠ [])
    (hfirst : Leftmost search_str T x y) (ha : Text size T a) (hT : FitsInt T) :
    ∃ ostr n, truncateAt a x.length = some ostr ∧ Text size x ostr ∧
      Text n y (ostr.drop (x.length + search_str.length)) := by
  obtain ⟨c, p, rfl⟩ := List.exists_cons_of_ne_nil hsearch
  have heq := hfirst.eq
  have hlen := congrArg List.length heq
  rw [List.length_append, List.length_append, List.length_cons] at hlen
  have hlt := ha.lt
  have hint : T.length + 1 < 2 ^ 31 := hT
  rw [heq] at ha
  refine ⟨_, size - (x ++ c :: p).length, truncateAt_eq (by rw [ha.length_eq]; omega) (by omega),
    ?_, ?_⟩
  · rw [List.append_assoc, List.cons_append] at ha
    exact ha.cut
  · rw [List.drop_set_of_lt (by simp), ← List.length_append]
    exact ha.drop

theorem replaceMatchIn_sim {x y : List Char} (hsearch : search_str ≠ [])
    (hfirst : Leftmost search_str T x y) (hptr : s.ostr.ptr = some a)
    (ha : Text s.ostr.allocated T a) (hT : FitsInt T) (hH : InMemory m₀ v s m)
    (h : replaceMatch (M.after m₀.mallocs) search_str replace_str a x.length s =
      some (events, e)) :
    let nstr := growNstr (M.after m₀.mallocs) (newLength x.length replace_str.length y.length) s
    (nstr.1.ptr = none → (replaceMatchIn M search_str replace_str v x.length).run m = none) ∧
    (nstr.1.ptr ≠ none → ∃ i m',
      (replaceMatchIn M search_str replace_str v x.length).run m = some (i, m') ∧
        Answers M m₀ s e i m') := by
  obtain ⟨a', own, hptr', hback, hm⟩ := hH.blocks
  obtain rfl := Option.some.inj (hptr.symm.trans hptr')
  obtain ⟨ostr, n, hostr, hcut, htail⟩ := exists_truncateAt hsearch hfirst ha hT
  obtain ⟨m₁, hstore, hm₁, hk₁⟩ := hm.store ostr
  have hrun : (replaceMatchIn M search_str replace_str v x.length).run m =
      (rebuildIn M replace_str v ⟨v.ostr, x.length⟩ ostr (ostr.drop (x.length + search_str.length))
        (toSize (newLength x.length replace_str.length y.length))).run m₁ := by
    rw [replaceMatchIn, run_bind (hm.load List.mem_cons_self), run_bind (run_defined hostr),
      run_bind hstore, run_bind (run_defined hcut.strlen_eq),
      run_bind (run_defined htail.readString_eq)]
  simp only [replaceMatch, hostr, hcut.strlen_eq, Option.bind_some, rebuild, htail.readString_eq,
    growNstr] at h
  rw [hrun]
  unfold growNstr
  generalize toSize (newLength x.length replace_str.length y.length) = nlen at h ⊢
  generalize hx : s.nstr.regrow (M.after m₀.mallocs) s.mallocs nlen
    (s.nstr.ptr.isNone || s.nstr.allocated < nlen) = r at h ⊢
  obtain ⟨hnone, hsome⟩ := rebuildIn_sim M hback hH.nstr_allocated hm₁ (hk₁.trans hH.mallocs) hx
  refine ⟨hnone, fun hne => ?_⟩
  obtain ⟨c, hc⟩ := Option.ne_none_iff_exists'.mp hne
  simp only [hc] at h
  split at h
  · cases h
  next built hbuild =>
  obtain ⟨⟨events', e'⟩, hcopy, heq⟩ := Option.map_eq_some_iff.mp h
  obtain ⟨-, rfl⟩ := Prod.mk.inj heq
  obtain ⟨nstr, m₂, hm₂, hk₂, hbuilt⟩ := hsome c built.2 built.1 hc hbuild
  rw [hbuilt]
  rw [← hH.ostr_allocated] at hcopy
  exact copyBack_sim hm₂ hk₂ hcopy

/-- **One iteration** does to the blocks what `replaceRound` does to the buffers, unless there is no
memory for `nstr`. -/
theorem replaceIteration_sim (hsearch : search_str ≠ []) (hinv : ReplaceInv T s) (hT : FitsInt T)
    (hH : InMemory m₀ v s m)
    (h : replaceRound (M.after m₀.mallocs) search_str replace_str s = some (events, e)) :
    (NstrFails (M.after m₀.mallocs) search_str replace_str s →
      (replaceIteration M search_str replace_str v).run m = none) ∧
    (¬ NstrFails (M.after m₀.mallocs) search_str replace_str s →
      ∃ i m', (replaceIteration M search_str replace_str v).run m = some (i, m') ∧
        Answers M m₀ s e i m') := by
  obtain ⟨a, own, hptr, hback, hm⟩ := hH.blocks
  obtain ⟨a', hptr', ha⟩ := hinv.ostr
  obtain rfl := Option.some.inj (hptr'.symm.trans hptr)
  have hload : (load v.ostr).run m = some (a', m) := hm.load List.mem_cons_self
  simp only [replaceRound, hptr, ha.readString_eq] at h
  simp only [replaceIteration, StateT.run_bind, hload, run_defined ha.readString_eq,
    Option.bind_eq_bind, Option.bind_some]
  cases hi : strstr T search_str with
  | none =>
    have hnot : ¬ NstrFails (M.after m₀.mallocs) search_str replace_str s := by
      rintro ⟨ostr, x, y, ho, hxy, -⟩
      obtain rfl := Option.some.inj (ho.symm.trans hptr)
      rw [ha.cstr_eq] at hxy
      exact strstr_eq_none_iff.mp hi ⟨x, y, hxy.eq.symm⟩
    obtain ⟨m₁, hfree, hm₁, -⟩ := hback.freeIf (hm.perm (List.perm_append_singleton _ _).symm)
    rw [hi] at h
    obtain ⟨-, rfl⟩ := Prod.mk.inj (Option.some.inj h)
    exact ⟨fun hf => absurd hf hnot, fun _ => ⟨_, m₁, by simp [hfree], .done hptr hm₁⟩⟩
  | some i =>
    have hfirst := leftmost_of_strstr hi
    generalize hx : T.take i = x at hfirst
    generalize T.drop (i + search_str.length) = y at hfirst
    obtain rfl : x.length = i := by
      have heq := congrArg List.length hfirst.eq
      have hpos := List.length_pos_of_ne_nil hsearch
      simp only [List.length_append] at heq
      rw [← hx, List.length_take] at heq ⊢
      omega
    rw [hi] at h
    obtain ⟨hnone, hsome⟩ := replaceMatchIn_sim hsearch hfirst hptr ha hT hH h
    have hiff : NstrFails (M.after m₀.mallocs) search_str replace_str s ↔
        (growNstr (M.after m₀.mallocs) (newLength x.length replace_str.length y.length) s).1.ptr =
          none := by
      constructor
      · rintro ⟨ostr, x', y', ho, hxy, hgrow⟩
        obtain rfl := Option.some.inj (ho.symm.trans hptr)
        rw [ha.cstr_eq] at hxy
        obtain ⟨rfl, rfl⟩ := hxy.unique hfirst
        exact hgrow
      · exact fun hgrow => ⟨a', x, y, hptr, by rwa [ha.cstr_eq], hgrow⟩
    exact ⟨fun hf => hnone (hiff.mp hf), fun hf => hsome (mt hiff.mpr hf)⟩

/-! ## All iterations -/

/-- What is left in memory when the function has returned this pointer. -/
def Leaves (M : Allocator) (T : List Char) (m₀ m : Memory (List Char)) : Option ℕ → Prop
  | none => M.Refuses ∧ Since m₀ m []
  | some b => ∃ a, Since m₀ m [(b, a)] ∧ cstr a = T

/-- In the iterations from `n` on there is memory for `nstr`. -/
def NstrServed (M : Allocator) (search_str replace_str source_str : List Char) (n : ℕ) : Prop :=
  ∀ k s, n ≤ k → replaceAt M search_str replace_str source_str k = some s →
    ¬ NstrFails M search_str replace_str s

theorem replaceAt_eq_none (h : replaceAt M search_str replace_str source_str n = none)
    (hk : n ≤ k) : replaceAt M search_str replace_str source_str k = none := by
  induction k, hk using Nat.le_induction with
  | base => exact h
  | succ k hk ih => rw [replaceAt, ih, Option.bind_none]

theorem nstrServed_iff (hs : replaceAt M search_str replace_str source_str n = some s) :
    NstrServed M search_str replace_str source_str n ↔
      ¬ NstrFails M search_str replace_str s ∧
        NstrServed M search_str replace_str source_str (n + 1) := by
  constructor
  · exact fun h => ⟨h n s (Nat.le_refl n) hs, fun k s' hk => h k s' (Nat.le_of_succ_le hk)⟩
  · rintro ⟨h, hrest⟩ k s' hk hs'
    rcases Nat.eq_or_lt_of_le hk with rfl | hlt
    · obtain rfl := Option.some.inj (hs.symm.trans hs')
      exact h
    · exact hrest k s' hlt hs'

theorem nstrServed_of_none (h : replaceAt M search_str replace_str source_str n = none) :
    NstrServed M search_str replace_str source_str n := by
  intro k s hk hs
  rw [replaceAt_eq_none h hk] at hs
  cases hs

theorem replaceString_of_replaceOnce {T' : List Char} {rounds : ℕ}
    (h : replaceOnce search_str replace_str T = some T') :
    replaceString search_str replace_str (rounds + 1) T =
      replaceString search_str replace_str rounds T' := by
  obtain ⟨i, hi, rfl⟩ := Option.map_eq_some_iff.mp h
  rw [replaceString, hi]

/-- **The loop**, from the iteration `n` on. -/
theorem replaceLoop_sim {T' : List Char} {rounds : ℕ} (hsearch : search_str ≠ [])
    (hsource : NUL ∉ source_str) (hreplace : NUL ∉ replace_str)
    (hfits : ∀ n, LengthsFit search_str replace_str source_str n)
    (hs : replaceAt (M.after m₀.mallocs) search_str replace_str source_str n = some s)
    (htext : replaceText search_str replace_str source_str n = some T)
    (hH : InMemory m₀ v s m)
    (hT' : replaceString search_str replace_str rounds T = some T') :
    ((∃ p m', (replaceLoop M search_str replace_str rounds v).run m = some (p, m')) ↔
      NstrServed (M.after m₀.mallocs) search_str replace_str source_str n) ∧
    ∀ p m', (replaceLoop M search_str replace_str rounds v).run m = some (p, m') →
      Leaves M T' m₀ m' p := by
  induction rounds generalizing n s v m T with
  | zero => cases hT'
  | succ rounds ih =>
    obtain ⟨T₁, htext₁, hinv⟩ := replaceAt_inv hsearch hsource hreplace (hfits n) hs
    obtain rfl := Option.some.inj (htext.symm.trans htext₁)
    have hstep (T₂ : List Char) (h : T₂ ∈ replaceOnce search_str replace_str T) :
        replaceText search_str replace_str source_str (n + 1) = some T₂ := by
      rw [replaceText, htext, Option.bind_some]
      exact h
    have hfit : FitsInt T := hfits n n (Nat.le_refl n) T htext
    obtain ⟨events, e, hround, hdone, -, hnext⟩ := replaceRound_inv (M.after m₀.mallocs) hsearch
      hreplace hinv hfit fun T₂ h => hfits (n + 1) (n + 1) (Nat.le_refl _) T₂ (hstep T₂ h)
    obtain ⟨hfails, hserved⟩ := replaceIteration_sim hsearch hinv hfit hH hround
    rw [nstrServed_iff hs]
    by_cases hf : NstrFails (M.after m₀.mallocs) search_str replace_str s
    · have hnone : (replaceLoop M search_str replace_str (rounds + 1) v).run m = none := by
        rw [replaceLoop, StateT.run_bind, hfails hf]
        rfl
      rw [hnone]
      exact ⟨iff_of_false (by rintro ⟨p, m', ⟨⟩⟩) fun h => h.1 hf, fun p m' => by rintro ⟨⟩⟩
    · obtain ⟨i, m₁, hrun, hanswers⟩ := hserved hf
      rw [and_iff_right hf, replaceLoop, run_bind hrun]
      have hlast (hnot : ∀ s', e ≠ .next s') :
          NstrServed (M.after m₀.mallocs) search_str replace_str source_str (n + 1) := by
        refine nstrServed_of_none ?_
        rw [replaceAt, hs, Option.bind_some, hround]
        cases e with
        | next s' => exact absurd rfl (hnot s')
        | done | null => rfl
      cases hanswers with
      | next hH₁ =>
        obtain ⟨T₂, honce, -⟩ := hnext _ rfl
        rw [replaceString_of_replaceOnce honce] at hT'
        refine ih ?_ (hstep T₂ honce) hH₁ hT'
        rw [replaceAt, hs, Option.bind_some, hround]
      | null hrefuses hm₁ =>
        refine ⟨iff_of_true ⟨none, m₁, rfl⟩ (hlast (by simp)), ?_⟩
        rintro p m' ⟨⟩
        exact ⟨hrefuses, hm₁⟩
      | done hptr hm₁ =>
        rw [replaceString, hdone.mp rfl] at hT'
        obtain rfl := Option.some.inj hT'
        obtain ⟨a, ha, htexta⟩ := hinv.ostr
        obtain rfl := Option.some.inj (ha.symm.trans hptr)
        refine ⟨iff_of_true ⟨_, m₁, rfl⟩ (hlast (by simp)), ?_⟩
        rintro p m' ⟨⟩
        exact ⟨_, hm₁, htexta.cstr_eq⟩

theorem replaceText_succ (S : List Char) (n : ℕ) : replaceText search_str replace_str S (n + 1) =
    (replaceOnce search_str replace_str S).bind fun T =>
      replaceText search_str replace_str T n := by
  induction n generalizing S with
  | zero => cases h : replaceOnce search_str replace_str S <;> simp [replaceText, h]
  | succ n ih =>
    rw [replaceText, ih]
    cases replaceOnce search_str replace_str S with
    | none => rfl
    | some T => rfl

theorem replaceText_eq_none {rounds : ℕ}
    (hT : replaceString search_str replace_str rounds source_str = some T) (hk : rounds ≤ k) :
    replaceText search_str replace_str source_str k = none := by
  induction rounds generalizing source_str k with
  | zero => cases hT
  | succ rounds ih =>
    obtain ⟨k, rfl⟩ : ∃ j, k = j + 1 := ⟨k - 1, by omega⟩
    rw [replaceText_succ]
    cases honce : replaceOnce search_str replace_str source_str with
    | none => rfl
    | some T₁ =>
      rw [replaceString_of_replaceOnce honce] at hT
      exact ih hT (Nat.le_of_succ_le_succ hk)

theorem lengthsFit_of_replaceString {rounds : ℕ}
    (hT : replaceString search_str replace_str rounds source_str = some T)
    (hfits : LengthsFit search_str replace_str source_str rounds) :
    LengthsFit search_str replace_str source_str n := by
  intro k hk T₁ hT₁
  rcases Nat.le_total k rounds with hle | hle
  · exact hfits k hle T₁ hT₁
  · rw [replaceText_eq_none hT hle] at hT₁
    cases hT₁

/-- **The function** comes to its end where all iterations have memory for `nstr`, and only the
block that it returns is left. -/
theorem replaceStringIn_sim (M : Allocator) (m : Memory (List Char)) {rounds : ℕ}
    (hsearch : search_str ≠ []) (hsource : NUL ∉ source_str) (hreplace : NUL ∉ replace_str)
    (hfits : LengthsFit search_str replace_str source_str rounds)
    (hT : replaceString search_str replace_str rounds source_str = some T) :
    ((∃ p m', (replaceStringIn M search_str replace_str rounds source_str).run m = some (p, m')) ↔
      NstrServed (M.after m.mallocs) search_str replace_str source_str 0) ∧
    ∀ p m', (replaceStringIn M search_str replace_str rounds source_str).run m = some (p, m') →
      Leaves M T m m' p := by
  cases ha : M.malloc m.mallocs (source_str.length + 1) with
  | none =>
    have hnone : replaceAt (M.after m.mallocs) search_str replace_str source_str 0 = none := by
      simp [replaceAt, replaceStart, Allocator.after, ha]
    rw [replaceStringIn, run_bind (malloc_none ha)]
    refine ⟨iff_of_true ⟨none, _, rfl⟩ (nstrServed_of_none hnone), ?_⟩
    rintro p m' ⟨⟩
    exact ⟨⟨_, _, ha⟩, (since_refl m).refuse⟩
  | some a =>
    have hm := (since_refl m).add a
    obtain ⟨d, hd, htext⟩ := strcpy_text (.of_append hsource []) (M.length_eq _ _ _ ha)
      (Nat.lt_succ_self _)
    obtain ⟨m₁, hstore, hm₁, hk₁⟩ := hm.store d
    have hs : replaceAt (M.after m.mallocs) search_str replace_str source_str 0 =
        some ⟨⟨some d, (source_str.length + 1) % 2 ^ 32⟩, ⟨none, 0⟩, 1⟩ := by
      simp [replaceAt, replaceStart, Allocator.after, ha, hd]
    rw [replaceStringIn, run_bind (malloc_some ha)]
    dsimp only
    rw [run_bind (hm.load List.mem_cons_self), run_bind (run_defined hd), run_bind hstore]
    exact replaceLoop_sim hsearch hsource hreplace
      (fun _ => lengthsFit_of_replaceString hT hfits) hs rfl
      ⟨rfl, rfl, hk₁, d, [], rfl, .null, hm₁⟩ hT

theorem nstrServed_of_not_refuses (hM : ¬ M.Refuses) (n : ℕ) :
    NstrServed M search_str replace_str source_str n := by
  rintro k s - - ⟨ostr, x, y, -, -, h⟩
  exact hM (refuses_of_regrow h fun hnull => by rw [hnull]; rfl)

theorem Leaves.block_eq (h : Leaves M T m₀ m p) {b : ℕ} (hb : b < m₀.mallocs) :
    m.block b = m₀.block b := by
  cases p with
  | none => exact h.2.others b List.not_mem_nil
  | some r =>
    obtain ⟨a, hm, -⟩ := h
    exact hm.others b fun hmem => Nat.not_lt_of_le (hm.new b hmem) hb

/-- **`replace_string` frees what it must not** in exactly those calls in which an iteration has no
memory for `nstr`. In all others it has freed what it allocated, except for the block that it
returns; it returns one, unless some call of `malloc` returns `NULL`, and leaves the blocks from
before as they were. -/
theorem replaceStringIn_iff (M : Allocator) (m : Memory (List Char)) {rounds : ℕ}
    (hsearch : search_str ≠ []) (hsource : NUL ∉ source_str) (hreplace : NUL ∉ replace_str)
    (hfits : LengthsFit search_str replace_str source_str rounds)
    (hT : replaceString search_str replace_str rounds source_str = some T) :
    ((replaceStringIn M search_str replace_str rounds source_str).run m = none ↔
      ∃ n s, replaceAt (M.after m.mallocs) search_str replace_str source_str n = some s ∧
        NstrFails (M.after m.mallocs) search_str replace_str s) ∧
    ∀ p m', (replaceStringIn M search_str replace_str rounds source_str).run m = some (p, m') →
      Leaves M T m m' p ∧ ∀ b < m.mallocs, m'.block b = m.block b := by
  obtain ⟨hiff, hleaves⟩ := replaceStringIn_sim M m hsearch hsource hreplace hfits hT
  refine ⟨?_, fun p m' hrun => ⟨hleaves p m' hrun, fun b => (hleaves p m' hrun).block_eq⟩⟩
  rw [← not_iff_not, ← ne_eq, Option.ne_none_iff_exists', Prod.exists, hiff]
  simp [NstrServed]

/-- No block is allocated. -/
def emptyMemory : Memory (List Char) := ⟨0, fun _ => none, fun _ _ => rfl⟩

/-- A replacement with memory for both. -/
theorem replaceStringIn_words : ∃ p m',
    (replaceStringIn plainAllocator ['a'] "bb".toList 3 "aba".toList).run emptyMemory =
        some (p, m') ∧ Leaves plainAllocator "bbbbb".toList emptyMemory m' p := by
  have hfits : LengthsFit ['a'] "bb".toList "aba".toList 3 := by
    unfold LengthsFit
    decide
  obtain ⟨hiff, hleaves⟩ := replaceStringIn_iff plainAllocator emptyMemory (by decide) (by decide)
    (by decide) hfits rfl
  have hserved : NstrServed (plainAllocator.after 0) ['a'] "bb".toList "aba".toList 0 :=
    nstrServed_of_not_refuses (by rintro ⟨k, size, ⟨⟩⟩) 0
  obtain ⟨⟨p, m'⟩, hrun⟩ := Option.ne_none_iff_exists'.mp fun hnone => by
    obtain ⟨n, s, hs, hfails⟩ := hiff.mp hnone
    exact hserved n s (Nat.zero_le n) hs hfails
  exact ⟨p, m', hrun, (hleaves p m' hrun).1⟩

/-- Memory for `ostr` only. -/
def oneBlock : Allocator where
  malloc k size := if k = 0 then some (List.replicate size 'x') else none
  length_eq k size a h := by
    obtain ⟨-, ⟨⟩⟩ := Option.ite_none_right_eq_some.mp h
    exact List.length_replicate

/-- `ostr` is freed twice. -/
example : (replaceStringIn oneBlock ['a'] ['b'] 2 ['a']).run emptyMemory = none := rfl

end Dib
