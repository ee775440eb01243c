import Dib.Lib.Framing
import Mathlib.Data.List.TakeWhile

/-!
# Strings and buffers of C

A `char` array is a list of characters; what lies outside it cannot be read or written, so the
functions that may run past it are partial.

* `NUL`, `strlen`, `cstr`, `memcpy`, `strncpy`: the terminator, the length and the string of an
  array, and copies into one;
* `strstr`, `strrchr`, `strtok`: searches in a string, given without its terminator;
* `strlen_eq_some_iff`, `memcpy_eq_some_iff`: when they stay inside;
* `strstr_eq_none_iff`, `strstr_prefix`, `strrchr_eq_none_iff`, `strrchr_split`, `flatten_strtok`,
  `strtok_intercalate`: what the searches find.
-/

set_option autoImplicit false

namespace CString

/-- The terminator of a C string. -/
def NUL : Char := '\x00'

/-- `strlen`: `none` when it runs past the end of the array. -/
def strlen : List Char → Option ℕ
  | [] => none
  | c :: cs => if c = NUL then some 0 else (strlen cs).map (· + 1)

/-- The string an array holds. -/
def cstr (a : List Char) : List Char := a.takeWhile (· ≠ NUL)

/-- `memcpy(&dst[pos], src, n)` for a source of `n` characters: `none` when it writes past the end
of `dst`. -/
def memcpy (dst : List Char) (pos : ℕ) (src : List Char) : Option (List Char) :=
  if pos + src.length ≤ dst.length then some (dst.take pos ++ src ++ dst.drop (pos + src.length))
  else none

/-- `strncpy(dst, src, n)`: `n` characters are written, zeros behind the end of `src`. -/
def strncpy (dst src : List Char) (n : ℕ) : List Char :=
  (src ++ List.replicate (n - src.length) NUL).take n ++ dst.drop n

/-- `strstr(s, pat) - s`. -/
def strstr : List Char → List Char → Option ℕ
  | [], pat => if pat = [] then some 0 else none
  | c :: s, pat => if pat <+: c :: s then some 0 else (strstr s pat).map (· + 1)

/-- `strrchr(s, c) - s`. -/
def strrchr : List Char → Char → Option ℕ
  | [], _ => none
  | x :: s, c =>
    match strrchr s c with
    | some i => some (i + 1)
    | none => if x = c then some 0 else none

/-- The strings that `strtok(s, delim)` and the calls `strtok(NULL, delim)` after it return. -/
def strtok (s : List Char) (delim : Char) : List (List Char) :=
  (s.splitOn delim).filter (· ≠ [])

theorem strlen_append_NUL {s : List Char} (hs : NUL ∉ s) (r : List Char) :
    strlen (s ++ NUL :: r) = some s.length := by
  induction s with
  | nil => simp [strlen]
  | cons c s ih =>
    have hc : c ≠ NUL := fun h => hs (by simp [h])
    simp [strlen, hc, ih fun h => hs (by simp [h])]

theorem strlen_eq_none_iff {a : List Char} : strlen a = none ↔ NUL ∉ a := by
  induction a with
  | nil => simp [strlen]
  | cons c a ih =>
    by_cases hc : c = NUL
    · simp [strlen, hc]
    · simp [strlen, hc, ih, Ne.symm hc]

theorem strlen_eq_some_iff {a : List Char} {n : ℕ} :
    strlen a = some n ↔ ∃ s r, a = s ++ NUL :: r ∧ NUL ∉ s ∧ s.length = n := by
  constructor
  · intro h
    have ha : NUL ∈ a := by
      by_contra hn
      rw [strlen_eq_none_iff.mpr hn] at h
      cases h
    obtain ⟨s, r, rfl, hs⟩ := List.eq_append_cons_of_mem ha
    rw [strlen_append_NUL hs] at h
    exact ⟨s, r, rfl, hs, Option.some.inj h⟩
  · rintro ⟨s, r, rfl, hs, rfl⟩
    exact strlen_append_NUL hs r

theorem cstr_append_NUL {s : List Char} (hs : NUL ∉ s) (r : List Char) :
    cstr (s ++ NUL :: r) = s := by
  have h : ∀ c ∈ s, decide (c ≠ NUL) = true := fun c hc => by
    simpa using fun e : c = NUL => hs (e ▸ hc)
  rw [cstr, List.takeWhile_append_of_pos h]
  simp

theorem cstr_strncpy {dst s : List Char} {n : ℕ} (hs : NUL ∉ s) (hn : s.length < n) :
    cstr (strncpy dst s n) = s := by
  obtain ⟨k, hk⟩ : ∃ k, n - s.length = k + 1 := ⟨n - s.length - 1, by omega⟩
  have h1 : (s ++ List.replicate (n - s.length) NUL).length ≤ n := by simp; omega
  rw [strncpy, List.take_of_length_le h1, hk, List.replicate_succ, List.append_assoc,
    List.cons_append]
  exact cstr_append_NUL hs _

theorem memcpy_eq_some_iff {dst src d : List Char} {pos : ℕ} :
    memcpy dst pos src = some d ↔
      pos + src.length ≤ dst.length ∧ d = dst.take pos ++ src ++ dst.drop (pos + src.length) := by
  unfold memcpy
  split_ifs with h
  · simp [h, eq_comm]
  · simp [h]

theorem cstr_strncpy_zeros {s : List Char} {n : ℕ} (hs : NUL ∉ s) (hn : s.length ≤ n) :
    cstr (strncpy (List.replicate (n + 1) NUL) s n) = s := by
  have h1 : (s ++ List.replicate (n - s.length) NUL).length = n := by
    rw [List.length_append, List.length_replicate]
    omega
  have h2 : (List.replicate (n + 1) NUL).drop n = [NUL] := by simp [List.drop_replicate]
  rw [strncpy, List.take_of_length_le h1.le, h2, List.append_assoc, ← List.replicate_succ',
    List.replicate_succ]
  exact cstr_append_NUL hs _

theorem NUL_notMem_cstr (a : List Char) : NUL ∉ cstr a := fun h => by
  simpa using List.mem_takeWhile_imp h

theorem cstr_of_notMem {s : List Char} (hs : NUL ∉ s) : cstr s = s := by
  rw [cstr, List.takeWhile_eq_self_iff]
  exact fun c hc => by simpa using fun e : c = NUL => hs (e ▸ hc)

/-! ## Searches -/

/-- A pattern that is not found does not occur. -/
theorem strstr_eq_none_iff {s pat : List Char} : strstr s pat = none ↔ ¬ pat <:+: s := by
  induction s with
  | nil => by_cases h : pat = [] <;> simp [strstr, h]
  | cons c s ih =>
    rw [strstr, List.infix_cons_iff, not_or]
    split_ifs with h
    · simp [h]
    · simp [h, ih]

theorem strstr_prefix (pat s : List Char) : strstr (pat ++ s) pat = some 0 := by
  cases h : pat ++ s with
  | nil => simp [strstr, (List.append_eq_nil_iff.mp h).1]
  | cons c t => rw [strstr, if_pos (h ▸ List.prefix_append pat s)]

theorem strrchr_eq_none_iff {s : List Char} {c : Char} : strrchr s c = none ↔ c ∉ s := by
  induction s with
  | nil => simp [strrchr]
  | cons x s ih =>
    rw [strrchr, List.mem_cons, not_or]
    cases h : strrchr s c with
    | some i =>
      have hmem : ¬ c ∉ s := fun hc => by
        rw [ih.mpr hc] at h
        cases h
      simp [hmem]
    | none => simp [ih.mp h, eq_comm]

/-- The last occurrence of a character. -/
theorem strrchr_split (u : List Char) {c : Char} {v : List Char} (hv : c ∉ v) :
    strrchr (u ++ c :: v) c = some u.length := by
  induction u with
  | nil => simp [strrchr, strrchr_eq_none_iff.mpr hv]
  | cons x u ih => simp [strrchr, ih]

theorem strrchr_concat (s : List Char) (c : Char) : strrchr (s ++ [c]) c = some s.length :=
  strrchr_split s List.not_mem_nil

theorem exists_last {s : List Char} {c : Char} (h : c ∈ s) : ∃ u v, s = u ++ c :: v ∧ c ∉ v := by
  obtain ⟨v, u, hs, hv⟩ := List.eq_append_cons_of_mem (List.mem_reverse.mpr h)
  refine ⟨u.reverse, v.reverse, ?_, by simpa using hv⟩
  rw [← List.reverse_reverse s, hs]
  simp

/-- Nothing is lost but the delimiters. -/
theorem flatten_strtok (s : List Char) (delim : Char) :
    (strtok s delim).flatten = s.filter (· ≠ delim) := by
  have hsplit : (s.splitOn delim).flatten = s.filter (· ≠ delim) := by
    induction s with
    | nil => simp
    | cons x s ih =>
      rw [List.splitOn_cons_eq_if_modifyHead]
      obtain ⟨t, ts, hts⟩ := List.exists_cons_of_ne_nil (List.splitOn_ne_nil delim s)
      rw [hts] at ih ⊢
      by_cases hx : x = delim
      · simpa [hx] using ih
      · simpa [hx] using ih
  rw [strtok, List.flatten_filter_ne_nil, hsplit]

theorem strtok_sublist {s t : List Char} {delim : Char} (h : t ∈ strtok s delim) :
    t.Sublist s := by
  have hflat : t.Sublist (strtok s delim).flatten := List.sublist_flatten_of_mem h
  rw [flatten_strtok] at hflat
  exact hflat.trans List.filter_sublist

/-- Tokens are read back from a text in which single characters divide them. -/
theorem strtok_intercalate {c : Char} {ts : List (List Char)} (hne : ts ≠ [])
    (hts : ∀ t ∈ ts, t ≠ [] ∧ c ∉ t) : strtok ([c].intercalate ts) c = ts := by
  rw [strtok, List.splitOn_intercalate c (fun t ht => (hts t ht).2) hne, List.filter_eq_self]
  exact fun t ht => by simpa using (hts t ht).1

theorem intercalate_cons_flatMap (c : Char) (t : List Char) (ts : List (List Char)) :
    [c].intercalate (t :: ts) = t ++ ts.flatMap (c :: ·) := by
  induction ts generalizing t with
  | nil => simp
  | cons u ts ih =>
    rw [List.intercalate_cons_of_ne_nil (List.cons_ne_nil u ts), ih]
    simp

theorem mem_intercalate {c x : Char} {ts : List (List Char)} (h : x ∈ [c].intercalate ts) :
    x = c ∨ ∃ t ∈ ts, x ∈ t := by
  induction ts with
  | nil => cases h
  | cons t ts ih =>
    by_cases hts : ts = []
    · subst hts
      rw [List.intercalate_singleton] at h
      exact .inr ⟨t, List.mem_cons_self, h⟩
    · rw [List.intercalate_cons_of_ne_nil hts] at h
      rcases List.mem_append.mp h with h | h
      · rcases List.mem_append.mp h with h | h
        · exact .inr ⟨t, List.mem_cons_self, h⟩
        · exact .inl (List.mem_singleton.mp h)
      · rcases ih h with h | ⟨u, hu, hx⟩
        · exact .inl h
        · exact .inr ⟨u, List.mem_cons_of_mem _ hu, hx⟩

theorem length_le_intercalate {c : Char} {t : List Char} {ts : List (List Char)} (h : t ∈ ts) :
    t.length ≤ ([c].intercalate ts).length := by
  induction ts with
  | nil => cases h
  | cons u ts ih =>
    by_cases hts : ts = []
    · subst hts
      rw [List.mem_singleton.mp h, List.intercalate_singleton]
    · rw [List.intercalate_cons_of_ne_nil hts, List.length_append, List.length_append]
      rcases List.mem_cons.mp h with rfl | h
      · omega
      · have h1 := ih h
        omega

end CString
