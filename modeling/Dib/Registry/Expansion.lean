import Dib.Lib.Replace
import Dib.Registry.Daemon

/-!
# Replacements in a path

`replace_string` replaces the first occurrence and starts again from the beginning, so that what was
inserted is searched as well.

* `leftmost_of_strstr`: it replaces the first occurrence;
* **`replaceString_replaceAll`**: if nothing overlaps, it is a single pass;
* `replaceString_of_lowers`: it ends if some measure is lowered;
* `envReference`: the reference of a path to the environment, and the value; `ReplacementsEnd`: what
  is enough for the loop to end;
* **`createPathFromEnv_returns`**: it does, and it does not if the value contains the reference.
-/

set_option autoImplicit false

namespace Dib

open CString Replace

/-! ## The first occurrence -/

variable {pat rep S T z path : List Char} {n m i : ℕ}

theorem leftmost_of_strstr (h : strstr S pat = some i) :
    Leftmost pat S (S.take i) (S.drop (i + pat.length)) := by
  induction S generalizing i with
  | nil =>
    obtain ⟨rfl, ⟨⟩⟩ := Option.ite_none_right_eq_some.mp h
    exact ⟨rfl, fun _ _ _ => Nat.zero_le _⟩
  | cons c S ih =>
    rw [strstr] at h
    split at h
    · next hstart =>
      obtain rfl := Option.some.inj h
      obtain ⟨y, hy⟩ := hstart
      refine ⟨?_, fun _ _ _ => Nat.zero_le _⟩
      rw [Nat.zero_add, ← hy]
      simp
    · next hstart =>
      obtain ⟨j, hj, rfl⟩ := Option.map_eq_some_iff.mp h
      obtain ⟨heq, hfirst⟩ := ih hj
      have hdrop : (c :: S).drop (j + 1 + pat.length) = S.drop (j + pat.length) := by
        rw [Nat.add_right_comm, List.drop_succ_cons]
      refine ⟨by rw [hdrop, List.take_succ_cons, List.cons_append, List.cons_append, ← heq], ?_⟩
      intro x y hxy
      cases x with
      | nil => exact absurd ⟨y, hxy.symm⟩ hstart
      | cons d x =>
        have hle := hfirst x y (List.cons.inj hxy).2
        simp only [List.length_take, List.length_cons] at hle ⊢
        omega

theorem replaceString_done (h : ¬ pat <:+: S) :
    replaceString pat rep (n + 1) S = some S := by
  rw [replaceString, strstr_eq_none_iff.mpr h]

theorem exists_leftmost (h : pat <:+: S) : ∃ x y, Leftmost pat S x y ∧
    ∀ rep n, replaceString pat rep (n + 1) S = replaceString pat rep n (x ++ rep ++ y) := by
  cases hi : strstr S pat with
  | none => exact absurd h (strstr_eq_none_iff.mp hi)
  | some i =>
    refine ⟨_, _, leftmost_of_strstr hi, fun rep n => ?_⟩
    rw [replaceString, hi]

/-! ## A single pass -/

theorem replaceString_sealed (hrep : ¬ pat <:+: rep) (hpat : ¬ rep <:+: pat)
    (hstart : NoPrefixEnds pat rep) (hsuffix : NoSuffixBegins pat rep) (hz : Sealed pat z)
    (hn : S.length < n) :
    replaceString pat rep n (z ++ S) = some (z ++ replaceAll pat rep S) := by
  have hne : pat ≠ [] := by
    rintro rfl
    exact hrep ⟨[], rep, rfl⟩
  induction n generalizing z S with
  | zero => exact absurd hn (Nat.not_lt_zero _)
  | succ n ih =>
    by_cases hS : pat <:+: S
    · obtain ⟨x, y, hfirst, -⟩ := exists_leftmost hS
      obtain ⟨x', y', hfirst', hnext⟩ := exists_leftmost (hS.trans (List.suffix_append z S).isInfix)
      obtain ⟨rfl, rfl⟩ := (hfirst.append_sealed hz).unique hfirst'
      have hlen : y.length < n := by
        have hpos := List.length_pos_of_ne_nil hne
        have hle := congrArg List.length hfirst.eq
        simp only [List.length_append] at hle
        omega
      rw [hnext, ih (sealed_append hz hfirst hrep hpat hstart hsuffix) hlen,
        hfirst.replaceAll hne]
      simp
    · rw [replaceString_done fun h => hS (infix_of_sealed hz h),
        replaceAll_of_not_infix hS]

/-- **`replace_string` is a single pass if nothing overlaps**: neither text contains the other, no
prefix of the one that is searched ends the other, and no suffix begins it. -/
theorem replaceString_replaceAll {search_str replace_str : List Char}
    (hsearch : ¬ search_str <:+: replace_str) (hreplace : ¬ replace_str <:+: search_str)
    (hstart : NoPrefixEnds search_str replace_str)
    (hsuffix : NoSuffixBegins search_str replace_str) (source_str : List Char) {rounds : ℕ}
    (hrounds : source_str.length < rounds) :
    replaceString search_str replace_str rounds source_str =
      some (replaceAll search_str replace_str source_str) :=
  replaceString_sealed hsearch hreplace hstart hsuffix sealed_nil hrounds

/-- A letter goes, a word comes. -/
theorem replaceString_words : replaceString ['a', 'b'] ['c', 'd', 'c'] 9 "abxaab".toList =
    some "cdcxacdc".toList :=
  (replaceString_replaceAll (by decide) (by decide) (by decide) (by decide) "abxaab".toList
    (by decide)).trans (by decide)

/-! ## The loop ends -/

theorem replaceString_mono (h : replaceString pat rep n S = some T) (hnm : n ≤ m) :
    replaceString pat rep m S = some T := by
  induction n generalizing m S with
  | zero => cases h
  | succ n ih =>
    obtain ⟨m, rfl⟩ : ∃ k, m = k + 1 := ⟨m - 1, by omega⟩
    by_cases hS : pat <:+: S
    · obtain ⟨x, y, -, hnext⟩ := exists_leftmost hS
      rw [hnext] at h ⊢
      exact ih h (Nat.le_of_succ_le_succ hnm)
    · rw [replaceString_done hS] at h ⊢
      exact h

/-- **The loop ends** after no more replacements than the measure says. -/
theorem replaceString_of_lowers {P : ℕ → List Char → Prop} (hP : Lowers pat rep P) (hS : P n S) :
    ∃ T, replaceString pat rep (n + 1) S = some T := by
  induction n using Nat.strong_induction_on generalizing S with
  | _ n ih =>
    by_cases hpat : pat <:+: S
    · obtain ⟨x, y, hfirst, hnext⟩ := exists_leftmost hpat
      obtain ⟨m, hm, hT⟩ := hP n S _ hS ⟨x, y, hfirst.eq, rfl⟩
      obtain ⟨T, hT⟩ := ih m hm hT
      exact ⟨T, by rw [hnext, replaceString_mono hT hm]⟩
    · exact ⟨S, replaceString_done hpat⟩

theorem replaceString_of_contained (hrep : pat <:+: rep) (hS : pat <:+: S) (rounds : ℕ) :
    replaceString pat rep rounds S = none := by
  induction rounds generalizing S with
  | zero => rfl
  | succ n ih =>
    obtain ⟨x, y, -, hnext⟩ := exists_leftmost hS
    rw [hnext]
    exact ih (hrep.trans ⟨x, y, rfl⟩)

/-! ## References to the environment -/

/-- The reference of a path to the environment, and the value of its variable. -/
def envReference (T : LibTestbox) (orig_path : List Char) : Option (List Char × List Char) :=
  match strstr orig_path ['$', '('] with
  | none => none
  | some envstart =>
    let env := orig_path.drop envstart
    match strstr env [')'] with
    | none => none
    | some envend =>
      (T.getenv ((env.drop 2).take (envend - 2))).map fun envpath =>
        (env.take (envend + 1), envpath)

/-- What is enough for the expansion of a path to end: a single pass leaves no reference; or the
value does not contain it and is not longer, has no two brackets, does not end in a prefix of the
reference or does not begin with a suffix of it. -/
def ReplacementsEnd (reference envpath orig_path : List Char) : Prop :=
  ¬ reference <:+: replaceAll reference envpath orig_path ∨
    (¬ reference <:+: envpath ∧
      (envpath.length ≤ reference.length ∨ envpath.count ')' ≤ 1 ∨
        NoPrefixEnds reference envpath ∨ NoSuffixBegins reference envpath))

theorem createPathFromEnv_eq (T : LibTestbox) (rounds : ℕ) (orig_path : List Char) :
    createPathFromEnv T rounds orig_path =
      match envReference T orig_path with
      | none => some none
      | some (reference, envpath) =>
        (replaceString reference envpath rounds orig_path).map some := by
  unfold createPathFromEnv envReference
  cases strstr orig_path ['$', '('] with
  | none => rfl
  | some envstart =>
    dsimp only
    cases strstr (orig_path.drop envstart) [')'] with
    | none => rfl
    | some envend =>
      dsimp only
      cases T.getenv (((orig_path.drop envstart).drop 2).take (envend - 2)) <;> rfl

theorem strstr_letter {c : Char} (h : strstr S [c] = some i) :
    S.take (i + 1) = S.take i ++ [c] ∧ c ∉ S.take i := by
  obtain ⟨heq, hfirst⟩ := leftmost_of_strstr h
  have hlen := congrArg List.length heq
  simp only [List.length_append, List.length_take, List.length_drop, List.length_singleton] at hlen
  have hi : (S.take i).length = i := by
    rw [List.length_take]
    omega
  generalize S.take i = x at *
  generalize S.drop (i + [c].length) = y at *
  subst heq
  refine ⟨?_, fun hmem => ?_⟩
  · rw [← hi, List.append_assoc, List.take_length_add_append]
    rfl
  · obtain ⟨a, b, rfl⟩ := List.append_of_mem hmem
    have hle := hfirst a (b ++ [c] ++ y) (by simp)
    simp at hle

theorem envReference_spec {T : LibTestbox} (h : envReference T path = some (pat, rep)) :
    (∃ u, pat = u ++ [')'] ∧ ')' ∉ u) ∧ pat <:+: path := by
  unfold envReference at h
  split at h
  · cases h
  next envstart _ =>
  dsimp only at h
  split at h
  · cases h
  next envend hend =>
  obtain ⟨_, -, h⟩ := Option.map_eq_some_iff.mp h
  obtain ⟨rfl, rfl⟩ := Prod.mk.inj h
  exact ⟨⟨_, strstr_letter hend⟩,
    (List.take_prefix _ _).isInfix.trans (List.drop_suffix _ _).isInfix⟩

section Bracket

variable {u : List Char}

theorem noPrefixEnds_self (hpat : pat = u ++ [')']) (hu : ')' ∉ u) : NoPrefixEnds pat pat := by
  intro p hp hne hpre hsuf
  rw [hpat, List.prefix_concat_iff] at hpre
  rcases hpre with rfl | hpre
  · exact hne hpat.symm
  rw [hpat, List.suffix_concat_iff] at hsuf
  rcases hsuf with rfl | ⟨q, rfl, -⟩
  · exact hp rfl
  · exact hu (hpre.mem (by simp))

theorem noSuffixBegins_of_notMem (hpat : pat = u ++ [')']) (hrep : ')' ∉ rep) :
    NoSuffixBegins pat rep := by
  intro p hp _ hsuf hpre
  rw [hpat, List.suffix_concat_iff] at hsuf
  rcases hsuf with rfl | ⟨q, rfl, -⟩
  · exact hp rfl
  · exact hrep (hpre.mem (by simp))

/-- With one bracket that is not earlier than that of the reference, nor has a prefix of it. -/
theorem noSuffixBegins_of_length {v t : List Char} (hpat : pat = u ++ [')'])
    (hrep : rep = v ++ ')' :: t) (hv : ')' ∉ v) (ht : ')' ∉ t) (hlen : u.length ≤ v.length) :
    NoSuffixBegins pat rep := by
  intro p hp hne hsuf hpre
  rw [hpat, List.suffix_concat_iff] at hsuf
  rcases hsuf with rfl | ⟨q, rfl, hq⟩
  · exact hp rfl
  obtain ⟨s, hs⟩ := hpre
  rw [hrep, List.append_assoc, List.singleton_append] at hs
  obtain ⟨rfl, -⟩ := (List.append_cons_inj_of_notMem hv ht).mp hs.symm
  have hqu := hq.eq_of_length (le_antisymm hq.length_le hlen)
  exact hne (by rw [hqu, hpat])

theorem replaceString_of_count (hpat : pat = u ++ [')']) (hu : ')' ∉ u) (hrep : ¬ pat <:+: rep)
    (hcount : rep.count ')' ≤ 1) (S : List Char) :
    ∃ rounds T, replaceString pat rep rounds S = some T := by
  by_cases hmem : ')' ∈ rep
  · obtain ⟨v, t, hrep', hv⟩ := List.eq_append_cons_of_mem hmem
    have ht : ')' ∉ t := by
      rw [hrep', List.count_append, List.count_cons_self] at hcount
      exact List.count_eq_zero.mp (by omega)
    rcases Nat.lt_or_ge v.length u.length with hlen | hlen
    · exact ⟨_, replaceString_of_lowers (lowers_columns hpat hrep' hu hv ht hlen) rfl⟩
    · exact ⟨_, replaceString_of_lowers
        (lowers_reverse hrep (noSuffixBegins_of_length hpat hrep' hv ht hlen)) (built_length _)⟩
  · exact ⟨_, replaceString_of_lowers
      (lowers_reverse hrep (noSuffixBegins_of_notMem hpat hmem)) (built_length _)⟩

theorem replaceString_ends (hpat : pat = u ++ [')']) (hu : ')' ∉ u)
    (h : ReplacementsEnd pat rep S) :
    ∃ rounds T, replaceString pat rep rounds S = some T := by
  rcases h with hpass | ⟨hrep, hlen | hcount | hstart | hsuffix⟩
  · obtain ⟨n, hn⟩ := endsIn_replaceAll (z := []) (by simp [hpat]) S hpass
    exact ⟨_, replaceString_of_lowers (lowers_endsIn (noPrefixEnds_self hpat hu)) hn⟩
  · rcases hlen.lt_or_eq with hlt | heq
    · exact ⟨_, replaceString_of_lowers (lowers_length hlt) rfl⟩
    · obtain ⟨a, ha⟩ := lowers_weight heq fun he => hrep (he ▸ List.infix_rfl)
      exact ⟨_, replaceString_of_lowers ha rfl⟩
  · exact replaceString_of_count hpat hu hrep hcount S
  · exact ⟨_, replaceString_of_lowers (lowers_built hrep hstart) (built_length _)⟩
  · exact ⟨_, replaceString_of_lowers (lowers_reverse hrep hsuffix) (built_length _)⟩

end Bracket

/-! ## The expansion of a path -/

/-- **`create_path_from_env` returns** if `ReplacementsEnd` is true of the reference of the path; it
does not if the value of the variable contains the reference. -/
theorem createPathFromEnv_returns (T : LibTestbox) (orig_path : List Char) :
    ((∀ reference envpath, envReference T orig_path = some (reference, envpath) →
        ReplacementsEnd reference envpath orig_path) →
      ∃ rounds result, createPathFromEnv T rounds orig_path = some result) ∧
    ∀ reference envpath, envReference T orig_path = some (reference, envpath) →
      reference <:+: envpath → ∀ rounds, createPathFromEnv T rounds orig_path = none := by
  constructor
  · intro h
    cases href : envReference T orig_path with
    | none => exact ⟨0, none, by rw [createPathFromEnv_eq, href]⟩
    | some pair =>
      obtain ⟨reference, envpath⟩ := pair
      obtain ⟨⟨u, hpat, hu⟩, -⟩ := envReference_spec href
      obtain ⟨rounds, result, hresult⟩ := replaceString_ends hpat hu (h _ _ href)
      exact ⟨rounds, some result, by rw [createPathFromEnv_eq, href]; simp [hresult]⟩
  · intro reference envpath href hcontained rounds
    have hnone := replaceString_of_contained hcontained (envReference_spec href).2 rounds
    rw [createPathFromEnv_eq, href]
    simp [hnone]

/-- The variable `A` is a directory. -/
def directoryTestbox : LibTestbox :=
  { plainTestbox with getenv := fun name => if name = ['A'] then some "/opt".toList else none }

theorem createPathFromEnv_directory : ∃ rounds result,
    createPathFromEnv directoryTestbox rounds "$(A)/x".toList = some result := by
  refine (createPathFromEnv_returns directoryTestbox "$(A)/x".toList).1
    fun reference envpath href => ?_
  have hvalue : envReference directoryTestbox "$(A)/x".toList =
      some ("$(A)".toList, "/opt".toList) := by decide
  obtain ⟨rfl, rfl⟩ := Prod.mk.inj (Option.some.inj (hvalue.symm.trans href))
  exact .inr ⟨by decide, .inl (by decide)⟩

/-- The variable `A` is its own reference. -/
def selfTestbox : LibTestbox :=
  { plainTestbox with getenv := fun name => if name = ['A'] then some "$(A)".toList else none }

/-- The same reference is found in the same text again. -/
theorem self_reference_never_ends :
    (∀ rounds, createPathFromEnv selfTestbox rounds "$(A)".toList = none) ∧
      ¬ ∀ (T : LibTestbox) (orig_path : List Char), ∃ rounds result,
        createPathFromEnv T rounds orig_path = some result := by
  have hnone (rounds : ℕ) : createPathFromEnv selfTestbox rounds "$(A)".toList = none := by
    have hvalue : envReference selfTestbox "$(A)".toList =
        some ("$(A)".toList, "$(A)".toList) := by decide
    rw [createPathFromEnv_eq, hvalue]
    simp only [replaceString_of_contained List.infix_rfl List.infix_rfl, Option.map_none]
  refine ⟨hnone, fun h => ?_⟩
  obtain ⟨rounds, result, hresult⟩ := h selfTestbox "$(A)".toList
  rw [hnone] at hresult
  cases hresult

end Dib
