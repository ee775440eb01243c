import Mathlib.Data.List.Basic
import Mathlib.Data.List.Infix
import Mathlib.Tactic.Ring

/-!
# Replacing a pattern in a list

* `EndsIn`: a relation leads to where it cannot go on; **`EndsIn.of_step`**: where steps commute,
  every step leads there;
* `Step`: one occurrence of a pattern is replaced, `Leftmost`: the first one;
* `NoPrefixEnds`, `NoSuffixBegins`: how a pattern and its replacement may overlap;
  **`Step.diamond`**: a pattern that does not overlap itself;
* `replaceAll`: a single pass from the left; `endsIn_replaceAll`: it is made of steps;
* `Sealed`, **`sealed_append`**: what is replaced meets no occurrence, if nothing overlaps;
* `Lowers`: every step lowers a measure; **`lowers_endsIn`**, **`lowers_built`**,
  **`lowers_reverse`**, `lowers_length`, **`lowers_weight`**, **`lowers_columns`**: measures.
-/

set_option autoImplicit false

namespace Replace

universe u

variable {α : Type u}

/-! ## Relations -/

/-- So many steps lead to where there are none. -/
inductive EndsIn (r : α → α → Prop) : ℕ → α → Prop
  | normal {x : α} : (∀ y, ¬ r x y) → EndsIn r 0 x
  | step {n : ℕ} {x y : α} : r x y → EndsIn r n y → EndsIn r (n + 1) x

/-- **Where steps commute, every step is one of them.** -/
theorem EndsIn.of_step {r : α → α → Prop} {n : ℕ} {x y : α}
    (hr : ∀ x y z, r x y → r x z → y = z ∨ ∃ w, r y w ∧ r z w) (h : EndsIn r n x) (hxy : r x y) :
    ∃ m < n, EndsIn r m y := by
  induction h generalizing y with
  | normal hx => exact absurd hxy (hx y)
  | @step n x z hxz hz ih =>
    rcases hr x y z hxy hxz with rfl | ⟨w, hyw, hzw⟩
    · exact ⟨n, Nat.lt_succ_self n, hz⟩
    · obtain ⟨m, hm, hw⟩ := ih hzw
      exact ⟨m + 1, Nat.succ_lt_succ hm, .step hyw hw⟩

/-! ## Steps -/

/-- One occurrence of `pat` is replaced by `rep`. -/
def Step (pat rep S T : List α) : Prop := ∃ x y, S = x ++ pat ++ y ∧ T = x ++ rep ++ y

/-- `pat` occurs between `x` and `y`, and nowhere before. -/
structure Leftmost (pat S x y : List α) : Prop where
  eq : S = x ++ pat ++ y
  first : ∀ x' y', S = x' ++ pat ++ y' → x.length ≤ x'.length

/-- No non-empty proper prefix of `pat` ends `rep`. -/
def NoPrefixEnds (pat rep : List α) : Prop := ∀ p, p ≠ [] → p ≠ pat → p <+: pat → ¬ p <:+ rep

/-- No non-empty proper suffix of `pat` begins `rep`. -/
def NoSuffixBegins (pat rep : List α) : Prop := ∀ p, p ≠ [] → p ≠ pat → p <:+ pat → ¬ p <+: rep

variable {pat rep S T x y : List α}

theorem noPrefixEnds_iff :
    NoPrefixEnds pat rep ↔ ∀ k < pat.length, k ≠ 0 → ¬ pat.take k <:+ rep := by
  constructor
  · intro h k hk hk0
    refine h _ (fun he => ?_) (fun he => ?_) (List.take_prefix k pat)
    · have hlen := congrArg List.length he
      simp only [List.length_take, List.length_nil] at hlen
      omega
    · have hlen := congrArg List.length he
      simp only [List.length_take] at hlen
      omega
  · intro h p hp hne hpre
    have hlt : p.length < pat.length :=
      lt_of_le_of_ne hpre.length_le fun he => hne (hpre.eq_of_length he)
    rw [List.prefix_iff_eq_take.mp hpre]
    exact h p.length hlt fun he => hp (List.length_eq_zero_iff.mp he)

theorem noSuffixBegins_iff :
    NoSuffixBegins pat rep ↔ ∀ k < pat.length, k ≠ 0 → ¬ pat.drop k <+: rep := by
  constructor
  · intro h k hk hk0
    refine h _ (fun he => ?_) (fun he => ?_) (List.drop_suffix k pat)
    · have hlen := congrArg List.length he
      simp only [List.length_drop, List.length_nil] at hlen
      omega
    · have hlen := congrArg List.length he
      simp only [List.length_drop] at hlen
      omega
  · intro h p hp hne hsuf
    have hlt : p.length < pat.length :=
      lt_of_le_of_ne hsuf.length_le fun he => hne (hsuf.eq_of_length he)
    have hpos := List.length_pos_of_ne_nil hp
    rw [List.suffix_iff_eq_drop.mp hsuf]
    exact h (pat.length - p.length) (by omega) (by omega)

instance [DecidableEq α] : Decidable (NoPrefixEnds pat rep) := decidable_of_iff' _ noPrefixEnds_iff

instance [DecidableEq α] : Decidable (NoSuffixBegins pat rep) :=
  decidable_of_iff' _ noSuffixBegins_iff

theorem infix_iff_exists : pat <:+: S ↔ ∃ x y, S = x ++ pat ++ y :=
  ⟨fun ⟨x, y, h⟩ => ⟨x, y, h.symm⟩, fun ⟨x, y, h⟩ => ⟨x, y, h.symm⟩⟩

theorem infix_of_step (h : Step pat rep S T) : pat <:+: S := by
  obtain ⟨x, y, rfl, -⟩ := h
  exact ⟨x, y, rfl⟩

theorem prefix_of_append_eq {a b c d : List α} (h : a ++ b = c ++ d) (hlen : a.length ≤ c.length) :
    a <+: c :=
  List.prefix_of_prefix_length_le (List.prefix_append a b) (h ▸ List.prefix_append c d) hlen

theorem Leftmost.unique {x' y' : List α} (h : Leftmost pat S x y) (h' : Leftmost pat S x' y') :
    x = x' ∧ y = y' := by
  have hlen : x.length = x'.length :=
    le_antisymm (h.first _ _ h'.eq) (h'.first _ _ h.eq)
  have heq := h.eq.symm.trans h'.eq
  simp only [List.append_assoc] at heq
  obtain ⟨hx, hy⟩ := List.append_inj heq hlen
  exact ⟨hx, List.append_cancel_left hy⟩

theorem occurrences_apart (hpat : NoPrefixEnds pat pat) {x' y' : List α}
    (h : x ++ pat ++ y = x' ++ pat ++ y') (hlen : x.length ≤ x'.length) :
    (x = x' ∧ y = y') ∨ ∃ z, x' = x ++ pat ++ z ∧ y = z ++ pat ++ y' := by
  simp only [List.append_assoc] at h
  obtain ⟨a, rfl⟩ := prefix_of_append_eq h hlen
  rw [List.append_assoc, List.append_cancel_left_eq] at h
  by_cases ha : a = []
  · subst ha
    rw [List.nil_append, List.append_cancel_left_eq] at h
    exact .inl ⟨by simp, h⟩
  rcases List.append_eq_append_iff.mp h with ⟨b, rfl, h1⟩ | ⟨b, h1, h2⟩
  · exact .inr ⟨b, by simp, by simpa using h1⟩
  by_cases hb : b = []
  · subst hb
    rw [List.append_nil] at h1
    exact .inr ⟨[], by simp [h1], by simpa using h2.symm⟩
  · have hne : b ≠ pat := by
      rintro rfl
      exact ha (by simpa using h1)
    have hlen' : b.length ≤ pat.length := by simp [h1]
    exact absurd ⟨a, h1.symm⟩ (hpat b hb hne (prefix_of_append_eq h2.symm hlen'))

/-- **Such occurrences can be replaced in any order.** -/
theorem Step.diamond (hpat : NoPrefixEnds pat pat) {T' : List α} (h : Step pat rep S T)
    (h' : Step pat rep S T') : T = T' ∨ ∃ U, Step pat rep T U ∧ Step pat rep T' U := by
  obtain ⟨x, y, rfl, rfl⟩ := h
  obtain ⟨x', y', h, rfl⟩ := h'
  rcases le_total x.length x'.length with hlen | hlen
  · rcases occurrences_apart hpat h hlen with ⟨rfl, rfl⟩ | ⟨z, rfl, rfl⟩
    · exact .inl rfl
    · exact .inr ⟨x ++ rep ++ z ++ rep ++ y', ⟨x ++ rep ++ z, y', by simp, by simp⟩,
        x, z ++ rep ++ y', by simp, by simp⟩
  · rcases occurrences_apart hpat h.symm hlen with ⟨rfl, rfl⟩ | ⟨z, rfl, rfl⟩
    · exact .inl rfl
    · exact .inr ⟨x' ++ rep ++ z ++ rep ++ y, ⟨x', z ++ rep ++ y, by simp, by simp⟩,
        x' ++ rep ++ z, y, by simp, by simp⟩

/-! ## A single pass -/

section Pass

variable [DecidableEq α]

/-- The pass, when the first `k` letters belong to an occurrence. -/
def replaceFrom (pat rep : List α) : ℕ → List α → List α
  | _, [] => []
  | k + 1, _ :: s => replaceFrom pat rep k s
  | 0, c :: s =>
    if pat <+: c :: s then rep ++ replaceFrom pat rep (pat.length - 1) s
    else c :: replaceFrom pat rep 0 s

/-- The occurrences of `pat`, from left to right without overlap, are replaced by `rep`. -/
def replaceAll (pat rep s : List α) : List α := replaceFrom pat rep 0 s

variable {s : List α} {c : α}

theorem replaceFrom_eq (k : ℕ) (s : List α) :
    replaceFrom pat rep k s = replaceAll pat rep (s.drop k) := by
  induction s generalizing k with
  | nil => cases k <;> simp [replaceFrom, replaceAll]
  | cons c s ih =>
    cases k with
    | zero => rfl
    | succ k => rw [replaceFrom, ih, List.drop_succ_cons]

theorem replaceAll_cons (h : ¬ pat <+: c :: s) :
    replaceAll pat rep (c :: s) = c :: replaceAll pat rep s := by
  rw [replaceAll, replaceFrom, if_neg h]
  rfl

theorem replaceAll_append (hpat : pat ≠ []) (s : List α) :
    replaceAll pat rep (pat ++ s) = rep ++ replaceAll pat rep s := by
  cases pat with
  | nil => exact absurd rfl hpat
  | cons c pat =>
    have hstart : c :: pat <+: c :: (pat ++ s) := ⟨s, rfl⟩
    rw [List.cons_append, replaceAll, replaceFrom, if_pos hstart, replaceFrom_eq,
      List.length_cons, Nat.add_sub_cancel, List.drop_left]

theorem replaceAll_of_not_infix (h : ¬ pat <:+: s) : replaceAll pat rep s = s := by
  induction s with
  | nil => rfl
  | cons c s ih =>
    rw [List.infix_cons_iff, not_or] at h
    rw [replaceAll_cons h.1, ih h.2]

theorem Leftmost.replaceAll (hpat : pat ≠ []) (h : Leftmost pat s x y) :
    replaceAll pat rep s = x ++ rep ++ replaceAll pat rep y := by
  obtain ⟨rfl, hfirst⟩ := h
  induction x with
  | nil => rw [List.nil_append, replaceAll_append hpat, List.nil_append]
  | cons c x ih =>
    have hstart : ¬ pat <+: c :: (x ++ pat ++ y) := by
      rintro ⟨z, hz⟩
      have hlen := hfirst [] z (by simp [hz])
      simp at hlen
    rw [List.cons_append, List.cons_append, replaceAll_cons hstart, ih]
    · simp
    · intro x' y' h
      have hlen := hfirst (c :: x') y' (by simp [h])
      simpa using hlen

/-- **A pass is made of steps.** -/
theorem endsIn_replaceAll (hpat : pat ≠ []) {z : List α} (s : List α)
    (hend : ¬ pat <:+: z ++ replaceAll pat rep s) : ∃ n, EndsIn (Step pat rep) n (z ++ s) := by
  induction hn : s.length using Nat.strong_induction_on generalizing z s with
  | _ n ih =>
    subst hn
    cases s with
    | nil => exact ⟨0, .normal fun T hT => hend (infix_of_step hT)⟩
    | cons c s =>
      by_cases hstart : pat <+: c :: s
      · obtain ⟨t, ht⟩ := hstart
        rw [← ht, replaceAll_append hpat, ← List.append_assoc] at hend
        have hlen : t.length < (c :: s).length := by
          have hpos := List.length_pos_of_ne_nil hpat
          rw [← ht, List.length_append]
          omega
        obtain ⟨n, hn⟩ := ih _ hlen t hend rfl
        exact ⟨n + 1, .step ⟨z, t, by simp [← ht], rfl⟩ hn⟩
      · rw [replaceAll_cons hstart, ← List.singleton_append, ← List.append_assoc] at hend
        obtain ⟨n, hn⟩ := ih _ (Nat.lt_succ_self _) s hend rfl
        exact ⟨n, by simpa using hn⟩

end Pass

/-! ## Replacements that meet no occurrence -/

/-- Whatever follows, no occurrence of `pat` begins in `z`. -/
def Sealed (pat z : List α) : Prop :=
  ∀ t x y, z ++ t = x ++ pat ++ y → z.length ≤ x.length

theorem sealed_nil : Sealed pat [] := fun _ _ _ _ => Nat.zero_le _

theorem Leftmost.append_sealed {z s : List α} (hz : Sealed pat z) (h : Leftmost pat s x y) :
    Leftmost pat (z ++ s) (z ++ x) y := by
  refine ⟨by simp [h.eq], fun x' y' hs => ?_⟩
  have hle := hz s x' y' hs
  obtain ⟨a, rfl⟩ : z <+: x' := prefix_of_append_eq (by simpa using hs) hle
  have hle' := h.first a y' (by simpa using hs)
  simpa using hle'

theorem infix_of_sealed {z s : List α} (hz : Sealed pat z) (h : pat <:+: z ++ s) :
    pat <:+: s := by
  obtain ⟨x, y, hs⟩ := infix_iff_exists.mp h
  obtain ⟨a, rfl⟩ : z <+: x := prefix_of_append_eq (by simpa using hs) (hz s x y hs)
  exact ⟨a, y, by simpa using hs.symm⟩

theorem not_begins_in_rep {b t : List α} (hrep : ¬ pat <:+: rep) (hstart : NoPrefixEnds pat rep)
    (h : rep ++ t = b ++ (pat ++ y)) : rep.length ≤ b.length := by
  rcases List.append_eq_append_iff.mp h with ⟨c, rfl, -⟩ | ⟨c, rfl, h1⟩
  · simp
  by_cases hc : c = []
  · simp [hc]
  exfalso
  rcases List.append_eq_append_iff.mp h1 with ⟨d, rfl, -⟩ | ⟨d, hd, -⟩
  · exact hrep ⟨b, d, by simp⟩
  · by_cases hne : c = pat
    · exact hrep ⟨b, [], by simp [hne]⟩
    · exact hstart c hc hne ⟨d, hd.symm⟩ ⟨b, rfl⟩

theorem ends_before_rep {b t : List α} (hrep : ¬ pat <:+: rep) (hpat : ¬ rep <:+: pat)
    (hsuffix : NoSuffixBegins pat rep) (h : pat ++ y = b ++ (rep ++ t)) : ∃ d, b = pat ++ d := by
  rcases List.append_eq_append_iff.mp h with ⟨d, hd, -⟩ | ⟨d, hd, h1⟩
  · exact ⟨d, hd⟩
  by_cases hempty : d = []
  · exact ⟨[], by simp [hd, hempty]⟩
  exfalso
  rcases List.append_eq_append_iff.mp h1 with ⟨e, he, -⟩ | ⟨e, he, -⟩
  · exact hpat ⟨b, e, by simp [hd, he]⟩
  · by_cases hne : d = pat
    · exact hrep ⟨[], e, by simp [he, hne]⟩
    · exact hsuffix d hempty hne ⟨b, hd.symm⟩ ⟨e, he.symm⟩

/-- **The first occurrence, replaced**, is not met again if nothing overlaps. -/
theorem sealed_append {z s : List α} (hz : Sealed pat z) (hs : Leftmost pat s x y)
    (hrep : ¬ pat <:+: rep) (hpat : ¬ rep <:+: pat) (hstart : NoPrefixEnds pat rep)
    (hsuffix : NoSuffixBegins pat rep) : Sealed pat (z ++ x ++ rep) := by
  intro t x' y' h
  obtain ⟨a, rfl⟩ : z <+: x' := by
    have hlen := hz (x ++ rep ++ t) x' y' (by simpa using h)
    simp only [List.append_assoc] at h
    exact prefix_of_append_eq h hlen
  simp only [List.append_assoc, List.append_cancel_left_eq] at h
  suffices hle : x.length + rep.length ≤ a.length by
    simp only [List.length_append]
    omega
  rcases List.append_eq_append_iff.mp h with ⟨b, rfl, h1⟩ | ⟨b, rfl, h1⟩
  · have hle := not_begins_in_rep hrep hstart h1
    simpa using hle
  · -- it would end before the replacement, and be the first one
    obtain ⟨d, rfl⟩ := ends_before_rep hrep hpat hsuffix h1
    have hfirst := hs.first a (d ++ pat ++ y) (by simp [hs.eq])
    have hne : pat ≠ [] := by
      rintro rfl
      exact hrep ⟨[], rep, rfl⟩
    have hpos := List.length_pos_of_ne_nil hne
    simp only [List.length_append] at hfirst
    omega

/-! ## Measures -/

/-- Every step lowers the measure. -/
def Lowers (pat rep : List α) (P : ℕ → List α → Prop) : Prop :=
  ∀ n S T, P n S → Step pat rep S T → ∃ m < n, P m T

/-- The steps to where there are none. -/
theorem lowers_endsIn (hpat : NoPrefixEnds pat pat) :
    Lowers pat rep (EndsIn (Step pat rep)) := fun _ _ _ h hst =>
  h.of_step (fun _ _ _ => Step.diamond hpat) hst

/-- The length, if the replacement is shorter. -/
theorem lowers_length (hlen : rep.length < pat.length) :
    Lowers pat rep fun n S => S.length = n := by
  rintro _ _ _ rfl ⟨x, y, rfl, rfl⟩
  refine ⟨_, ?_, rfl⟩
  simp only [List.length_append]
  omega

/-- `n` letters, and between them what is left of replacements that lost a prefix. -/
inductive Built (rep : List α) : ℕ → List α → Prop
  | nil : Built rep 0 []
  | letter (c : α) {n : ℕ} {s : List α} : Built rep n s → Built rep (n + 1) (c :: s)
  | rest {n : ℕ} {t s : List α} : t <:+ rep → Built rep n s → Built rep n (t ++ s)

theorem built_length (S : List α) : Built rep S.length S := by
  induction S with
  | nil => exact .nil
  | cons c S ih => exact .letter c ih

theorem Built.drop {n : ℕ} {p : List α} (h : Built rep n S) (hS : S = p ++ y) :
    ∃ m ≤ n, Built rep m y := by
  induction h generalizing p with
  | nil =>
    obtain ⟨-, rfl⟩ := List.append_eq_nil_iff.mp hS.symm
    exact ⟨0, le_rfl, .nil⟩
  | @letter c n s hs ih =>
    cases p with
    | nil =>
      obtain rfl : c :: s = y := hS
      exact ⟨n + 1, le_rfl, hs.letter c⟩
    | cons d p =>
      obtain ⟨m, hm, hy⟩ := ih (List.cons.inj hS).2
      exact ⟨m, Nat.le_succ_of_le hm, hy⟩
  | @rest n t s ht hs ih =>
    rcases List.append_eq_append_iff.mp hS with ⟨a, -, h1⟩ | ⟨a, rfl, rfl⟩
    · exact ih h1
    · exact ⟨n, le_rfl, .rest ((List.suffix_append p a).trans ht) hs⟩

/-- **The letters, if no prefix of the pattern ends the replacement**: an occurrence begins with a
letter. -/
theorem lowers_built (hrep : ¬ pat <:+: rep) (hstart : NoPrefixEnds pat rep) :
    Lowers pat rep (Built rep) := by
  rintro n S _ hS ⟨x, y, hx, rfl⟩
  have hne : pat ≠ [] := by
    rintro rfl
    exact hrep ⟨[], rep, rfl⟩
  induction hS generalizing x with
  | nil => simp [hne] at hx
  | @letter c n s hs ih =>
    cases x with
    | nil =>
      obtain ⟨d, p, rfl⟩ := List.exists_cons_of_ne_nil hne
      obtain ⟨m, hm, hy⟩ := hs.drop (List.cons.inj hx).2
      exact ⟨m, Nat.lt_succ_of_le hm, by simpa using hy.rest List.suffix_rfl⟩
    | cons d x =>
      obtain ⟨rfl, hx⟩ := List.cons.inj hx
      obtain ⟨m, hm, hT⟩ := ih x (by simpa using hx)
      exact ⟨m + 1, Nat.succ_lt_succ hm, by simpa using hT.letter c⟩
  | @rest n t s ht hs ih =>
    rw [List.append_assoc] at hx
    rcases List.append_eq_append_iff.mp hx with ⟨a, rfl, h1⟩ | ⟨a, rfl, h1⟩
    · obtain ⟨m, hm, hT⟩ := ih a (by simpa using h1)
      exact ⟨m, hm, by simpa using hT.rest ht⟩
    by_cases ha : a = []
    · subst ha
      obtain ⟨m, hm, hT⟩ := ih [] (by simpa using h1.symm)
      exact ⟨m, hm, by simpa using hT.rest ht⟩
    -- a letter of the replacement begins no occurrence
    exfalso
    have hsuffix : a <:+ rep := (List.suffix_append x a).trans ht
    rcases List.append_eq_append_iff.mp h1 with ⟨b, rfl, -⟩ | ⟨b, hb, -⟩
    · exact hrep ((List.prefix_append pat b).isInfix.trans hsuffix.isInfix)
    · by_cases hne' : a = pat
      · exact hrep (hne' ▸ hsuffix.isInfix)
      · exact hstart a ha hne' ⟨b, hb.symm⟩ hsuffix

/-! ## From the other end -/

theorem Step.reverse (h : Step pat rep S T) :
    Step pat.reverse rep.reverse S.reverse T.reverse := by
  obtain ⟨x, y, rfl, rfl⟩ := h
  exact ⟨y.reverse, x.reverse, by simp, by simp⟩

theorem noPrefixEnds_reverse (h : NoSuffixBegins pat rep) :
    NoPrefixEnds pat.reverse rep.reverse := fun p hp hne h1 h2 =>
  h p.reverse (by simpa using hp) (fun h => hne (by simp [← h]))
    (by simpa using List.reverse_suffix.mpr h1) (by simpa using List.reverse_prefix.mpr h2)

/-- **The same, if no suffix of the pattern begins the replacement.** -/
theorem lowers_reverse (hrep : ¬ pat <:+: rep) (hsuffix : NoSuffixBegins pat rep) :
    Lowers pat rep fun n S => Built rep.reverse n S.reverse := fun n _ _ hS hst =>
  lowers_built (by rwa [List.reverse_infix]) (noPrefixEnds_reverse hsuffix) n _ _ hS hst.reverse

/-! ## A pattern and a replacement of the same length -/

section Weight

variable [DecidableEq α]

/-- The binary number whose digits say where the letter `a` stands. -/
def weight (a : α) : List α → ℕ
  | [] => 0
  | c :: s => (if c = a then 2 ^ s.length else 0) + weight a s

theorem weight_lt (a : α) (s : List α) : weight a s < 2 ^ s.length := by
  induction s with
  | nil => simp [weight]
  | cons c s ih =>
    rw [weight, List.length_cons, pow_succ]
    split <;> omega

theorem weight_append (a : α) (s t : List α) :
    weight a (s ++ t) = weight a s * 2 ^ t.length + weight a t := by
  induction s with
  | nil => simp [weight]
  | cons c s ih =>
    rw [List.cons_append, weight, ih, weight, List.length_append]
    split
    · ring
    · ring

theorem exists_first_difference {s t : List α} (hlen : s.length = t.length) (hne : s ≠ t) :
    ∃ p a b s' t', s = p ++ a :: s' ∧ t = p ++ b :: t' ∧ a ≠ b ∧ s'.length = t'.length := by
  induction s generalizing t with
  | nil => exact absurd (List.length_eq_zero_iff.mp hlen.symm).symm hne
  | cons c s ih =>
    cases t with
    | nil => simp at hlen
    | cons d t =>
      by_cases hcd : c = d
      · subst hcd
        obtain ⟨p, a, b, s', t', rfl, rfl, hab, hlen'⟩ :=
          ih (Nat.succ.inj hlen) fun h => hne (by rw [h])
        exact ⟨c :: p, a, b, s', t', rfl, rfl, hab, hlen'⟩
      · exact ⟨[], c, d, s, t, rfl, rfl, hcd, Nat.succ.inj hlen⟩

/-- **The weight of the letter that is replaced by another one first.** -/
theorem lowers_weight (hlen : rep.length = pat.length) (hne : rep ≠ pat) :
    ∃ a, Lowers pat rep fun n S => weight a S = n := by
  obtain ⟨p, a, b, s, t, hpat, hrep, hab, hlen'⟩ := exists_first_difference hlen.symm hne.symm
  have hlt : weight a rep < weight a pat := by
    have ht := weight_lt a t
    rw [hpat, hrep, weight_append, weight_append, weight, weight, if_pos rfl, if_neg hab.symm,
      List.length_cons, List.length_cons, hlen']
    omega
  refine ⟨a, ?_⟩
  rintro _ _ _ rfl ⟨x, y, rfl, rfl⟩
  refine ⟨_, ?_, rfl⟩
  have hmul : weight a rep * 2 ^ y.length < weight a pat * 2 ^ y.length :=
    Nat.mul_lt_mul_of_pos_right hlt (Nat.two_pow_pos _)
  simp only [weight_append, Nat.add_mul, hlen]
  omega

end Weight

/-! ## A pattern and a replacement with one bracket -/

section Columns

variable [DecidableEq α] {z : α}

/-- The columns of a text end at the letters `z`; a letter weighs `b` times as much as one in the
next column. -/
def columns (z : α) (b : ℕ) : List α → ℕ
  | [] => 0
  | _ :: s => b ^ s.count z + columns z b s

theorem columns_append (b : ℕ) (s t : List α) :
    columns z b (s ++ t) = b ^ t.count z * columns z b s + columns z b t := by
  induction s with
  | nil => simp [columns]
  | cons c s ih =>
    rw [List.cons_append, columns, ih, columns, List.count_append, pow_add]
    ring

theorem columns_of_notMem {s : List α} (b : ℕ) (h : z ∉ s) : columns z b s = s.length := by
  induction s with
  | nil => rfl
  | cons c s ih =>
    rw [List.mem_cons, not_or] at h
    rw [columns, ih h.2, List.count_eq_zero.mpr h.2, List.length_cons, pow_zero, Nat.add_comm]

/-- **The columns, if pattern and replacement end one each**, the pattern its last letter and the
replacement an earlier one. -/
theorem lowers_columns {u v t : List α} (hpat : pat = u ++ [z]) (hrep : rep = v ++ z :: t)
    (hu : z ∉ u) (hv : z ∉ v) (ht : z ∉ t) (hlen : v.length < u.length) :
    Lowers pat rep fun n S => columns z (t.length + 1) S = n := by
  have hz : z ∉ ([] : List α) := List.not_mem_nil
  have hcount : rep.count z = pat.count z := by
    simp [hpat, hrep, List.count_eq_zero.mpr hu, List.count_eq_zero.mpr hv,
      List.count_eq_zero.mpr ht]
  have hlt : columns z (t.length + 1) rep < columns z (t.length + 1) pat := by
    have hpat' : columns z (t.length + 1) pat = (t.length + 1) * u.length + 1 := by
      rw [hpat, columns_append, columns_of_notMem _ hu]
      simp [columns]
    have hrep' : columns z (t.length + 1) rep = (t.length + 1) * v.length + 1 + t.length := by
      rw [hrep, columns_append, columns_of_notMem _ hv, columns, columns_of_notMem _ ht]
      simp [List.count_eq_zero.mpr ht]
      omega
    have hmul : (t.length + 1) * (v.length + 1) ≤ (t.length + 1) * u.length :=
      Nat.mul_le_mul_left _ hlen
    rw [hpat', hrep']
    rw [Nat.mul_succ] at hmul
    omega
  rintro _ _ _ rfl ⟨x, y, rfl, rfl⟩
  refine ⟨_, ?_, rfl⟩
  have hmul : (t.length + 1) ^ y.count z * columns z (t.length + 1) rep <
      (t.length + 1) ^ y.count z * columns z (t.length + 1) pat :=
    Nat.mul_lt_mul_of_pos_left hlt (Nat.pow_pos (Nat.succ_pos t.length))
  simp only [columns_append, hcount, Nat.mul_add]
  omega

end Columns

end Replace
