import Dib.Args.Model

/-!
# The colons of a time

In one round the loop of `time_str_to_sec` makes three tests, and every test that finds a colon
moves on to the next character.

* `testColon`, `roundColons`: a test and a round; `findColons_succ`: the loop in these terms;
* `scanReads`: the characters that the loop reads;
* `scanColons`: a colon at a time, `setColon` notes the first three;
* **`findColons_eq`**: the loop does this in any text;
* **`scanReads_le`**: it reads no further than the terminator;
* `findColons_text`: the colons of a text with four fields;
* `colonScan`: the loop, which may not end; `IsColon`: the position of a colon;
* **`colonScan_ends`**: the loop ends, and has the positions of the first three colons.
-/

set_option autoImplicit false

namespace Dib

/-! ## The loop -/

/-- `if (time_str[i] == ':' && d == -1) { d = i; i++; }`, where `get` and `set` stand for `d`. -/
def testColon (time_str : List Char) (get : Colons → ℤ) (set : ℤ → Colons → Colons)
    (p : ℕ × Colons) : ℕ × Colons :=
  if time_str[p.1]? = some ':' ∧ get p.2 = -1 then (p.1 + 1, set p.1 p.2) else p

/-- The tests of a round, up to each of the three. -/
def testD (time_str : List Char) (i : ℕ) (c : Colons) : ℕ × Colons :=
  testColon time_str Colons.d (fun i c => { c with d := i }) (i, c)

def testH (time_str : List Char) (i : ℕ) (c : Colons) : ℕ × Colons :=
  testColon time_str Colons.h (fun i c => { c with h := i }) (testD time_str i c)

def roundColons (time_str : List Char) (i : ℕ) (c : Colons) : ℕ × Colons :=
  testColon time_str Colons.m (fun i c => { c with m := i }) (testH time_str i c)

variable {time_str s : List Char} {n i : ℕ} {c : Colons}

theorem findColons_succ :
    findColons time_str (n + 1) i c =
      if time_str.length ≤ i then c
      else findColons time_str n ((roundColons time_str i c).1 + 1)
        (roundColons time_str i c).2 := rfl

/-- The indices at which the loop reads, in at most `n` rounds from `i`. -/
def scanReads (time_str : List Char) : ℕ → ℕ → Colons → List ℕ
  | 0, _, _ => []
  | n + 1, i, c =>
    if time_str.length ≤ i then []
    else i :: (testD time_str i c).1 :: (testH time_str i c).1 ::
      scanReads time_str n ((roundColons time_str i c).1 + 1) (roundColons time_str i c).2

/-! ## A character at a time -/

/-- A colon at `i` goes to the first place that is free. -/
def setColon (i : ℤ) (c : Colons) : Colons :=
  if c.d = -1 then { c with d := i }
  else if c.h = -1 then { c with h := i }
  else if c.m = -1 then { c with m := i }
  else c

/-- The colons of a text that begins at `i`. -/
def scanColons : List Char → ℕ → Colons → Colons
  | [], _, c => c
  | x :: s, i, c => scanColons s (i + 1) (if x = ':' then setColon i c else c)

theorem scanColons_drop :
    scanColons (time_str.drop i) i c =
      scanColons (time_str.drop (i + 1)) (i + 1)
        (if time_str[i]? = some ':' then setColon i c else c) := by
  rcases lt_or_ge i time_str.length with hi | hi
  · simp only [List.drop_eq_getElem_cons hi, scanColons, List.getElem?_eq_getElem hi,
      Option.some.injEq]
  · rw [List.drop_eq_nil_of_le hi, List.drop_eq_nil_of_le (by omega),
      List.getElem?_eq_none hi, scanColons, scanColons, if_neg (by simp)]

section Test

variable {get : Colons → ℤ} {set : ℤ → Colons → Colons} {p : ℕ × Colons}

theorem scanColons_testColon
    (h : time_str[p.1]? = some ':' → get p.2 = -1 → setColon p.1 p.2 = set p.1 p.2) :
    scanColons (time_str.drop (testColon time_str get set p).1) (testColon time_str get set p).1
      (testColon time_str get set p).2 = scanColons (time_str.drop p.1) p.1 p.2 := by
  unfold testColon
  split
  · next hp => rw [scanColons_drop (i := p.1), if_pos hp.1, h hp.1 hp.2]
  · rfl

theorem testColon_taken (h : ∀ (i : ℕ) c, get (set i c) ≠ -1)
    (hc : time_str[(testColon time_str get set p).1]? = some ':') :
    get (testColon time_str get set p).2 ≠ -1 := by
  unfold testColon at hc ⊢
  split
  · exact h _ _
  · next hp =>
    rw [if_neg hp] at hc
    exact fun hget => hp ⟨hc, hget⟩

theorem testColon_keeps {place : Colons → ℤ} (h : ∀ (i : ℕ) c, place (set i c) = place c)
    (hp : time_str[p.1]? = some ':' → place p.2 ≠ -1)
    (hc : time_str[(testColon time_str get set p).1]? = some ':') :
    place (testColon time_str get set p).2 ≠ -1 := by
  unfold testColon at hc ⊢
  split
  · next hp' =>
    rw [h]
    exact hp hp'.1
  · next hp' =>
    rw [if_neg hp'] at hc
    exact hp hc

theorem testColon_le (h : p.1 ≤ time_str.length) :
    (testColon time_str get set p).1 ≤ time_str.length := by
  unfold testColon
  split
  · next hp => exact (List.getElem?_eq_some_iff.mp hp.1).1
  · exact h

theorem le_testColon : p.1 ≤ (testColon time_str get set p).1 := by
  unfold testColon
  split
  · exact Nat.le_succ _
  · exact le_rfl

end Test

/-- **One round** does the steps of the scan up to where the next one begins. -/
theorem scanColons_round :
    scanColons (time_str.drop ((roundColons time_str i c).1 + 1))
        ((roundColons time_str i c).1 + 1) (roundColons time_str i c).2 =
      scanColons (time_str.drop i) i c := by
  have hne : ∀ i : ℕ, (i : ℤ) ≠ -1 := fun i => by omega
  have hd : time_str[(testD time_str i c).1]? = some ':' → (testD time_str i c).2.d ≠ -1 :=
    testColon_taken fun i _ => hne i
  have hd' : time_str[(testH time_str i c).1]? = some ':' → (testH time_str i c).2.d ≠ -1 :=
    testColon_keeps (fun _ _ => rfl) hd
  have hh : time_str[(testH time_str i c).1]? = some ':' → (testH time_str i c).2.h ≠ -1 :=
    testColon_taken fun i _ => hne i
  have hd'' : time_str[(roundColons time_str i c).1]? = some ':' →
      (roundColons time_str i c).2.d ≠ -1 := testColon_keeps (fun _ _ => rfl) hd'
  have hh' : time_str[(roundColons time_str i c).1]? = some ':' →
      (roundColons time_str i c).2.h ≠ -1 := testColon_keeps (fun _ _ => rfl) hh
  have hm : time_str[(roundColons time_str i c).1]? = some ':' →
      (roundColons time_str i c).2.m ≠ -1 := testColon_taken fun i _ => hne i
  -- the character that ends the round is no colon, or no place is free
  have hlast : (if time_str[(roundColons time_str i c).1]? = some ':' then
      setColon (roundColons time_str i c).1 (roundColons time_str i c).2
      else (roundColons time_str i c).2) = (roundColons time_str i c).2 := by
    split
    · next h => rw [setColon, if_neg (hd'' h), if_neg (hh' h), if_neg (hm h)]
    · rfl
  calc scanColons (time_str.drop ((roundColons time_str i c).1 + 1))
        ((roundColons time_str i c).1 + 1) (roundColons time_str i c).2
      = scanColons (time_str.drop (roundColons time_str i c).1) (roundColons time_str i c).1
          (roundColons time_str i c).2 := by
        rw [scanColons_drop (i := (roundColons time_str i c).1), hlast]
    _ = scanColons (time_str.drop (testH time_str i c).1) (testH time_str i c).1
          (testH time_str i c).2 := scanColons_testColon fun h h' => by
        rw [setColon, if_neg (hd' h), if_neg (hh h), if_pos h']
    _ = scanColons (time_str.drop (testD time_str i c).1) (testD time_str i c).1
          (testD time_str i c).2 := scanColons_testColon fun h h' => by
        rw [setColon, if_neg (hd h), if_pos h']
    _ = scanColons (time_str.drop i) i c := scanColons_testColon fun _ h' => if_pos h'

theorem le_roundColons : i ≤ (roundColons time_str i c).1 := by
  have hd : i ≤ (testD time_str i c).1 := le_testColon (p := (i, c))
  have hh : (testD time_str i c).1 ≤ (testH time_str i c).1 := le_testColon
  exact (hd.trans hh).trans le_testColon

/-- **The loop notes the first three colons**, given a round for each character. -/
theorem findColons_eq (hn : time_str.length ≤ i + n) :
    findColons time_str n i c = scanColons (time_str.drop i) i c := by
  induction n generalizing i c with
  | zero =>
    have hi : time_str.length ≤ i := hn
    rw [findColons, List.drop_eq_nil_of_le hi, scanColons]
  | succ n ih =>
    rw [findColons_succ]
    split
    · next hi => rw [List.drop_eq_nil_of_le hi, scanColons]
    · have hi : i ≤ (roundColons time_str i c).1 := le_roundColons
      rw [ih (by omega), scanColons_round]

/-- **The loop reads no further than the terminator.** -/
theorem scanReads_le {k : ℕ} (hk : k ∈ scanReads time_str n i c) : k ≤ time_str.length := by
  induction n generalizing i c with
  | zero => cases hk
  | succ n ih =>
    rw [scanReads] at hk
    split at hk
    · cases hk
    · next hi =>
      have hd : (testD time_str i c).1 ≤ time_str.length := testColon_le (Nat.le_of_not_le hi)
      rcases List.mem_cons.mp hk with rfl | hk
      · exact Nat.le_of_not_le hi
      rcases List.mem_cons.mp hk with rfl | hk
      · exact hd
      rcases List.mem_cons.mp hk with rfl | hk
      · exact testColon_le hd
      · exact ih hk

/-! ## Four fields -/

theorem scanColons_append {A : List Char} (hA : ':' ∉ A) :
    scanColons (A ++ s) i c = scanColons s (i + A.length) c := by
  induction A generalizing i with
  | nil => rfl
  | cons x A ih =>
    rw [List.mem_cons, not_or] at hA
    rw [List.cons_append, scanColons, if_neg (Ne.symm hA.1), ih hA.2, List.length_cons]
    congr 1
    omega

theorem scanColons_done (hd : c.d ≠ -1) (hh : c.h ≠ -1) (hm : c.m ≠ -1) :
    scanColons s i c = c := by
  induction s generalizing i with
  | nil => rfl
  | cons x s ih => rw [scanColons, setColon, if_neg hd, if_neg hh, if_neg hm, ite_self, ih]

theorem setColon_three (d h m : ℕ) :
    setColon m (setColon h (setColon d ⟨-1, -1, -1⟩)) = ⟨d, h, m⟩ := by
  have hne : ∀ i : ℕ, (i : ℤ) ≠ -1 := fun i => by omega
  have h1 : setColon d ⟨-1, -1, -1⟩ = ⟨d, -1, -1⟩ := rfl
  have h2 : setColon h ⟨d, -1, -1⟩ = ⟨d, h, -1⟩ := by rw [setColon, if_neg (hne d), if_pos rfl]
  rw [h1, h2, setColon, if_neg (hne d), if_neg (hne h), if_pos rfl]

theorem findColons_text {A B C : List Char} (D : List Char) (hA : ':' ∉ A) (hB : ':' ∉ B)
    (hC : ':' ∉ C) (hn : (A ++ ':' :: (B ++ ':' :: (C ++ ':' :: D))).length ≤ n) :
    findColons (A ++ ':' :: (B ++ ':' :: (C ++ ':' :: D))) n 0 ⟨-1, -1, -1⟩ =
      ⟨A.length, A.length + 1 + B.length, A.length + 1 + B.length + 1 + C.length⟩ := by
  have hne : ∀ i : ℕ, (i : ℤ) ≠ -1 := fun i => by omega
  rw [findColons_eq (by omega), List.drop_zero, scanColons_append hA, scanColons, if_pos rfl,
    scanColons_append hB, scanColons, if_pos rfl, scanColons_append hC, scanColons, if_pos rfl,
    setColon_three, scanColons_done (hne _) (hne _) (hne _), Nat.zero_add]
  push_cast
  rfl

/-! ## The positions -/

/-- The loop, if it ends before the bound on its rounds is reached. -/
def colonScan (time_str : List Char) : ℕ → ℕ → Colons → Option Colons
  | 0, _, _ => none
  | n + 1, i, c =>
    if time_str.length ≤ i then some c
    else colonScan time_str n ((roundColons time_str i c).1 + 1) (roundColons time_str i c).2

/-- `p` is the position of the colon with the number `k`, counted from 0, or -1 if there is none. -/
def IsColon (s : List Char) (k : ℕ) (p : ℤ) : Prop :=
  p = -1 ∧ s.count ':' ≤ k ∨ ∃ i : ℕ, p = i ∧ s[i]? = some ':' ∧ (s.take i).count ':' = k

/-- The first three. -/
structure FirstColons (s : List Char) (c : Colons) : Prop where
  d : IsColon s 0 c.d
  h : IsColon s 1 c.h
  m : IsColon s 2 c.m

/-- **The loop ends**: no round is more than one for each character. -/
theorem colonScan_eq (hn : time_str.length ≤ i + n) :
    colonScan time_str (n + 1) i c = some (findColons time_str n i c) := by
  induction n generalizing i c with
  | zero =>
    have hi : time_str.length ≤ i := hn
    rw [colonScan, if_pos hi, findColons]
  | succ n ih =>
    rw [colonScan, findColons_succ]
    split
    · rfl
    · have hi : i ≤ (roundColons time_str i c).1 := le_roundColons
      exact ih (by omega)

theorem scanColons_concat (x : Char) : scanColons (s ++ [x]) i c =
    if x = ':' then setColon (i + s.length : ℕ) (scanColons s i c) else scanColons s i c := by
  induction s generalizing i c with
  | nil =>
    rw [List.nil_append, scanColons, scanColons]
    rfl
  | cons y s ih =>
    rw [List.cons_append, scanColons, ih, scanColons, List.length_cons, Nat.add_right_comm,
      Nat.add_assoc]

section IsColon

variable {k : ℕ} {p : ℤ} {x : Char}

theorem IsColon.append (h : IsColon s k p) (hp : p ≠ -1) (t : List Char) :
    IsColon (s ++ t) k p := by
  obtain ⟨rfl, -⟩ | ⟨i, rfl, hi, hk⟩ := h
  · exact absurd rfl hp
  · have hlt : i < s.length := (List.getElem?_eq_some_iff.mp hi).1
    refine .inr ⟨i, rfl, ?_, ?_⟩
    · rw [List.getElem?_append_left hlt, hi]
    · rw [List.take_append_of_le_length hlt.le, hk]

theorem IsColon.concat_of_ne (h : IsColon s k p) (hx : x ≠ ':') : IsColon (s ++ [x]) k p := by
  by_cases hp : p = -1
  · obtain ⟨-, hk⟩ | ⟨i, rfl, -⟩ := h
    · refine .inl ⟨hp, ?_⟩
      rw [List.count_append, List.count_singleton, if_neg (by simpa using hx)]
      omega
    · omega
  · exact h.append hp [x]

theorem isColon_concat (hk : s.count ':' = k) : IsColon (s ++ [':']) k s.length :=
  .inr ⟨s.length, rfl, by simp, by simpa using hk⟩

theorem isColon_concat_none (hk : s.count ':' < k) : IsColon (s ++ [':']) k (-1) := by
  refine .inl ⟨rfl, ?_⟩
  rw [List.count_append, List.count_singleton_self]
  omega

theorem IsColon.count_le (h : IsColon s k (-1)) : s.count ':' ≤ k := by
  obtain ⟨-, hk⟩ | ⟨i, hi, -⟩ := h
  · exact hk
  · omega

theorem IsColon.lt_count (h : IsColon s k p) (hp : p ≠ -1) : k < s.count ':' := by
  obtain ⟨rfl, -⟩ | ⟨i, rfl, hi, hk⟩ := h
  · exact absurd rfl hp
  · obtain ⟨hlt, hget⟩ := List.getElem?_eq_some_iff.mp hi
    rw [← List.take_append_drop i s, List.count_append, List.drop_eq_getElem_cons hlt, hget,
      List.count_cons_self, hk]
    omega

end IsColon

theorem FirstColons.colon (h : FirstColons s c) :
    FirstColons (s ++ [':']) (setColon s.length c) := by
  unfold setColon
  split
  · next hd =>
    have h0 : s.count ':' ≤ 0 := (hd ▸ h.d).count_le
    have hh : c.h = -1 := by
      by_contra hne
      have hlt := h.h.lt_count hne
      omega
    have hm : c.m = -1 := by
      by_contra hne
      have hlt := h.m.lt_count hne
      omega
    refine ⟨isColon_concat (by omega), ?_, ?_⟩
    · exact hh ▸ isColon_concat_none (by omega)
    · exact hm ▸ isColon_concat_none (by omega)
  next hd =>
  have hd' := h.d.lt_count hd
  split
  · next hh =>
    have h1 : s.count ':' ≤ 1 := (hh ▸ h.h).count_le
    have hm : c.m = -1 := by
      by_contra hne
      have hlt := h.m.lt_count hne
      omega
    exact ⟨h.d.append hd _, isColon_concat (by omega), hm ▸ isColon_concat_none (by omega)⟩
  next hh =>
  have hh' := h.h.lt_count hh
  split
  · next hm =>
    have h2 : s.count ':' ≤ 2 := (hm ▸ h.m).count_le
    exact ⟨h.d.append hd _, h.h.append hh _, isColon_concat (by omega)⟩
  · next hm => exact ⟨h.d.append hd _, h.h.append hh _, h.m.append hm _⟩

theorem firstColons_scanColons (s : List Char) : FirstColons s (scanColons s 0 ⟨-1, -1, -1⟩) := by
  induction s using List.reverseRecOn with
  | nil => exact ⟨.inl ⟨rfl, le_rfl⟩, .inl ⟨rfl, Nat.zero_le _⟩, .inl ⟨rfl, Nat.zero_le _⟩⟩
  | append_singleton s x ih =>
    rw [scanColons_concat, Nat.zero_add]
    split
    · next hx =>
      subst hx
      exact ih.colon
    · next hx => exact ⟨ih.d.concat_of_ne hx, ih.h.concat_of_ne hx, ih.m.concat_of_ne hx⟩

/-- **The colons of a time.** In every text the loop of `time_str_to_sec` ends, reads nothing behind
the terminator, and leaves the positions of the first three colons, with -1 for those that are not
there. -/
theorem colonScan_ends (time_str : List Char) :
    (∃ n, colonScan time_str n 0 ⟨-1, -1, -1⟩ =
      some (findColons time_str time_str.length 0 ⟨-1, -1, -1⟩)) ∧
    (∀ n, ∀ k ∈ scanReads time_str n 0 ⟨-1, -1, -1⟩, k ≤ time_str.length) ∧
    FirstColons time_str (findColons time_str time_str.length 0 ⟨-1, -1, -1⟩) := by
  refine ⟨⟨time_str.length + 1, colonScan_eq (by omega)⟩, fun n k hk => scanReads_le hk, ?_⟩
  rw [findColons_eq (by omega), List.drop_zero]
  exact firstColons_scanColons time_str

end Dib
