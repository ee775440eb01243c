import Dib.Lib.CString
import Dib.Wire.Message

/-!
# The daemon: decoding a message

`tb_socket_th` allocates `argv` and copies the strings of `message.pBuf` into its rows, one after
the other, until it finds an empty one.

* `alloc2dArray`, `copyRow`, `decodeLoop`, `decode`: the allocation and the loop, partial where the
  program reads outside `pBuf` or writes outside `argv` or one of its rows;
* `storeAll`: the copies alone; `decodeLoop_framed` splits the loop into reading and copying;
* **`decode_ok_iff`**: what is decoded, and when;
* **`inBounds_iff`**: the contents on which every access stays inside.
-/

set_option autoImplicit false

namespace Dib

open CString Framing

/-- The `k`-th call of `malloc` fails or gives memory with some content. -/
abbrev Malloc := ℕ → Option (ℕ → Char)

/-- `char **argv`: the array of rows and each row may be `NULL`. -/
abbrev Argv := Option (List (Option (List Char)))

def alloc2dArray (malloc : Malloc) (rows cols : ℕ) : Argv :=
  match malloc 0 with
  | none => none
  | some _ => some ((List.range rows).map fun i => (malloc (i + 1)).map fun b =>
      (List.range cols).map b)

/-- What can go wrong in the loop. -/
inductive DecodeFault where
  /-- `pBuf` is read outside. -/
  | readOutside
  /-- `argv[argc]` lies outside `argv`. -/
  | rowOutside
  /-- More is copied than a row holds. -/
  | rowOverflow
  /-- `argv` or `argv[argc]` is `NULL`. -/
  | nullRow
  /-- The bound on the iterations is reached. -/
  | fuel
  deriving DecidableEq, Repr

/-- `memcpy(argv[argc], s, len)`. -/
def copyRow (argv : Argv) (argc : ℕ) (s : List Char) : Except DecodeFault Argv :=
  match argv with
  | none => .error .nullRow
  | some rows =>
    match rows[argc]? with
    | none => .error .rowOutside
    | some none => .error .nullRow
    | some (some row) =>
      match memcpy row 0 s with
      | none => .error .rowOverflow
      | some row => .ok (some (rows.set argc (some row)))

/-- The loop `while (message.pBuf[pos] != 0)`. -/
def decodeLoop (pBuf : List Char) : ℕ → ℕ → ℕ → Argv → Except DecodeFault (ℕ × Argv)
  | 0, _, _, _ => .error .fuel
  | fuel + 1, pos, argc, argv =>
    match pBuf[pos]? with
    | none => .error .readOutside
    | some c =>
      if c = NUL then .ok (argc, argv)
      else
        match strlen (pBuf.drop pos) with
        | none => .error .readOutside
        | some n =>
          match copyRow argv argc ((pBuf.drop pos).take (n + 1)) with
          | .error e => .error e
          | .ok argv => decodeLoop pBuf fuel (pos + (n + 1)) (argc + 1) argv

/-- The strings of the first `argc` rows. -/
def strings (argc : ℕ) (argv : Argv) : List (List Char) :=
  ((argv.getD []).take argc).map fun row => cstr (row.getD [])

/-- From the allocation to the call of `cmd_parse`: the arguments it is called with. Each iteration
moves `pos` on, so `pBuf.length + 1` of them suffice. -/
def decode (K : Limits) (malloc : Malloc) (pBuf : List Char) :
    Except DecodeFault (List (List Char)) :=
  match decodeLoop pBuf (pBuf.length + 1) 0 0
      (alloc2dArray malloc K.TB_MAX_ARGS K.TB_STR_LEN) with
  | .error e => .error e
  | .ok (argc, argv) => .ok (strings argc argv)

/-! ## Reading -/

/-- The copies of the loop, for the strings `ss`, from row `argc` on. -/
def storeAll (argv : Argv) (argc : ℕ) : List (List Char) → Except DecodeFault Argv
  | [] => .ok argv
  | s :: ss =>
    match copyRow argv argc (s ++ [NUL]) with
    | .error e => .error e
    | .ok argv => storeAll argv (argc + 1) ss

variable {pBuf : List Char} {argv argv' : Argv}

theorem decodeLoop_string {pre s rest : List Char} (hs : s ≠ []) (hz : NUL ∉ s) (fuel argc : ℕ) :
    decodeLoop (pre ++ (s ++ NUL :: rest)) (fuel + 1) pre.length argc argv =
      match copyRow argv argc (s ++ [NUL]) with
      | .error e => .error e
      | .ok argv =>
        decodeLoop (pre ++ (s ++ NUL :: rest)) fuel (pre.length + (s.length + 1)) (argc + 1)
          argv := by
  obtain ⟨c, s', rfl⟩ := List.exists_cons_of_ne_nil hs
  have hc : c ≠ NUL := fun h => hz (by simp [h])
  have h1 : (pre ++ (c :: s' ++ NUL :: rest))[pre.length]? = some c := by simp
  have h2 : (pre ++ (c :: s' ++ NUL :: rest)).drop pre.length = c :: s' ++ NUL :: rest := by simp
  have h3 : (c :: s' ++ NUL :: rest).take ((c :: s').length + 1) = c :: s' ++ [NUL] := by
    rw [List.append_cons, List.take_left' (by simp)]
  rw [decodeLoop, h1]
  simp only [hc, if_false, h2, strlen_append_NUL hz, h3]

theorem decodeLoop_end (pre rest : List Char) (fuel argc : ℕ) :
    decodeLoop (pre ++ NUL :: rest) (fuel + 1) pre.length argc argv = .ok (argc, argv) := by
  simp [decodeLoop]

theorem decodeLoop_framed (pre : List Char) {ss : List (List Char)} {buf : List Char}
    (h : Framed NUL buf ss) {fuel : ℕ} (hf : buf.length ≤ fuel) (argc : ℕ) (argv : Argv) :
    decodeLoop (pre ++ buf) (fuel + 1) pre.length argc argv =
      match storeAll argv argc ss with
      | .error e => .error e
      | .ok argv => .ok (argc + ss.length, argv) := by
  induction ss generalizing pre buf fuel argc argv with
  | nil =>
    obtain ⟨rest, rfl⟩ := framed_nil.mp h
    rw [decodeLoop_end]
    rfl
  | cons s ss ih =>
    obtain ⟨hs, hz, buf', rfl, hbuf'⟩ := framed_cons.mp h
    rw [decodeLoop_string hs hz, storeAll]
    cases hc : copyRow argv argc (s ++ [NUL]) with
    | error e => rfl
    | ok argv1 =>
      obtain ⟨fuel, rfl⟩ : ∃ f, fuel = f + 1 := ⟨fuel - 1, by simp at hf; omega⟩
      have hf' : buf'.length ≤ fuel := by
        simp at hf
        omega
      have h1 := ih (pre ++ (s ++ [NUL])) hbuf' hf' (argc + 1) argv1
      simp only [List.append_assoc, List.singleton_append, List.length_append,
        List.length_singleton] at h1
      simp only [h1, List.length_cons, Nat.add_assoc, Nat.add_comm 1]

theorem framed_of_decodeLoop (pre : List Char) {buf : List Char} {fuel argc : ℕ} {r : ℕ × Argv}
    (h : decodeLoop (pre ++ buf) fuel pre.length argc argv = .ok r) :
    ∃ ss, Framed NUL buf ss := by
  induction fuel generalizing pre buf argc argv with
  | zero => cases h
  | succ fuel ih =>
    cases buf with
    | nil => simp [decodeLoop] at h
    | cons c buf =>
      by_cases hc : c = NUL
      · exact ⟨[], framed_nil.mpr ⟨buf, by rw [hc]⟩⟩
      cases hl : strlen (c :: buf) with
      | none => simp [decodeLoop, hc, hl] at h
      | some n =>
        obtain ⟨s, rest, he, hz, rfl⟩ := strlen_eq_some_iff.mp hl
        have hs : s ≠ [] := by
          rintro rfl
          exact hc (List.cons.inj he).1
        rw [he, decodeLoop_string hs hz] at h
        cases hr : copyRow argv argc (s ++ [NUL]) with
        | error e => simp [hr] at h
        | ok argv1 =>
          have h1 : decodeLoop ((pre ++ (s ++ [NUL])) ++ rest) fuel
              (pre ++ (s ++ [NUL])).length (argc + 1) argv1 = .ok r := by
            simpa [hr] using h
          obtain ⟨ss, hss⟩ := ih _ h1
          exact ⟨s :: ss, framed_cons.mpr ⟨hs, hz, rest, he, hss⟩⟩

/-! ## Copying -/

variable {i j : ℕ} {s : List Char}

/-- Row `i` is there and has room for `s` and its terminator. -/
def CanStore (argv : Argv) (i : ℕ) (s : List Char) : Prop :=
  ∃ rows row, argv = some rows ∧ rows[i]? = some (some row) ∧ s.length < row.length

theorem copyRow_row {rows : List (Option (List Char))} {row : List Char}
    (hr : rows[i]? = some (some row)) :
    copyRow (some rows) i (s ++ [NUL]) =
      if s.length < row.length then
        .ok (some (rows.set i (some (s ++ NUL :: row.drop (s.length + 1)))))
      else .error .rowOverflow := by
  have hl : (s ++ [NUL]).length = s.length + 1 := by simp
  split_ifs with h
  · have hm := memcpy_eq_some_iff.mpr ⟨(by omega : 0 + (s ++ [NUL]).length ≤ row.length), rfl⟩
    simp [copyRow, hr, hm]
  · have hm : memcpy row 0 (s ++ [NUL]) = none := by rw [memcpy, if_neg (by omega)]
    simp [copyRow, hr, hm]

theorem copyRow_ok_iff : copyRow argv i (s ++ [NUL]) = .ok argv' ↔ ∃ rows row, argv = some rows ∧
    rows[i]? = some (some row) ∧ s.length < row.length ∧
    argv' = some (rows.set i (some (s ++ NUL :: row.drop (s.length + 1)))) := by
  constructor
  · intro h
    cases argv with
    | none => cases h
    | some rows =>
      cases hr : rows[i]? with
      | none => simp [copyRow, hr] at h
      | some r =>
        cases r with
        | none => simp [copyRow, hr] at h
        | some row =>
          rw [copyRow_row hr] at h
          split_ifs at h with hl
          exact ⟨rows, row, rfl, hr, hl, (Except.ok.inj h).symm⟩
  · rintro ⟨rows, row, rfl, hr, hl, rfl⟩
    rw [copyRow_row hr, if_pos hl]

theorem canStore_copyRow (h : copyRow argv i (s ++ [NUL]) = .ok argv') (hij : i ≠ j)
    (t : List Char) : CanStore argv' j t ↔ CanStore argv j t := by
  obtain ⟨rows, row, rfl, -, -, rfl⟩ := copyRow_ok_iff.mp h
  simp [CanStore, hij]

theorem strings_copyRow (h : copyRow argv i (s ++ [NUL]) = .ok argv') (hz : NUL ∉ s) :
    strings (i + 1) argv' = strings i argv ++ [s] := by
  obtain ⟨rows, row, rfl, hr, -, rfl⟩ := copyRow_ok_iff.mp h
  have hi : i < rows.length := (List.getElem?_eq_some_iff.mp hr).1
  have h1 : (rows.set i (some (s ++ NUL :: row.drop (s.length + 1)))).take (i + 1) =
      rows.take i ++ [some (s ++ NUL :: row.drop (s.length + 1))] := by
    rw [List.take_add_one, List.take_set_of_le le_rfl, List.getElem?_set_self hi]
    rfl
  simp [strings, h1, cstr_append_NUL hz]

theorem storeAll_ok_iff {ss : List (List Char)} {argv : Argv} {i : ℕ} :
    (∃ argv', storeAll argv i ss = .ok argv') ↔
      ∀ j s, ss[j]? = some s → CanStore argv (i + j) s := by
  induction ss generalizing argv i with
  | nil => simp [storeAll]
  | cons s ss ih =>
    unfold storeAll
    cases hc : copyRow argv i (s ++ [NUL]) with
    | error e =>
      constructor
      · rintro ⟨argv', h⟩
        cases h
      · intro h
        obtain ⟨rows, row, rfl, hr, hl⟩ := h 0 s rfl
        rw [Nat.add_zero] at hr
        rw [copyRow_row hr, if_pos hl] at hc
        cases hc
    | ok argv1 =>
      obtain ⟨rows, row, h1, h2, h3, -⟩ := copyRow_ok_iff.mp hc
      rw [ih]
      constructor
      · intro h j t hj
        cases j with
        | zero =>
          obtain rfl : s = t := by simpa using hj
          exact ⟨rows, row, h1, h2, h3⟩
        | succ j =>
          have h4 := (canStore_copyRow hc (by omega) t).mp (h j t (by simpa using hj))
          rwa [Nat.add_assoc, Nat.add_comm 1] at h4
      · intro h j t hj
        rw [canStore_copyRow hc (by omega), Nat.add_assoc, Nat.add_comm 1]
        exact h (j + 1) t (by simpa using hj)

theorem strings_storeAll {ss : List (List Char)} {argv argv' : Argv} {i : ℕ}
    (hz : ∀ s ∈ ss, NUL ∉ s) (h : storeAll argv i ss = .ok argv') :
    strings (i + ss.length) argv' = strings i argv ++ ss := by
  induction ss generalizing argv i with
  | nil =>
    obtain rfl := Except.ok.inj h
    simp
  | cons s ss ih =>
    unfold storeAll at h
    cases hc : copyRow argv i (s ++ [NUL]) with
    | error e => simp [hc] at h
    | ok argv1 =>
      rw [hc] at h
      have h1 := ih (fun t ht => hz t (by simp [ht])) h
      rw [strings_copyRow hc (hz s (by simp)), List.append_assoc] at h1
      rw [List.length_cons, Nat.add_comm ss.length, ← Nat.add_assoc, h1, List.singleton_append]

/-! ## Decoding -/

variable {K : Limits} {malloc : Malloc}

/-- `malloc` gave `argv` and its first `n` rows, if any is needed. -/
def Allocated (malloc : Malloc) (n : ℕ) : Prop :=
  ∀ i < n, (malloc 0).isSome ∧ (malloc (i + 1)).isSome

instance (malloc : Malloc) (n : ℕ) : Decidable (Allocated malloc n) :=
  inferInstanceAs (Decidable (∀ i < n, (malloc 0).isSome ∧ (malloc (i + 1)).isSome))

theorem canStore_alloc (K : Limits) (malloc : Malloc) (i : ℕ) (s : List Char) :
    CanStore (alloc2dArray malloc K.TB_MAX_ARGS K.TB_STR_LEN) i s ↔
      i < K.TB_MAX_ARGS ∧ s.length < K.TB_STR_LEN ∧ (malloc 0).isSome ∧
        (malloc (i + 1)).isSome := by
  cases h0 : malloc 0 with
  | none => simp [CanStore, alloc2dArray, h0]
  | some b =>
    by_cases hi : i < K.TB_MAX_ARGS
    · cases h1 : malloc (i + 1) <;> simp [CanStore, alloc2dArray, h0, h1, hi]
    · simp [CanStore, alloc2dArray, h0, hi]

theorem storeAll_alloc_iff {ss : List (List Char)} :
    (∃ argv, storeAll (alloc2dArray malloc K.TB_MAX_ARGS K.TB_STR_LEN) 0 ss = .ok argv) ↔
      K.Fits ss ∧ Allocated malloc ss.length := by
  simp only [storeAll_ok_iff, Nat.zero_add, canStore_alloc]
  constructor
  · intro h
    have h1 : ∀ j < ss.length, ∃ s, ss[j]? = some s := fun j hj => ⟨ss[j], by simp [hj]⟩
    refine ⟨⟨?_, fun s hs => ?_⟩, fun j hj => ?_⟩
    · by_contra hlt
      obtain ⟨s, hs⟩ := h1 K.TB_MAX_ARGS (by omega)
      exact absurd (h _ s hs).1 (by omega)
    · obtain ⟨j, hj⟩ := List.getElem?_of_mem hs
      exact (h j s hj).2.1
    · obtain ⟨s, hs⟩ := h1 j hj
      exact (h j s hs).2.2
  · rintro ⟨hf, ha⟩ j s hj
    have hlt : j < ss.length := (List.getElem?_eq_some_iff.mp hj).1
    exact ⟨hlt.trans_le hf.count_le, hf.length_lt s (List.mem_of_getElem? hj), ha j hlt⟩

theorem decode_framed {ss : List (List Char)} (h : Framed NUL pBuf ss) :
    decode K malloc pBuf =
      match storeAll (alloc2dArray malloc K.TB_MAX_ARGS K.TB_STR_LEN) 0 ss with
      | .error e => .error e
      | .ok _ => .ok ss := by
  have h1 := decodeLoop_framed [] h le_rfl 0
    (alloc2dArray malloc K.TB_MAX_ARGS K.TB_STR_LEN)
  rw [List.nil_append, List.length_nil, Nat.zero_add] at h1
  rw [decode, h1]
  cases hs : storeAll (alloc2dArray malloc K.TB_MAX_ARGS K.TB_STR_LEN) 0 ss with
  | error e => rfl
  | ok argv =>
    have h2 := strings_storeAll h.notMem hs
    rw [Nat.zero_add] at h2
    simp only [h2]
    simp [strings]

/-- **What the daemon decodes.** -/
theorem decode_ok_iff {ss : List (List Char)} : decode K malloc pBuf = .ok ss ↔
    Framed NUL pBuf ss ∧ K.Fits ss ∧ Allocated malloc ss.length := by
  rw [← storeAll_alloc_iff]
  constructor
  · intro h
    obtain ⟨ts, hts⟩ : ∃ ts, Framed NUL pBuf ts := by
      unfold decode at h
      split at h
      · cases h
      · next hl => exact framed_of_decodeLoop [] hl
    rw [decode_framed hts] at h
    cases hs : storeAll (alloc2dArray malloc K.TB_MAX_ARGS K.TB_STR_LEN) 0 ts with
    | error e => simp [hs] at h
    | ok argv =>
      rw [hs] at h
      obtain rfl := Except.ok.inj h
      exact ⟨hts, argv, hs⟩
  · rintro ⟨hf, argv, hs⟩
    rw [decode_framed hf, hs]

/-! ## Staying inside -/

/-- `NULL` is, or is among, the rows. -/
def HasNull (argv : Argv) : Prop := ∀ rows, argv = some rows → none ∈ rows

theorem copyRow_nullRow {t : List Char} (h : copyRow argv i t = .error .nullRow) :
    HasNull argv := by
  rintro rows rfl
  rw [copyRow] at h
  split at h
  · cases h
  · next hr => exact List.mem_of_getElem? hr
  · split at h <;> cases h

theorem HasNull.of_copyRow {t : List Char} (h : copyRow argv i t = .ok argv')
    (hn : HasNull argv') : HasNull argv := by
  rintro rows rfl
  rw [copyRow] at h
  split at h
  · cases h
  · cases h
  · split at h
    · cases h
    · next row hm =>
      obtain rfl := Except.ok.inj h
      exact (List.mem_or_eq_of_mem_set (hn _ rfl)).resolve_right (by simp)

theorem decodeLoop_nullRow {fuel pos argc : ℕ}
    (h : decodeLoop pBuf fuel pos argc argv = .error .nullRow) : HasNull argv := by
  induction fuel generalizing pos argc argv with
  | zero => cases h
  | succ fuel ih =>
    unfold decodeLoop at h
    split at h
    · cases h
    · split_ifs at h
      split at h
      · cases h
      · split at h
        · next hc =>
          obtain rfl := Except.error.inj h
          exact copyRow_nullRow hc
        · next hc => exact (ih h).of_copyRow hc

/-- `argv` has `TB_MAX_ARGS` rows of `TB_STR_LEN` characters. -/
def Shaped (K : Limits) (argv : Argv) : Prop := ∀ rows, argv = some rows →
  rows.length = K.TB_MAX_ARGS ∧ ∀ row, some row ∈ rows → row.length = K.TB_STR_LEN

theorem shaped_alloc (K : Limits) (malloc : Malloc) :
    Shaped K (alloc2dArray malloc K.TB_MAX_ARGS K.TB_STR_LEN) := by
  intro rows h
  cases h0 : malloc 0 with
  | none => simp [alloc2dArray, h0] at h
  | some b =>
    simp only [alloc2dArray, h0, Option.some.injEq] at h
    subst h
    refine ⟨by simp, fun row hrow => ?_⟩
    obtain ⟨i, -, hi⟩ := List.mem_map.mp hrow
    obtain ⟨b, -, rfl⟩ := Option.map_eq_some_iff.mp hi
    simp

theorem Shaped.copyRow (hsh : Shaped K argv) (h : copyRow argv i (s ++ [NUL]) = .ok argv') :
    Shaped K argv' := by
  obtain ⟨rows, row, rfl, hr, hl, rfl⟩ := copyRow_ok_iff.mp h
  obtain ⟨h1, h2⟩ := hsh rows rfl
  rintro _ ⟨⟩
  refine ⟨by simpa using h1, fun r hrow => ?_⟩
  rcases List.mem_or_eq_of_mem_set hrow with hm | hm
  · exact h2 r hm
  · obtain rfl := Option.some.inj hm
    rw [← h2 row (List.mem_of_getElem? hr)]
    simp
    omega

theorem storeAll_error {ss : List (List Char)} {argv : Argv} {i : ℕ} {e : DecodeFault}
    (hsh : Shaped K argv) (hi : i + ss.length ≤ K.TB_MAX_ARGS)
    (hs : ∀ s ∈ ss, s.length < K.TB_STR_LEN) (h : storeAll argv i ss = .error e) :
    e = .nullRow := by
  induction ss generalizing argv i with
  | nil => cases h
  | cons s ss ih =>
    rw [List.length_cons] at hi
    unfold storeAll at h
    cases hc : copyRow argv i (s ++ [NUL]) with
    | ok argv1 =>
      rw [hc] at h
      exact ih (hsh.copyRow hc) (by omega) (fun t ht => hs t (by simp [ht])) h
    | error e' =>
      obtain rfl : e' = e := by simpa [hc] using h
      cases argv with
      | none => exact (Except.error.inj hc).symm
      | some rows =>
        obtain ⟨h1, h2⟩ := hsh rows rfl
        obtain ⟨r, hr⟩ : ∃ r, rows[i]? = some r := ⟨rows[i], by simp⟩
        cases r with
        | none => simpa [copyRow, hr, eq_comm] using hc
        | some row =>
          have hlt : s.length < row.length := by
            rw [h2 row (List.mem_of_getElem? hr)]
            exact hs s (by simp)
          rw [copyRow_row hr, if_pos hlt] at hc
          cases hc

/-- Whatever `malloc` gives, the loop reads inside `pBuf` and writes inside `argv` and its rows: at
most it meets `NULL`. -/
def InBounds (K : Limits) (pBuf : List Char) : Prop :=
  ∀ malloc e, decode K malloc pBuf = .error e → e = .nullRow

/-- **The contents that are decoded in bounds** are the framed ones whose strings fit. -/
theorem inBounds_iff (K : Limits) (pBuf : List Char) :
    InBounds K pBuf ↔ ∃ ss, Framed NUL pBuf ss ∧ K.Fits ss := by
  constructor
  · intro h
    -- with memory that never runs out the loop has no excuse
    cases hd : decode K (fun _ => some fun _ => NUL) pBuf with
    | ok ss =>
      obtain ⟨h1, h2, -⟩ := decode_ok_iff.mp hd
      exact ⟨ss, h1, h2⟩
    | error e =>
      obtain rfl := h _ e hd
      unfold decode at hd
      split at hd
      · next hl =>
        obtain rfl := Except.error.inj hd
        have hn := decodeLoop_nullRow hl _ rfl
        simp at hn
      · cases hd
  · rintro ⟨ss, hf, hfit⟩ malloc e he
    rw [decode_framed hf] at he
    cases hs : storeAll (alloc2dArray malloc K.TB_MAX_ARGS K.TB_STR_LEN) 0 ss with
    | ok argv => simp [hs] at he
    | error e' =>
      obtain rfl : e' = e := by simpa [hs] using he
      exact storeAll_error (shaped_alloc K malloc) (by simpa using hfit.count_le) hfit.length_lt hs

end Dib
