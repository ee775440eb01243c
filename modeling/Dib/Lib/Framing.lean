import Mathlib.Data.List.Basic
import Mathlib.Data.List.Infix
import Mathlib.Tactic.Ring

/-!
# Strings framed by a terminator

A list of strings is sent as one buffer: each string followed by the terminator `z`, and an empty
string, a lone `z`, after the last one.

* `frame`, `Framed`: the framing, and the buffers that start with the framing of `ss` and its end
  mark; no string of such a buffer is empty or contains `z`;
* `split_of_notMem`: where the terminators of a list stand;
* `framed_nil`, `framed_cons`: a buffer is read string by string;
* `fill`: a buffer of `z`s into which only the first `k` symbols of `B` were copied;
* **`framed_fill_iff`**: cut short, a framing still reads as the same strings exactly when the cut
  takes nothing but terminators.
-/

set_option autoImplicit false

namespace Framing

variable {α : Type*} (z : α)

/-- Every string followed by the terminator. -/
def frame (ss : List (List α)) : List α := ss.flatMap (· ++ [z])

/-- The buffer reads as `ss`: the framing of `ss`, the end mark, anything. -/
structure Framed (buf : List α) (ss : List (List α)) : Prop where
  ne_nil : ∀ s ∈ ss, s ≠ []
  notMem : ∀ s ∈ ss, z ∉ s
  split : ∃ rest, buf = frame z ss ++ z :: rest

variable {z}

@[simp] theorem frame_nil : frame z [] = [] := rfl

@[simp] theorem frame_cons (s : List α) (ss : List (List α)) :
    frame z (s :: ss) = s ++ z :: frame z ss := by
  simp [frame]

theorem frame_append (ss ts : List (List α)) : frame z (ss ++ ts) = frame z ss ++ frame z ts := by
  simp [frame]

theorem split_of_notMem {s t x y : List α} (ht : z ∉ t) (h : s ++ t = x ++ z :: y) :
    ∃ q, s = x ++ z :: q ∧ y = q ++ t := by
  rcases List.append_eq_append_iff.mp h with ⟨a, -, h1⟩ | ⟨a, rfl, h1⟩
  · exact absurd (h1 ▸ List.mem_append_right a List.mem_cons_self) ht
  cases a with
  | nil =>
    rw [List.nil_append] at h1
    exact absurd (h1 ▸ List.mem_cons_self) ht
  | cons c q =>
    obtain ⟨rfl, rfl⟩ := List.cons.inj h1
    exact ⟨q, rfl, rfl⟩

theorem framed_nil {buf : List α} : Framed z buf [] ↔ ∃ rest, buf = z :: rest :=
  ⟨fun h => by simpa using h.split, fun h => ⟨by simp, by simp, by simpa using h⟩⟩

theorem framed_cons {buf s : List α} {ss : List (List α)} :
    Framed z buf (s :: ss) ↔ s ≠ [] ∧ z ∉ s ∧ ∃ buf', buf = s ++ z :: buf' ∧ Framed z buf' ss := by
  constructor
  · rintro ⟨h1, h2, rest, rfl⟩
    exact ⟨h1 s (by simp), h2 s (by simp), frame z ss ++ z :: rest, by simp,
      ⟨fun t ht => h1 t (by simp [ht]), fun t ht => h2 t (by simp [ht]), rest, rfl⟩⟩
  · rintro ⟨h1, h2, buf', rfl, h3, h4, rest, rfl⟩
    exact ⟨by simpa using ⟨h1, h3⟩, by simpa using ⟨h2, h4⟩, rest, by simp⟩

theorem framed_frame {ss : List (List α)} (h1 : ∀ s ∈ ss, s ≠ []) (h2 : ∀ s ∈ ss, z ∉ s)
    (rest : List α) : Framed z (frame z ss ++ z :: rest) ss :=
  ⟨h1, h2, rest, rfl⟩

/-! ## Buffers that were filled only in part -/

variable (z) in
/-- A buffer of `z`s, as long as `B`, into which the first `k` symbols of `B` were copied. -/
def fill (B : List α) (k : ℕ) : List α := B.take k ++ List.replicate (B.length - k) z

@[simp] theorem length_fill (B : List α) (k : ℕ) : (fill z B k).length = B.length := by
  simp only [fill, List.length_append, List.length_take, List.length_replicate]
  omega

theorem fill_append_replicate (Q : List α) (m : ℕ) {k : ℕ} (hk : Q.length ≤ k) :
    fill z (Q ++ List.replicate m z) k = Q ++ List.replicate m z := by
  rw [fill, List.take_append, List.take_of_length_le hk, List.take_replicate, List.append_assoc,
    ← List.replicate_add]
  congr 2
  simp only [List.length_append, List.length_replicate]
  omega

theorem getElem?_fill {B : List α} {k i : ℕ} (h1 : k ≤ i) (h2 : i < B.length) :
    (fill z B k)[i]? = some z := by
  have hk : (B.take k).length = k := by simp; omega
  rw [fill, List.getElem?_append_right (by omega), hk, List.getElem?_replicate, if_pos (by omega)]

theorem frame_eq_concat {ss : List (List α)} (hss : ss ≠ []) (h1 : ∀ s ∈ ss, s ≠ [])
    (h2 : ∀ s ∈ ss, z ∉ s) : ∃ Q x, frame z ss = Q ++ [x, z] ∧ x ≠ z := by
  obtain ⟨init, s, rfl⟩ := List.eq_nil_or_concat ss |>.resolve_left hss
  rw [List.concat_eq_append] at *
  obtain ⟨t, x, rfl⟩ := List.eq_nil_or_concat s |>.resolve_left (h1 s (by simp))
  rw [List.concat_eq_append] at *
  have hx : z ∉ t ++ [x] := h2 _ (by simp)
  refine ⟨frame z init ++ t, x, by simp [frame_append], fun h => hx (by simp [h])⟩

/-- **A framing cut at `k`**, in a buffer of `z`s, reads as the same strings exactly when at most
the last terminator of the framing was lost. -/
theorem framed_fill_iff {ss : List (List α)} (h1 : ∀ s ∈ ss, s ≠ []) (h2 : ∀ s ∈ ss, z ∉ s)
    {m : ℕ} (hm : 0 < m) (k : ℕ) :
    Framed z (fill z (frame z ss ++ List.replicate m z) k) ss ↔ (frame z ss).length - 1 ≤ k := by
  obtain ⟨m, rfl⟩ := Nat.exists_eq_succ_of_ne_zero hm.ne'
  by_cases hss : ss = []
  · subst hss
    have e := fill_append_replicate (z := z) [] (m + 1) (Nat.zero_le k)
    rw [frame_nil, e, List.replicate_succ]
    simpa using framed_nil.mpr ⟨List.replicate m z, rfl⟩
  obtain ⟨Q, x, hQ, hx⟩ := frame_eq_concat hss h1 h2
  have hlen : (frame z ss).length = Q.length + 2 := by simp [hQ]
  constructor
  · -- a lost last symbol would read as a terminator
    intro h
    by_contra hk
    obtain ⟨rest, hrest⟩ := h.split
    have e1 := getElem?_fill (z := z) (B := frame z ss ++ List.replicate (m + 1) z) (k := k)
      (i := Q.length) (by omega) (by simp [hlen]; omega)
    rw [hrest, hQ] at e1
    exact hx (by simpa using e1)
  · intro hk
    have e1 : frame z ss ++ List.replicate (m + 1) z = (Q ++ [x]) ++ List.replicate (m + 2) z := by
      rw [hQ, List.replicate_succ (n := m + 1)]
      simp
    have e2 := fill_append_replicate (z := z) (Q ++ [x]) (m + 2) (k := k) (by simp; omega)
    rw [e1, e2, ← e1, List.replicate_succ]
    exact framed_frame h1 h2 _

end Framing
