import Dib.Lib.CString

/-!
# Strings in buffers of C

* `Text`: a buffer of a certain size that holds a certain string;
* `readString`, `strcpy`, `strcat`: partial where no terminator is found or a write leaves the
  buffer;
* **`strcpy_text`**, **`strcat_text`**: they write the text if it fits, with its terminator;
* `strncat`, `copyPart`: a bounded part is appended, or copied and terminated;
  **`strncat_cstr_iff`**, **`copyPart_bind_iff`**: when they stay inside;
* `Text.cut`, `Text.drop`: a text into which a terminator is written, and what stands behind.
-/

set_option autoImplicit false

namespace CString

/-- The string at `src`, up to its terminator. -/
def readString (src : List Char) : Option (List Char) := (strlen src).map fun n => src.take n

def strcpy (dst src : List Char) : Option (List Char) :=
  (readString src).bind fun text => memcpy dst 0 (text ++ [NUL])

def strcat (dst src : List Char) : Option (List Char) :=
  match strlen dst with
  | none => none
  | some n => (readString src).bind fun text => memcpy dst n (text ++ [NUL])

/-- `strncat(dst, src, n)`, for a string that is given without its terminator. -/
def strncat (dst src : List Char) (n : ℕ) : Option (List Char) :=
  (strlen dst).bind fun k => memcpy dst k (src.take n ++ [NUL])

/-- `strncpy(dst, src, n)`, which may leave the buffer. -/
def writeN (dst src : List Char) (n : ℕ) : Option (List Char) :=
  if n ≤ dst.length then some (strncpy dst src n) else none

/-- `dst[i] = c`. -/
def putChar (dst : List Char) (i : ℕ) (c : Char) : Option (List Char) :=
  if i < dst.length then some (dst.set i c) else none

/-- `strncpy(dst, src, n)` and `dst[n] = '\0'`. -/
def copyPart (dst src : List Char) (n : ℕ) : Option (List Char) :=
  (writeN dst src n).bind fun dst => putChar dst n NUL

/-- The buffer `a` has `size` characters and holds the string `s`. -/
structure Text (size : ℕ) (s a : List Char) : Prop where
  length_eq : a.length = size
  notMem : NUL ∉ s
  starts : s ++ [NUL] <+: a

variable {m size : ℕ} {s t a src dst : List Char}

namespace Text

theorem of_append (hs : NUL ∉ s) (r : List Char) : Text (s ++ NUL :: r).length s (s ++ NUL :: r) :=
  ⟨rfl, hs, r, by simp⟩

theorem eq_append (h : Text size s a) : ∃ r, a = s ++ NUL :: r := by
  obtain ⟨r, hr⟩ := h.starts
  exact ⟨r, by rw [← hr, List.append_assoc, List.singleton_append]⟩

theorem lt (h : Text size s a) : s.length < size := by
  have hle := h.starts.length_le
  rw [List.length_append, List.length_singleton, h.length_eq] at hle
  exact hle

theorem strlen_eq (h : Text size s a) : strlen a = some s.length := by
  obtain ⟨r, rfl⟩ := h.eq_append
  exact strlen_append_NUL h.notMem r

theorem cstr_eq (h : Text size s a) : cstr a = s := by
  obtain ⟨r, rfl⟩ := h.eq_append
  exact cstr_append_NUL h.notMem r

theorem readString_eq (h : Text size s a) : readString a = some s := by
  rw [readString, h.strlen_eq, Option.map_some]
  obtain ⟨r, rfl⟩ := h.eq_append
  rw [List.take_left]

end Text

theorem text_cstr (h : NUL ∈ a) : Text a.length (cstr a) a := by
  obtain ⟨s, r, rfl, hs⟩ := List.eq_append_cons_of_mem h
  rw [cstr_append_NUL hs]
  exact .of_append hs r

theorem text_zeros (h : 0 < size) : Text size [] (List.replicate size NUL) := by
  obtain ⟨n, rfl⟩ := Nat.exists_eq_succ_of_ne_zero h.ne'
  exact ⟨List.length_replicate, List.not_mem_nil, List.replicate n NUL, rfl⟩

/-- **A copy** that fits. -/
theorem strcpy_text (h : Text m t src) (hdst : dst.length = size) (hfit : t.length < size) :
    ∃ d, strcpy dst src = some d ∧ Text size t d := by
  rw [strcpy, h.readString_eq, Option.bind_some]
  refine ⟨_, memcpy_eq_some_iff.mpr ⟨?_, rfl⟩, ?_, h.notMem, ?_⟩
  · rw [List.length_append, List.length_singleton]
    omega
  · simp
    omega
  · rw [List.take_zero, List.nil_append]
    exact List.prefix_append _ _

/-- **An appended text** that fits. -/
theorem strcat_text (hd : Text size s dst) (h : Text m t src) (hfit : s.length + t.length < size) :
    ∃ d, strcat dst src = some d ∧ Text size (s ++ t) d := by
  have hsize := hd.length_eq
  simp only [strcat, hd.strlen_eq, h.readString_eq, Option.bind_some]
  refine ⟨_, memcpy_eq_some_iff.mpr ⟨?_, rfl⟩, ?_, ?_, ?_⟩
  · rw [List.length_append, List.length_singleton]
    omega
  · simp
    omega
  · rw [List.mem_append, not_or]
    exact ⟨hd.notMem, h.notMem⟩
  · obtain ⟨r, rfl⟩ := hd.eq_append
    rw [List.take_left, List.append_assoc]
    exact List.prefix_append _ _

theorem strncpy_zeros_text (hs : NUL ∉ s) (hlt : m < size) :
    Text size (s.take m) (strncpy (List.replicate size NUL) s m) := by
  obtain ⟨k, rfl⟩ := Nat.exists_eq_add_of_lt hlt
  have hdrop : (List.replicate (m + k + 1) NUL).drop m = List.replicate (k + 1) NUL := by
    rw [List.drop_replicate]
    congr 1
    omega
  refine ⟨?_, fun h => hs (List.mem_of_mem_take h),
    List.replicate (m - s.length) NUL ++ List.replicate k NUL, ?_⟩
  · rw [strncpy, hdrop]
    simp
    omega
  · have htake : (List.replicate (m - s.length) NUL).take (m - s.length) =
        List.replicate (m - s.length) NUL := List.take_of_length_le (by simp)
    rw [strncpy, hdrop, List.take_append, htake, List.append_assoc, List.append_assoc,
      List.replicate_succ, List.singleton_append, ← List.cons_append, ← List.replicate_succ,
      List.replicate_succ', List.append_assoc, List.singleton_append]

theorem text_of_memcpy {x : List Char} (hd : Text size s dst) (ht : NUL ∉ t)
    (h : memcpy dst s.length (t ++ [NUL]) = some x) :
    s.length + t.length < size ∧ Text size (s ++ t) x := by
  have hsize := hd.length_eq
  obtain ⟨hle, rfl⟩ := memcpy_eq_some_iff.mp h
  obtain ⟨r, hr⟩ := hd.eq_append
  rw [List.length_append, List.length_singleton] at hle
  refine ⟨by omega, ?_, ?_, dst.drop (s.length + (t ++ [NUL]).length), ?_⟩
  · simp
    omega
  · rw [List.mem_append, not_or]
    exact ⟨hd.notMem, ht⟩
  · rw [hr, List.take_left]
    simp

theorem text_of_strcat {x : List Char} (hd : Text size s dst) (h : Text m t src)
    (hx : strcat dst src = some x) : s.length + t.length < size ∧ Text size (s ++ t) x := by
  rw [strcat, hd.strlen_eq, h.readString_eq] at hx
  exact text_of_memcpy hd h.notMem hx

/-- **A string** that the bound does not cut is appended if it fits. -/
theorem strncat_cstr_iff {p : List Char} {n : ℕ} (hd : Text size s dst) (ht : NUL ∉ t)
    (hn : t.length ≤ n) :
    (strncat dst t n).map cstr = some p ↔ s.length + t.length < size ∧ p = s ++ t := by
  rw [strncat, hd.strlen_eq, Option.bind_some, List.take_of_length_le hn]
  constructor
  · intro h
    obtain ⟨x, hx, rfl⟩ := Option.map_eq_some_iff.mp h
    obtain ⟨hfit, htext⟩ := text_of_memcpy hd ht hx
    exact ⟨hfit, htext.cstr_eq⟩
  · rintro ⟨hfit, rfl⟩
    have hroom : s.length + (t ++ [NUL]).length ≤ dst.length := by
      rw [hd.length_eq, List.length_append, List.length_singleton]
      omega
    have hx := memcpy_eq_some_iff.mpr ⟨hroom, rfl⟩
    rw [hx, Option.map_some, (text_of_memcpy hd ht hx).2.cstr_eq]

/-- **A part of a string** is copied into a buffer, whatever it held, that is longer; what goes on
with the string in the buffer goes on with the part. -/
theorem copyPart_bind_iff {β : Type} {f : List Char → Option β} {y : β} (hs : NUL ∉ s)
    (hm : m ≤ s.length) :
    ((copyPart dst s m).bind fun a => f (cstr a)) = some y ↔
      m < dst.length ∧ f (s.take m) = some y := by
  have hcopy : strncpy dst s m = s.take m ++ dst.drop m := by
    rw [strncpy, List.take_append_of_le_length hm]
  have hlen : (s.take m).length = m := List.length_take_of_le hm
  by_cases hfit : m < dst.length
  · have hset : (s.take m ++ dst.drop m).set m NUL = s.take m ++ NUL :: dst.drop (m + 1) := by
      rw [List.drop_eq_getElem_cons hfit, List.set_append_right _ _ hlen.le, hlen, Nat.sub_self,
        List.set_cons_zero]
    have hin : m < (s.take m ++ dst.drop m).length := by
      rw [List.length_append, hlen, List.length_drop]
      omega
    rw [copyPart, writeN, if_pos hfit.le, Option.bind_some, hcopy, putChar, if_pos hin, hset,
      Option.bind_some, cstr_append_NUL fun h => hs (List.mem_of_mem_take h)]
    exact (and_iff_right hfit).symm
  · have hnone : copyPart dst s m = none := by
      rw [copyPart, writeN]
      split_ifs with hle
      · rw [Option.bind_some, putChar, if_neg]
        rw [hcopy, List.length_append, hlen, List.length_drop]
        omega
      · rfl
    rw [hnone]
    exact iff_of_false (by rintro ⟨⟩) fun h => hfit h.1

/-- A text ends where a terminator is written into it. -/
theorem Text.cut {x y : List Char} {c : Char} (h : Text size (x ++ c :: y) a) :
    Text size x (a.set x.length NUL) := by
  obtain ⟨r, rfl⟩ := h.eq_append
  have hx : NUL ∉ x := fun hmem => h.notMem (List.mem_append_left _ hmem)
  refine ⟨by rw [List.length_set, h.length_eq], hx, y ++ NUL :: r, ?_⟩
  simp

/-- Behind a part of a text stands the rest of it. -/
theorem Text.drop {x y : List Char} (h : Text size (x ++ y) a) :
    Text (size - x.length) y (a.drop x.length) := by
  obtain ⟨r, hr⟩ := h.starts
  refine ⟨by rw [List.length_drop, h.length_eq],
    fun hmem => h.notMem (List.mem_append_right _ hmem), r, ?_⟩
  rw [← hr]
  simp

end CString
