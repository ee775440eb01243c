import Dib.Args.Numbers
import Dib.Lib.Buffer
import Dib.Registry.Expansion

/-!
# The buffers of `replace_string`

`replace_string` builds the new text in `nstr` and copies it back to `ostr`. It keeps the size of
each of the two buffers in a variable, and takes a new one from `malloc` when the text does not fit.

* `Sized`, `ReplaceState`: a buffer with the size that is kept for it, and the variables of the
  loop;
* `ReplaceEvent`, `replaceStart`, `replaceRound`: the function in terms of its buffers; it is
  partial where it leaves one;
* `replaceText`: the text at each iteration;
* `ReplaceInv`, **`replaceRound_inv`**: the sizes are right, and one round keeps them so;
* **`replaceAt_recorded`**: so they are at every iteration.
-/

set_option autoImplicit false

namespace Dib

open CString Replace

/-! ## The function -/

/-- What the calls of `malloc` return: `NULL`, or a buffer with arbitrary contents. -/
structure Allocator where
  /-- The result for a call with this number and size. -/
  malloc : ℕ → ℕ → Option (List Char)
  length_eq : ∀ k size a, malloc k size = some a → a.length = size

/-- A `char *`, which may be `NULL`, and the `unsigned int` beside it. -/
structure Sized where
  ptr : Option (List Char)
  allocated : ℕ

/-- `ostr` with `ostr_allocated`, `nstr` with `nstr_allocated`, and the calls of `malloc` so far. -/
structure ReplaceState where
  ostr : Sized
  nstr : Sized
  mallocs : ℕ

/-- What a round does to the buffers. -/
inductive ReplaceEvent where
  /-- `strcpy` or `strcat` leaves `text` in a buffer of `size` characters, for which `allocated` is
  kept. -/
  | write (size allocated : ℕ) (text : List Char)
  /-- The text behind the terminator that was written into `ostr`. -/
  | tail (text : List Char)
  deriving DecidableEq, Repr

inductive ReplaceEnd where
  | next (s : ReplaceState)
  /-- There is no occurrence: `ostr` is returned. -/
  | done
  /-- `malloc` fails: `NULL` is returned. -/
  | null

/-- The event of a call that leaves the buffer `a`. -/
def written (a : List Char) (allocated : ℕ) : ReplaceEvent := .write a.length allocated (cstr a)

/-- `sizeof(char) * n`. -/
def toSize (n : ℤ) : ℕ := (n % 2 ^ 64).toNat

/-- `a[i] = c`. -/
def storeChar (a : List Char) (i : ℤ) (c : Char) : Option (List Char) :=
  if 0 ≤ i ∧ i < a.length then some (a.set i.toNat c) else none

/-- A new buffer for `size` characters, if it is needed, and the number of calls of `malloc`. -/
def Sized.regrow (M : Allocator) (k size : ℕ) (needed : Bool) (b : Sized) : Sized × ℕ :=
  if needed then (⟨M.malloc k size, size % 2 ^ 32⟩, k + 1) else (b, k)

def replaceStart (M : Allocator) (source_str : List Char) :
    Option (List ReplaceEvent × ReplaceEnd) :=
  let ostr_allocated := (source_str.length + 1) % 2 ^ 32
  match M.malloc 0 (source_str.length + 1) with
  | none => some ([], .null)
  | some ostr =>
    (strcpy ostr (source_str ++ [NUL])).map fun ostr =>
      ([written ostr ostr_allocated], .next ⟨⟨some ostr, ostr_allocated⟩, ⟨none, 0⟩, 1⟩)

/-- The new text in `nstr`, with its terminator: `ostr` up to the one that was written into it, the
replacement, and the tail. -/
def buildText (nstr ostr replace_str tail : List Char) (allocated : ℕ) :
    Option (List ReplaceEvent × List Char) := do
  let nstr₁ ← strcpy nstr ostr
  let nstr₂ ← strcat nstr₁ (replace_str ++ [NUL])
  let nstr₃ ← strcat nstr₂ tail
  some ([written nstr₁ allocated, written nstr₂ allocated, written nstr₃ allocated], nstr₃)

/-- The new text in `nstr` is copied to `ostr`. -/
def copyBack (M : Allocator) (k : ℕ) (ostr : Sized) (nstr : List Char) (nstr_allocated : ℕ) :
    Option (List ReplaceEvent × ReplaceEnd) :=
  match strlen nstr with
  | none => none
  | some len =>
    let (ostr, k) := ostr.regrow M k (len + 1) (ostr.allocated < len + 1)
    match ostr.ptr with
    | none => some ([], .null)
    | some a =>
      (strcpy a nstr).map fun a =>
        ([written a ostr.allocated],
          .next ⟨⟨some a, ostr.allocated⟩, ⟨some nstr, nstr_allocated⟩, k⟩)

/-- `nstr` for a text of `nlen` characters, and the number of calls of `malloc`. -/
def growNstr (M : Allocator) (nlen : ℤ) (s : ReplaceState) : Sized × ℕ :=
  s.nstr.regrow M s.mallocs (toSize nlen) (s.nstr.ptr.isNone || s.nstr.allocated < toSize nlen)

/-- `nlen`: the length of the new text, with its terminator. -/
def newLength (n replaced behind : ℕ) : ℤ := toInt (n + replaced + behind + 1)

/-- The new text, when `ostr` is cut at the occurrence and `tail` is behind it. -/
def rebuild (M : Allocator) (replace_str ostr tail : List Char) (s : ReplaceState) :
    Option (List ReplaceEvent × ReplaceEnd) :=
  match strlen ostr, readString tail with
  | some n, some text =>
    let nstr := growNstr M (newLength n replace_str.length text.length) s
    match nstr.1.ptr with
    | none => some ([.tail text], .null)
    | some a =>
      match buildText a ostr replace_str tail nstr.1.allocated with
      | none => none
      | some built =>
        (copyBack M nstr.2 ⟨some ostr, s.ostr.allocated⟩ built.2 nstr.1.allocated).map fun r =>
          (.tail text :: built.1 ++ r.1, r.2)
  | _, _ => none

/-- `length = (int) (pdest - ostr); ostr[length] = '\0'`. -/
def truncateAt (ostr : List Char) (i : ℕ) : Option (List Char) := storeChar ostr (toInt i) NUL

/-- The occurrence at `i` is replaced. -/
def replaceMatch (M : Allocator) (search_str replace_str ostr : List Char) (i : ℕ)
    (s : ReplaceState) : Option (List ReplaceEvent × ReplaceEnd) :=
  (truncateAt ostr i).bind fun ostr =>
    (strlen ostr).bind fun n => rebuild M replace_str ostr (ostr.drop (n + search_str.length)) s

/-- The body of the loop. -/
def replaceRound (M : Allocator) (search_str replace_str : List Char) (s : ReplaceState) :
    Option (List ReplaceEvent × ReplaceEnd) :=
  match s.ostr.ptr with
  | none => none
  | some ostr =>
    match readString ostr with
    | none => none
    | some text =>
      match strstr text search_str with
      | none => some ([], .done)
      | some i => replaceMatch M search_str replace_str ostr i s

/-- The variables at the beginning of the iteration `n`, if there is one. -/
def replaceAt (M : Allocator) (search_str replace_str source_str : List Char) :
    ℕ → Option ReplaceState
  | 0 =>
    match replaceStart M source_str with
    | some (_, .next s) => some s
    | _ => none
  | n + 1 =>
    match (replaceAt M search_str replace_str source_str n).bind
      (replaceRound M search_str replace_str) with
    | some (_, .next s) => some s
    | _ => none

/-! ## Statement -/

/-- The text with the first occurrence replaced. -/
def replaceOnce (search_str replace_str T : List Char) : Option (List Char) :=
  (strstr T search_str).map fun i => T.take i ++ replace_str ++ T.drop (i + search_str.length)

/-- The text at the beginning of the iteration `n`, if there is one. -/
def replaceText (search_str replace_str source_str : List Char) : ℕ → Option (List Char)
  | 0 => some source_str
  | n + 1 => (replaceText search_str replace_str source_str n).bind
    (replaceOnce search_str replace_str)

/-- A text whose length, with the terminator, is an `int`. -/
def FitsInt (T : List Char) : Prop := T.length + 1 < 2 ^ 31

instance (T : List Char) : Decidable (FitsInt T) := inferInstanceAs (Decidable (_ < _))

/-- The size that is kept is that of the buffer. -/
def Sized.Recorded (b : Sized) : Prop := ∀ a, b.ptr = some a → a.length = b.allocated

/-- A write into a buffer whose size is known, and which has room for the text. -/
def ReplaceEvent.Fits : ReplaceEvent → Prop
  | .write size allocated text => size = allocated ∧ text.length + 1 ≤ allocated
  | .tail _ => True

/-- A tail is what stands behind the first occurrence. -/
def ReplaceEvent.TailOf (search_str T : List Char) : ReplaceEvent → Prop
  | .write _ _ _ => True
  | .tail text => ∃ x, Leftmost search_str T x text

/-! ## Buffers -/

variable {M : Allocator} {search_str replace_str source_str T T' x y a ostr nstr tail : List Char}
  {s s' : ReplaceState} {b : Sized} {k m n size allocated : ℕ} {needed : Bool}

theorem written_fits (h : Text allocated T a) : (written a allocated).Fits := by
  refine ⟨h.length_eq, ?_⟩
  rw [h.cstr_eq]
  exact h.lt

theorem regrow_recorded (h : b.Recorded) (hsize : size < 2 ^ 32) :
    (b.regrow M k size needed).1.Recorded := by
  unfold Sized.regrow
  split
  · intro a ha
    rw [M.length_eq k size a ha]
    exact (Nat.mod_eq_of_lt hsize).symm
  · exact h

theorem le_regrow (hsize : size < 2 ^ 32) (hneeded : needed = false → size ≤ b.allocated) :
    size ≤ (b.regrow M k size needed).1.allocated := by
  unfold Sized.regrow
  split
  · exact (Nat.mod_eq_of_lt hsize).ge
  · next h => exact hneeded (by simpa using h)

theorem buildText_text (search_str T : List Char) (hnstr : nstr.length = allocated)
    (hostr : Text m x ostr) (hreplace : NUL ∉ replace_str) (htail : Text n y tail)
    (hfit : x.length + replace_str.length + y.length < allocated) :
    ∃ events a, buildText nstr ostr replace_str tail allocated = some (events, a) ∧
      Text allocated (x ++ replace_str ++ y) a ∧
      ∀ v ∈ events, v.Fits ∧ v.TailOf search_str T := by
  obtain ⟨a₁, h₁, htext₁⟩ := strcpy_text hostr hnstr (by omega)
  obtain ⟨a₂, h₂, htext₂⟩ := strcat_text htext₁ (.of_append hreplace []) (by omega)
  obtain ⟨a₃, h₃, htext₃⟩ := strcat_text htext₂ htail (by rw [List.length_append]; omega)
  refine ⟨[written a₁ allocated, written a₂ allocated, written a₃ allocated], a₃, ?_, htext₃, ?_⟩
  · simp only [buildText, h₁, h₂, h₃, Option.bind_eq_bind, Option.bind_some]
  · simp only [List.mem_cons, List.not_mem_nil, or_false]
    rintro v (rfl | rfl | rfl)
    · exact ⟨written_fits htext₁, trivial⟩
    · exact ⟨written_fits htext₂, trivial⟩
    · exact ⟨written_fits htext₃, trivial⟩

/-- **The invariant of the loop**: `ostr` holds `T`, and both sizes are right. -/
structure ReplaceInv (T : List Char) (s : ReplaceState) : Prop where
  ostr : ∃ a, s.ostr.ptr = some a ∧ Text s.ostr.allocated T a
  nstr : s.nstr.Recorded

theorem copyBack_inv (search_str T' : List Char) (M : Allocator) (k : ℕ) (hostr : b.Recorded)
    (hnstr : Text allocated T nstr) (hT : FitsInt T) :
    ∃ events e, copyBack M k b nstr allocated = some (events, e) ∧ e ≠ .done ∧
      (∀ v ∈ events, v.Fits ∧ v.TailOf search_str T') ∧ ∀ s', e = .next s' → ReplaceInv T s' := by
  have hsize : T.length + 1 < 2 ^ 32 := lt_trans hT (by decide)
  have hrec : (b.regrow M k (T.length + 1) (b.allocated < T.length + 1)).1.Recorded :=
    regrow_recorded hostr hsize
  have hle : T.length + 1 ≤
      (b.regrow M k (T.length + 1) (b.allocated < T.length + 1)).1.allocated :=
    le_regrow hsize fun h => by simpa using h
  unfold copyBack
  rw [hnstr.strlen_eq]
  dsimp only
  split
  · refine ⟨[], .null, rfl, by simp, by simp, by simp⟩
  · next a ha =>
    obtain ⟨d, hd, htext⟩ := strcpy_text hnstr (hrec a ha) hle
    refine ⟨_, _, by rw [hd]; rfl, by simp, ?_, ?_⟩
    · simp only [List.mem_cons, List.not_mem_nil, or_false]
      rintro v rfl
      exact ⟨written_fits htext, trivial⟩
    · rintro s' ⟨⟩
      refine ⟨⟨d, rfl, htext⟩, ?_⟩
      rintro a ⟨⟩
      exact hnstr.length_eq

/-! ## One round -/

theorem toSize_newLength (h : n + k + m + 1 < 2 ^ 31) :
    toSize (newLength n k m) = n + k + m + 1 := by
  rw [newLength, toInt_of_range (by omega), toSize]
  omega

theorem growNstr_recorded (M : Allocator) (hnstr : s.nstr.Recorded) (h : n + k + m + 1 < 2 ^ 31) :
    (growNstr M (newLength n k m) s).1.Recorded ∧
      n + k + m < (growNstr M (newLength n k m) s).1.allocated := by
  have hroom : n + k + m + 1 < 2 ^ 32 := lt_trans h (by decide)
  unfold growNstr
  rw [toSize_newLength h]
  exact ⟨regrow_recorded hnstr hroom,
    le_regrow hroom fun h => by simpa using (Bool.or_eq_false_iff.mp h).2⟩

theorem rebuild_inv (M : Allocator) (hreplace : NUL ∉ replace_str)
    (hfirst : Leftmost search_str T x y) (hostr : Text s.ostr.allocated x ostr)
    (htail : Text m y tail) (hnstr : s.nstr.Recorded) (hT : FitsInt (x ++ replace_str ++ y)) :
    ∃ events e, rebuild M replace_str ostr tail s = some (events, e) ∧ e ≠ .done ∧
      (∀ v ∈ events, v.Fits ∧ v.TailOf search_str T) ∧
      ∀ s', e = .next s' → ReplaceInv (x ++ replace_str ++ y) s' := by
  have hfit : x.length + replace_str.length + y.length + 1 < 2 ^ 31 := by
    simpa [FitsInt, Nat.add_assoc] using hT
  obtain ⟨hrec, hroom⟩ := growNstr_recorded M hnstr hfit
  have htailOf : (ReplaceEvent.tail y).TailOf search_str T := ⟨x, hfirst⟩
  unfold rebuild
  rw [hostr.strlen_eq, htail.readString_eq]
  dsimp only
  split
  · refine ⟨_, _, rfl, by simp, ?_, by simp⟩
    simp only [List.mem_cons, List.not_mem_nil, or_false]
    rintro v rfl
    exact ⟨trivial, htailOf⟩
  · next a ha =>
    obtain ⟨events, a', hbuild, htext, hevents⟩ := buildText_text search_str T (hrec a ha)
      hostr hreplace htail hroom
    have hback : Sized.Recorded ⟨some ostr, s.ostr.allocated⟩ := by
      rintro _ ⟨⟩
      exact hostr.length_eq
    obtain ⟨events', e, hcopy, hdone, hevents', hnext⟩ := copyBack_inv search_str T M _
      hback htext hT
    rw [hbuild]
    dsimp only
    refine ⟨_, e, by rw [hcopy]; rfl, hdone, ?_, hnext⟩
    intro v hv
    rcases List.mem_append.mp hv with hv | hv
    · rcases List.mem_cons.mp hv with rfl | hv
      · exact ⟨trivial, htailOf⟩
      · exact hevents v hv
    · exact hevents' v hv

theorem truncateAt_eq (hn : n < ostr.length) (hint : n < 2 ^ 31) :
    truncateAt ostr n = some (ostr.set n NUL) := by
  rw [truncateAt, toInt_of_range (by omega), storeChar, if_pos (by omega), Int.toNat_natCast]

/-- **A replacement**: `T` is `x`, the text that is searched, and `y`. -/
theorem replaceMatch_inv (M : Allocator) (hsearch : search_str ≠ []) (hreplace : NUL ∉ replace_str)
    (hfirst : Leftmost search_str T x y) (hostr : Text s.ostr.allocated T ostr)
    (hnstr : s.nstr.Recorded) (hT : FitsInt T) (hT' : FitsInt (x ++ replace_str ++ y)) :
    ∃ events e, replaceMatch M search_str replace_str ostr x.length s = some (events, e) ∧
      e ≠ .done ∧ (∀ v ∈ events, v.Fits ∧ v.TailOf search_str T) ∧
      ∀ s', e = .next s' → ReplaceInv (x ++ replace_str ++ y) s' := by
  obtain ⟨c, p, rfl⟩ := List.exists_cons_of_ne_nil hsearch
  have heq := hfirst.eq
  have hlen := congrArg List.length heq
  simp only [List.length_append, List.length_cons] at hlen
  unfold FitsInt at hT
  have hsize := hostr.length_eq
  have hlt := hostr.lt
  have hstore : truncateAt ostr x.length = some (ostr.set x.length NUL) :=
    truncateAt_eq (by omega) (by omega)
  have hcut : Text s.ostr.allocated x (ostr.set x.length NUL) := by
    have htext := hostr
    rw [heq, List.append_assoc, List.cons_append] at htext
    exact htext.cut
  have htail : Text (s.ostr.allocated - (x ++ c :: p).length) y
      ((ostr.set x.length NUL).drop (x.length + (c :: p).length)) := by
    have htext := hostr
    rw [heq] at htext
    rw [List.drop_set_of_lt (by simp), ← List.length_append]
    exact htext.drop
  rw [replaceMatch, hstore, Option.bind_some, hcut.strlen_eq, Option.bind_some]
  exact rebuild_inv M hreplace hfirst hcut htail hnstr hT'

/-- **One round.** It never leaves a buffer; its writes fit, its tail is what stands behind the
first occurrence, and where the loop goes on, the sizes are right for the new text. -/
theorem replaceRound_inv (M : Allocator) (hsearch : search_str ≠ []) (hreplace : NUL ∉ replace_str)
    (h : ReplaceInv T s) (hT : FitsInt T)
    (hT' : ∀ T' ∈ replaceOnce search_str replace_str T, FitsInt T') :
    ∃ events e, replaceRound M search_str replace_str s = some (events, e) ∧
      (e = .done ↔ strstr T search_str = none) ∧
      (∀ v ∈ events, v.Fits ∧ v.TailOf search_str T) ∧
      ∀ s', e = .next s' → ∃ T', replaceOnce search_str replace_str T = some T' ∧
        ReplaceInv T' s' := by
  obtain ⟨ostr, hptr, hostr⟩ := h.ostr
  unfold replaceRound
  rw [hptr]
  dsimp only
  rw [hostr.readString_eq]
  dsimp only
  cases hi : strstr T search_str with
  | none => exact ⟨[], .done, rfl, by simp, by simp, by simp⟩
  | some i =>
    have hfirst := leftmost_of_strstr hi
    have honce : replaceOnce search_str replace_str T =
        some (T.take i ++ replace_str ++ T.drop (i + search_str.length)) := by
      rw [replaceOnce, hi, Option.map_some]
    have hlen : (T.take i).length = i := by
      have heq := congrArg List.length hfirst.eq
      have hpos := List.length_pos_of_ne_nil hsearch
      simp only [List.length_append, List.length_take, List.length_drop] at heq ⊢
      omega
    obtain ⟨events, e, hround, hdone, hevents, hnext⟩ :=
      replaceMatch_inv M hsearch hreplace hfirst hostr h.nstr hT (hT' _ honce)
    rw [hlen] at hround
    exact ⟨events, e, hround, by simp [hdone], hevents, fun s' hs' => ⟨_, honce, hnext s' hs'⟩⟩

/-! ## All rounds -/

theorem replaceStart_inv (M : Allocator) (hsource : NUL ∉ source_str) (hT : FitsInt source_str) :
    ∃ events e, replaceStart M source_str = some (events, e) ∧ (∀ v ∈ events, v.Fits) ∧
      ∀ s, e = .next s → ReplaceInv source_str s := by
  have hmod : (source_str.length + 1) % 2 ^ 32 = source_str.length + 1 :=
    Nat.mod_eq_of_lt (lt_trans hT (by decide))
  unfold replaceStart
  rw [hmod]
  dsimp only
  split
  · exact ⟨[], .null, rfl, by simp, by simp⟩
  · next ostr hostr =>
    obtain ⟨d, hd, htext⟩ := strcpy_text (.of_append hsource []) (M.length_eq _ _ _ hostr)
      (Nat.lt_succ_self _)
    refine ⟨_, _, by rw [hd]; rfl, ?_, ?_⟩
    · simp only [List.mem_cons, List.not_mem_nil, or_false]
      rintro v rfl
      exact written_fits htext
    · rintro s ⟨⟩
      exact ⟨⟨d, rfl, htext⟩, by rintro a ⟨⟩⟩

/-- All texts up to the iteration `n` have lengths that are `int`s. -/
def LengthsFit (search_str replace_str source_str : List Char) (n : ℕ) : Prop :=
  ∀ m ≤ n, ∀ T ∈ replaceText search_str replace_str source_str m, FitsInt T

/-- **The loop keeps the invariant**, with the text of the iteration. -/
theorem replaceAt_inv (hsearch : search_str ≠ []) (hsource : NUL ∉ source_str)
    (hreplace : NUL ∉ replace_str) (hfits : LengthsFit search_str replace_str source_str n)
    (h : replaceAt M search_str replace_str source_str n = some s) :
    ∃ T, replaceText search_str replace_str source_str n = some T ∧ ReplaceInv T s := by
  induction n generalizing s with
  | zero =>
    obtain ⟨events, e, hstart, -, hnext⟩ := replaceStart_inv M hsource (hfits 0 le_rfl _ rfl)
    rw [replaceAt, hstart] at h
    split at h
    · next hs =>
      obtain ⟨-, rfl⟩ := Prod.mk.inj (Option.some.inj hs)
      obtain rfl := Option.some.inj h
      exact ⟨source_str, rfl, hnext _ rfl⟩
    · cases h
  | succ n ih =>
    rw [replaceAt] at h
    split at h
    · next hs =>
      obtain rfl := Option.some.inj h
      obtain ⟨s₀, hs₀, hround⟩ := Option.bind_eq_some_iff.mp hs
      obtain ⟨T, hT, hinv⟩ := ih (fun m hm => hfits m (hm.trans (Nat.le_succ n))) hs₀
      have hstep (T' : List Char) (hT' : T' ∈ replaceOnce search_str replace_str T) :
          replaceText search_str replace_str source_str (n + 1) = some T' := by
        rw [replaceText, hT, Option.bind_some]
        exact hT'
      obtain ⟨events, e, hround', -, -, hnext⟩ := replaceRound_inv M hsearch hreplace hinv
        (hfits n (Nat.le_succ n) T hT) fun T' hT' => hfits (n + 1) le_rfl T' (hstep T' hT')
      obtain ⟨-, rfl⟩ := Prod.mk.inj (Option.some.inj (hround'.symm.trans hround))
      obtain ⟨T', hT', hinv'⟩ := hnext _ rfl
      exact ⟨T', hstep T' hT', hinv'⟩
    · cases h

/-- **The sizes are right at every iteration**, whether or not the loop ends: those that are kept
are those of the buffers, what is written fits with its terminator, and the tail is what stands
behind the first occurrence. -/
theorem replaceAt_recorded (M : Allocator) (hsearch : search_str ≠ []) (hsource : NUL ∉ source_str)
    (hreplace : NUL ∉ replace_str) (hfits : LengthsFit search_str replace_str source_str (n + 1)) :
    (∃ events e, replaceStart M source_str = some (events, e) ∧ ∀ v ∈ events, v.Fits) ∧
    ∀ s, replaceAt M search_str replace_str source_str n = some s →
      s.ostr.Recorded ∧ s.nstr.Recorded ∧ ∃ ostr, s.ostr.ptr = some ostr ∧
        ∃ events e, replaceRound M search_str replace_str s = some (events, e) ∧
          ∀ v ∈ events, v.Fits ∧ v.TailOf search_str (cstr ostr) := by
  constructor
  · obtain ⟨events, e, hstart, hevents, -⟩ :=
      replaceStart_inv M hsource (hfits 0 (Nat.zero_le _) _ rfl)
    exact ⟨events, e, hstart, hevents⟩
  · intro s hs
    obtain ⟨T, hT, hinv⟩ := replaceAt_inv hsearch hsource hreplace
      (fun m hm => hfits m (hm.trans (Nat.le_succ n))) hs
    obtain ⟨events, e, hround, -, hevents, -⟩ := replaceRound_inv M hsearch hreplace hinv
      (hfits n (Nat.le_succ n) T hT) fun T' hT' => hfits (n + 1) le_rfl T' (by
        rw [replaceText, hT, Option.bind_some]
        exact hT')
    obtain ⟨ostr, hptr, hostr⟩ := hinv.ostr
    refine ⟨?_, hinv.nstr, ostr, hptr, events, e, hround, ?_⟩
    · rintro a ha
      obtain rfl := Option.some.inj (hptr.symm.trans ha)
      exact hostr.length_eq
    · rw [hostr.cstr_eq]
      exact hevents

/-- Every call of `malloc` succeeds. -/
def plainAllocator : Allocator where
  malloc _ size := some (List.replicate size 'x')
  length_eq _ size a h := by
    obtain rfl := Option.some.inj h
    exact List.length_replicate

/-- The text grows and shrinks again. -/
theorem replaceAt_recorded_words :
    (∃ events e, replaceStart plainAllocator "abab".toList = some (events, e) ∧
      ∀ v ∈ events, v.Fits) ∧
    ∃ s, replaceAt plainAllocator ['a'] "bb".toList "abab".toList 1 = some s ∧
      s.ostr.Recorded ∧ s.nstr.Recorded ∧ ∃ ostr, s.ostr.ptr = some ostr ∧
        ∃ events e, replaceRound plainAllocator ['a'] "bb".toList s = some (events, e) ∧
          ∀ v ∈ events, v.Fits ∧ v.TailOf ['a'] (cstr ostr) := by
  have hfits : LengthsFit ['a'] "bb".toList "abab".toList 2 := by
    unfold LengthsFit
    decide
  obtain ⟨hstart, hround⟩ :=
    replaceAt_recorded plainAllocator (by decide) (by decide) (by decide) hfits
  have hsome : (replaceAt plainAllocator ['a'] "bb".toList "abab".toList 1).isSome = true := by
    decide +kernel
  obtain ⟨s, hs⟩ := Option.isSome_iff_exists.mp hsome
  exact ⟨hstart, s, hs, hround s hs⟩

end Dib
