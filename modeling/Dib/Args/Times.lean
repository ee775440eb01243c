import Dib.Args.Colons
import Dib.Args.Numbers

/-!
# Times in arguments

`time_str_to_sec` recovers the four fields of a time from the positions of the colons, and prints
one after the other into an array of three characters, which is not initialised.

* `TimeEvent`, `timePart`, `timeRun`: the function with what it reads, prints and converts;
  `timeRun_result`: it returns what `timeStrToSec` does;
* `TimeText`: four fields of at most two digits; `Fresh`: a field is printed before `tmp` is
  converted for it;
* **`refusesMalformed_iff`**: no text of three characters or more is refused, and an empty last
  field is converted from what is left in `tmp`;
* **`timeStrToSec_of_fields`**: the seconds of four fields of one or two digits.
-/

set_option autoImplicit false

namespace Dib

open Numerals

/-! ## The function, event by event -/

/-- The numbers of a time. -/
inductive TimeField where
  | dd
  | hh
  | mm
  | ss
  deriving DecidableEq, Repr

/-- What happens to the text, to `tmp` and to `*sec`. -/
inductive TimeEvent where
  /-- `time_str[i]` is read. -/
  | read (i : ℤ)
  /-- So many characters of the field, and a terminator, are printed to `tmp`. -/
  | print (f : TimeField) (chars : ℕ)
  /-- `tmp` is converted, for the field. -/
  | convert (f : TimeField)
  /-- `*sec` is set. -/
  | store (sec : ℤ)
  deriving DecidableEq, Repr

/-- What is done about one field: the events, `tmp` behind them, and the number. -/
structure TimePart where
  events : List TimeEvent
  tmp : List Char
  value : ℤ

/-- The events of `printField`. -/
def printEvents (f : TimeField) (e width : ℤ) : List TimeEvent :=
  if width = 2 then [.read (e - 2), .read (e - 1), .print f 2]
  else if width = 1 then [.read (e - 1), .print f 1]
  else []

/-- The `if` of a field that ends before position `e`. -/
def timePart (time_str : List Char) (f : TimeField) (e width : ℤ) (looked : Prop)
    [Decidable looked] (tmp : List Char) : TimePart :=
  if looked then
    ⟨printEvents f e width ++ [.convert f], printField time_str e width tmp,
      atoi (printField time_str e width tmp)⟩
  else ⟨[], tmp, 0⟩

/-- A call: its events, the numbers it computes with, and what it returns. -/
structure TimeRun where
  events : List TimeEvent
  ints : List ℤ
  result : Option ℤ

/-- The call, when the colons have been read and the four fields were dealt with. -/
def TimeRun.ofParts (reads : List ℕ) (dd hh mm ss : TimePart) : TimeRun :=
  let sec := 86400 * dd.value + 3600 * hh.value + 60 * mm.value + ss.value
  { events := reads.map (fun i : ℕ => .read i) ++
      (dd.events ++ (hh.events ++ (mm.events ++ (ss.events ++ [.store (toInt sec)]))))
    ints := [dd.value, 86400 * dd.value, hh.value, 3600 * hh.value, mm.value, 60 * mm.value,
      ss.value, 86400 * dd.value + 3600 * hh.value,
      86400 * dd.value + 3600 * hh.value + 60 * mm.value, sec]
    result := some (toInt sec) }

/-- `time_str_to_sec`. -/
def timeRun (tmp time_str : List Char) : TimeRun :=
  let len : ℤ := time_str.length
  if len < 3 then ⟨[], [], none⟩
  else
    let c := findColons time_str time_str.length 0 ⟨-1, -1, -1⟩
    let dd := timePart time_str .dd c.d c.d (0 < c.d) tmp
    let hh := timePart time_str .hh c.h (c.h - c.d - 1) (1 < c.h - c.d) dd.tmp
    let mm := timePart time_str .mm c.m (c.m - c.h - 1) (1 < c.m - c.h) hh.tmp
    let ss := timePart time_str .ss len (len - c.m - 1) (3 < len) mm.tmp
    .ofParts (scanReads time_str time_str.length 0 ⟨-1, -1, -1⟩) dd hh mm ss

variable {tmp time_str s : List Char} {f f' : TimeField} {e width : ℤ} {looked : Prop}
  [Decidable looked]

theorem timePart_tmp : (timePart time_str f e width looked tmp).tmp =
    if looked then printField time_str e width tmp else tmp := by
  unfold timePart
  split <;> rfl

theorem timePart_value : (timePart time_str f e width looked tmp).value =
    if looked then atoi (printField time_str e width tmp) else 0 := by
  unfold timePart
  split <;> rfl

theorem mul_timePart_value (n : ℤ) : n * (timePart time_str f e width looked tmp).value =
    if looked then n * atoi (if looked then printField time_str e width tmp else tmp) else 0 := by
  rw [timePart_value]
  split
  · rfl
  · exact mul_zero n

/-- **The result is that of `timeStrToSec`.** -/
theorem timeRun_result (tmp time_str : List Char) :
    (timeRun tmp time_str).result = timeStrToSec tmp time_str := by
  simp only [timeRun, TimeRun.ofParts, timeStrToSec]
  split
  · rfl
  · simp only [mul_timePart_value]
    simp only [timePart_value, timePart_tmp]

/-! ## The property -/

/-- A conversion comes after a print of its field, and no other was printed since. -/
def Fresh : Option TimeField → List TimeEvent → Prop
  | _, [] => True
  | _, .print f _ :: l => Fresh (some f) l
  | last, .convert f :: l => last = some f ∧ Fresh last l
  | last, .read _ :: l => Fresh last l
  | last, .store _ :: l => Fresh last l

/-- Four fields of at most two digits, with colons between them. -/
def TimeText (s : List Char) : Prop :=
  (s.splitOn ':').length = 4 ∧ ∀ F ∈ s.splitOn ':', F.length ≤ 2 ∧ ∀ x ∈ F, x.isDigit = true

instance (s : List Char) : Decidable (TimeText s) := inferInstanceAs (Decidable (_ ∧ _))

/-- Any other text is refused, with `*sec` as it was, and `tmp` is not converted for a field that
was not printed to it. -/
structure RefusesMalformed (tmp time_str : List Char) : Prop where
  refused : ¬ TimeText time_str → timeStrToSec tmp time_str = none ∧
    ∀ sec, .store sec ∉ (timeRun tmp time_str).events
  fresh : Fresh none (timeRun tmp time_str).events

variable {l : List TimeEvent} {last : Option TimeField}

theorem fresh_map_read (is : List ℕ) :
    Fresh last (is.map (fun i : ℕ => TimeEvent.read i) ++ l) ↔ Fresh last l := by
  induction is with
  | nil => rfl
  | cons i is ih => exact ih

theorem fresh_timePart (hw : looked → width = 1 ∨ width = 2) :
    Fresh last ((timePart time_str f e width looked tmp).events ++ l) ↔
      Fresh (if looked then some f else last) l := by
  unfold timePart
  split
  · next hl =>
    rcases hw hl with rfl | rfl <;> simp [printEvents, Fresh]
  · rfl

theorem fresh_lastPart (hlast : last ≠ some f) (sec : ℤ) :
    Fresh last ((timePart time_str f e width looked tmp).events ++ [.store sec]) ↔
      (looked → width = 1 ∨ width = 2) := by
  by_cases hw : looked → width = 1 ∨ width = 2
  · rw [fresh_timePart hw]
    exact iff_of_true trivial hw
  · refine iff_of_false (fun h => ?_) hw
    rw [Classical.not_imp, not_or] at hw
    obtain ⟨hl, h1, h2⟩ := hw
    rw [timePart, if_pos hl, printEvents, if_neg h2, if_neg h1] at h
    exact hlast h.1

theorem TimeText.fields (h : TimeText s) : ∃ A B C D : List Char,
    s = A ++ ':' :: (B ++ ':' :: (C ++ ':' :: D)) ∧
      ∀ F ∈ [A, B, C, D], F.length ≤ 2 ∧ ∀ x ∈ F, x.isDigit = true := by
  obtain ⟨h4, hF⟩ := h
  obtain ⟨A, B, C, D, hs⟩ : ∃ A B C D, s.splitOn ':' = [A, B, C, D] := by
    generalize s.splitOn ':' = l at h4
    match l, h4 with
    | [A, B, C, D], _ => exact ⟨A, B, C, D, rfl⟩
  refine ⟨A, B, C, D, ?_, hs ▸ hF⟩
  have hsplit : [':'].intercalate (s.splitOn ':') = s := List.intercalate_splitOn ':'
  rw [← hsplit, hs]
  simp [List.intercalate]

theorem colon_notMem {F : List Char} (h : ∀ x ∈ F, x.isDigit = true) : ':' ∉ F := fun hc =>
  absurd (h _ hc) (by decide)

/-! ## Malformed times -/

section Fields

variable {A B C D : List Char}

theorem length_text : ((A ++ ':' :: (B ++ ':' :: (C ++ ':' :: D))).length : ℤ) =
    A.length + B.length + C.length + D.length + 3 := by
  simp only [List.length_append, List.length_cons]
  push_cast
  ring

theorem getLast?_text (hD : ∀ x ∈ D, x.isDigit = true) :
    (A ++ ':' :: (B ++ ':' :: (C ++ ':' :: D))).getLast? ≠ some ':' ↔ 0 < D.length := by
  have hlast : (A ++ ':' :: (B ++ ':' :: (C ++ ':' :: D))).getLast? = (':' :: D).getLast? := by
    simp [List.getLast?_append, List.getLast?_cons]
  rw [hlast]
  cases D with
  | nil => simp
  | cons x D =>
    rw [List.getLast?_cons_cons]
    refine iff_of_true (fun h => ?_) (Nat.succ_pos _)
    exact colon_notMem hD (List.mem_of_getLast? h)

theorem text_eq_colons_iff : A ++ ':' :: (B ++ ':' :: (C ++ ':' :: D)) = [':', ':', ':'] ↔
    A.length + B.length + C.length + D.length = 0 := by
  constructor
  · intro h
    have hlen := congrArg List.length h
    simp only [List.length_append, List.length_cons, List.length_nil] at hlen
    omega
  · intro h
    simp only [Nat.add_eq_zero_iff, List.length_eq_zero_iff] at h
    obtain ⟨⟨⟨rfl, rfl⟩, rfl⟩, rfl⟩ := h
    rfl

theorem fresh_timeRun_iff (hF : ∀ F ∈ [A, B, C, D], F.length ≤ 2 ∧ ∀ x ∈ F, x.isDigit = true) :
    Fresh none (timeRun tmp (A ++ ':' :: (B ++ ':' :: (C ++ ':' :: D)))).events ↔
      A.length + B.length + C.length = 0 ∨ 0 < D.length := by
  simp only [List.mem_cons, List.not_mem_nil, or_false, forall_eq_or_imp, forall_eq] at hF
  obtain ⟨⟨hA, hA'⟩, ⟨hB, hB'⟩, ⟨hC, hC'⟩, ⟨hD, hD'⟩⟩ := hF
  have hcolons :=
    findColons_text D (colon_notMem hA') (colon_notMem hB') (colon_notMem hC') le_rfl
  have hlen := length_text (A := A) (B := B) (C := C) (D := D)
  simp only [timeRun, hcolons]
  rw [if_neg (by omega), TimeRun.ofParts]
  dsimp only
  rw [fresh_map_read, fresh_timePart (by omega), fresh_timePart (by omega),
    fresh_timePart (by omega), fresh_lastPart (by split_ifs <;> simp), hlen]
  omega

end Fields

/-- **Malformed times are refused, and no field is stale**, exactly when the text is shorter than
three characters, or has four fields of at most two digits and does not end in a colon, or has
nothing but its three colons. -/
theorem refusesMalformed_iff (tmp time_str : List Char) :
    RefusesMalformed tmp time_str ↔ time_str.length < 3 ∨
      (TimeText time_str ∧ (time_str = [':', ':', ':'] ∨ time_str.getLast? ≠ some ':')) := by
  rcases lt_or_ge time_str.length 3 with hlen | hlen
  · have hrun : timeRun tmp time_str = ⟨[], [], none⟩ := if_pos (by omega)
    refine iff_of_true ⟨fun _ => ⟨?_, ?_⟩, ?_⟩ (.inl hlen)
    · rw [← timeRun_result, hrun]
    · simp [hrun]
    · rw [hrun]
      trivial
  rw [or_iff_right (Nat.not_lt.mpr hlen)]
  by_cases htext : TimeText time_str
  · obtain ⟨A, B, C, D, rfl, hF⟩ := htext.fields
    rw [getLast?_text (hF D (by simp)).2, and_iff_right htext]
    rw [text_eq_colons_iff]
    constructor
    · intro h
      have hfresh := (fresh_timeRun_iff hF).mp h.fresh
      omega
    · intro h
      refine ⟨fun h => absurd htext h, (fresh_timeRun_iff hF).mpr ?_⟩
      omega
  · refine iff_of_false (fun h => ?_) fun h => htext h.1
    have hnone := (h.refused htext).1
    rw [timeStrToSec, if_neg (by omega)] at hnone
    cases hnone

/-- A text without a colon is read as what `tmp` happens to hold. -/
theorem abcd_accepted : ¬ ∀ tmp time_str, RefusesMalformed tmp time_str := by
  intro h
  have hnone := ((h ['9', '9'] ['a', 'b', 'c', 'd']).refused (by decide)).1
  have hsome : timeStrToSec ['9', '9'] ['a', 'b', 'c', 'd'] = some 99 := by decide
  rw [hsome] at hnone
  cases hnone

/-! ## Well-formed times -/

/-- One or two digits. -/
structure DigitField (F : List Char) : Prop where
  width : F.length = 1 ∨ F.length = 2
  digits : ∀ x ∈ F, x.isDigit = true

variable {F P S : List Char}

theorem DigitField.value_lt (h : DigitField F) : digitsValue F < 100 := by
  have hlt := digitsValue_lt h.digits
  rcases h.width with hw | hw <;> rw [hw] at hlt <;> omega

theorem DigitField.atoi_print (h : DigitField F) (he : e = P.length + F.length)
    (hwidth : width = F.length) :
    atoi (printField (P ++ F ++ S) e width tmp) = digitsValue F := by
  have hprint : printField (P ++ F ++ S) e width tmp = F := by
    have hfield : ∀ n : ℕ, F.length = n → ((P ++ F ++ S).drop (e - n).toNat).take n = F := by
      rintro n rfl
      have hstart : (e - F.length).toNat = P.length := by omega
      rw [hstart, List.append_assoc, List.drop_left, List.take_left]
    rcases h.width with hw | hw
    · rw [printField, if_neg (by omega), if_pos (by omega)]
      exact hfield 1 hw
    · rw [printField, if_pos (by omega)]
      exact hfield 2 hw
  have hne : F ≠ [] := by
    rintro rfl
    simpa using h.width
  have hlt := h.value_lt
  rw [hprint, atoi_of_isInt ⟨.digits hne h.digits, by omega, by omega⟩]

/-- Reads stay within the text and its terminator, and prints within the three characters of
`tmp`. -/
def TimeEvent.Inside (time_str : List Char) : TimeEvent → Prop
  | .read i => 0 ≤ i ∧ i ≤ time_str.length
  | .print _ chars => chars + 1 ≤ 3
  | .convert _ => True
  | .store _ => True

theorem inside_printEvents (hwidth : width ≤ e) (he : e ≤ time_str.length) :
    ∀ ev ∈ printEvents f e width, ev.Inside time_str := by
  unfold printEvents
  split_ifs <;> simp [TimeEvent.Inside] <;> omega

/-- The field has its number, and is read in place. -/
structure TimePart.Reads (p : TimePart) (time_str F : List Char) : Prop where
  value : p.value = digitsValue F
  inside : ∀ ev ∈ p.events, ev.Inside time_str

theorem timePart_of_field (h : DigitField F) (hs : time_str = P ++ F ++ S) (hl : looked)
    (he : e = P.length + F.length) (hwidth : width = F.length) :
    (timePart time_str f e width looked tmp).Reads time_str F := by
  have hlen := congrArg List.length hs
  simp only [List.length_append] at hlen
  constructor
  · rw [timePart_value, if_pos hl, hs, h.atoi_print he hwidth]
  · rw [timePart, if_pos hl]
    intro ev hev
    rcases List.mem_append.mp hev with hev | hev
    · exact inside_printEvents (by omega) (by omega) ev hev
    · obtain rfl := List.mem_singleton.mp hev
      trivial

theorem TimeRun.reads_ofParts {A B C D : List Char} {reads : List ℕ} {dd hh mm ss : TimePart}
    (hA : DigitField A) (hB : DigitField B) (hC : DigitField C) (hD : DigitField D)
    (hreads : ∀ i ∈ reads, i ≤ s.length) (hdd : dd.Reads s A) (hhh : hh.Reads s B)
    (hmm : mm.Reads s C) (hss : ss.Reads s D) :
    (TimeRun.ofParts reads dd hh mm ss).result =
        some (86400 * (digitsValue A : ℤ) + 3600 * digitsValue B + 60 * digitsValue C +
          digitsValue D) ∧
      (∀ n ∈ (TimeRun.ofParts reads dd hh mm ss).ints, -2 ^ 31 ≤ n ∧ n < 2 ^ 31) ∧
      ∀ ev ∈ (TimeRun.ofParts reads dd hh mm ss).events, ev.Inside s := by
  have hltA := hA.value_lt
  have hltB := hB.value_lt
  have hltC := hC.value_lt
  have hltD := hD.value_lt
  simp only [TimeRun.ofParts, hdd.value, hhh.value, hmm.value, hss.value]
  refine ⟨by rw [toInt_of_range (by omega)], ?_, ?_⟩
  · simp only [List.mem_cons, List.not_mem_nil, or_false, forall_eq_or_imp, forall_eq]
    omega
  · simp only [List.mem_append, or_imp, forall_and, List.mem_singleton, forall_eq]
    refine ⟨fun ev hev => ?_, hdd.inside, hhh.inside, hmm.inside, hss.inside, trivial⟩
    obtain ⟨i, hi, rfl⟩ := List.mem_map.mp hev
    exact ⟨Int.natCast_nonneg i, Int.ofNat_le.mpr (hreads i hi)⟩

/-- **The seconds of a well-formed time**, for any contents of `tmp`. -/
theorem timeStrToSec_of_fields {A B C D : List Char} (hA : DigitField A) (hB : DigitField B)
    (hC : DigitField C) (hD : DigitField D) (tmp : List Char) :
    timeStrToSec tmp (A ++ ':' :: (B ++ ':' :: (C ++ ':' :: D))) =
        some (86400 * (digitsValue A : ℤ) + 3600 * digitsValue B + 60 * digitsValue C +
          digitsValue D) ∧
      (∀ n ∈ (timeRun tmp (A ++ ':' :: (B ++ ':' :: (C ++ ':' :: D)))).ints,
        -2 ^ 31 ≤ n ∧ n < 2 ^ 31) ∧
      ∀ ev ∈ (timeRun tmp (A ++ ':' :: (B ++ ':' :: (C ++ ':' :: D)))).events,
        ev.Inside (A ++ ':' :: (B ++ ':' :: (C ++ ':' :: D))) := by
  rw [← timeRun_result]
  generalize hs : A ++ ':' :: (B ++ ':' :: (C ++ ':' :: D)) = time_str
  have hcolons : findColons time_str time_str.length 0 ⟨-1, -1, -1⟩ =
      ⟨A.length, A.length + 1 + B.length, A.length + 1 + B.length + 1 + C.length⟩ := by
    rw [← hs]
    exact findColons_text D (colon_notMem hA.digits) (colon_notMem hB.digits)
      (colon_notMem hC.digits) le_rfl
  have hlen : (time_str.length : ℤ) = A.length + B.length + C.length + D.length + 3 := by
    rw [← hs, length_text]
  have hwA := hA.width
  have hwB := hB.width
  have hwC := hC.width
  have hwD := hD.width
  simp only [timeRun, hcolons]
  rw [if_neg (by omega)]
  apply TimeRun.reads_ofParts hA hB hC hD fun i hi => scanReads_le hi
  · exact timePart_of_field (P := []) hA hs.symm (by omega) (by simp) rfl
  · exact timePart_of_field (P := A ++ [':']) (S := ':' :: (C ++ ':' :: D)) hB (by simp [← hs])
      (by omega) (by simp) (by omega)
  · exact timePart_of_field (P := A ++ ':' :: (B ++ [':'])) (S := ':' :: D) hC (by simp [← hs])
      (by omega) (by simp; ring) (by omega)
  · exact timePart_of_field (P := A ++ ':' :: (B ++ ':' :: (C ++ [':']))) (S := []) hD
      (by simp [← hs]) (by omega) (by simp; omega) (by omega)

/-- A day, two hours, three minutes and four seconds. -/
theorem timeStrToSec_day :
    timeStrToSec ['9', '9'] ['1', ':', '0', '2', ':', '0', '3', ':', '4'] = some 93784 := by
  have hA : DigitField ['1'] := ⟨by simp, by simp⟩
  have hB : DigitField ['0', '2'] := ⟨by simp, by simp⟩
  have hC : DigitField ['0', '3'] := ⟨by simp, by simp⟩
  have hD : DigitField ['4'] := ⟨by simp, by simp⟩
  exact (timeStrToSec_of_fields hA hB hC hD ['9', '9']).1.trans (by decide)

end Dib
