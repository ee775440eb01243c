import Dib.Handlers.Course

/-!
# The XML brackets of a run

* `XmlBalanced`: a run opens and closes its suite once, or does neither;
* `xmlAt`: what the thread has written when it makes a call;
* `cutAt`: the call at which a cancellation acts;
* **`xmlBalanced_iff`**: the runs that balance their brackets: the two early exits of the loop jump
  over `suite_end_message_handler`, and the requester closes the suite of a cancelled thread without
  knowing whether it was opened or closed; nobody does for a detached one.
-/

set_option autoImplicit false

namespace Dib

open Thread

/-! ## Statement -/

/-- A call of `suite_start_message_handler` or `suite_end_message_handler`. -/
def Event.isXml : Event → Bool
  | .suiteStart _ | .suiteEnd => true
  | _ => false

/-- What a run has written to the XML file. -/
def Worker.xml (w : Worker) : List Event := w.events.filter Event.isXml

/-- The suite is opened and then closed, or neither. -/
def XmlBalanced (T : TestBox) (kind : HandlerKind) (cancelAt : Option ℕ) (args : ThreadArgs)
    (name : List Char) : Prop :=
  ∃ x, execTestThread T kind true cancelAt args.wait_for_response args name = some x ∧
    (x.worker.xml = [] ∨ ∃ suite, x.worker.xml = [.suiteStart suite, .suiteEnd])

/-- The call at which a cancellation acts, if one does before the thread has made its last. -/
def cutAt (T : TestBox) (kind : HandlerKind) (cancelAt : Option ℕ) (args : ThreadArgs) : Option ℕ :=
  cancelAt.filter (· < callsOf T kind args)

/-- The condition. -/
def XmlCloses (T : TestBox) (kind : HandlerKind) (cancelAt : Option ℕ) (args : ThreadArgs) : Prop :=
  args.gen_xml_file = true →
    match cutAt T kind cancelAt args with
    | none => SetsUp T kind args → lastOf T args = none
    | some c =>
      if args.wait_for_response then
        SetsUp T kind args ∧ loopAt kind args ≤ c ∧ (lastOf T args = none → c < exitAt T kind args)
      else
        SetsUp T kind args → loopAt kind args ≤ c → lastOf T args = none ∧ exitAt T kind args ≤ c

/-- What the thread has written before its call `c`. -/
def xmlAt (T : TestBox) (kind : HandlerKind) (args : ThreadArgs) (c : ℕ) : List Event :=
  if args.gen_xml_file = true ∧ SetsUp T kind args ∧ loopAt kind args ≤ c then
    if lastOf T args = none ∧ exitAt T kind args ≤ c then [.suiteStart args.node_name, .suiteEnd]
    else [.suiteStart args.node_name]
  else []

variable {T : TestBox} {kind : HandlerKind} {cancelAt : Option ℕ} {args : ThreadArgs} {w : Worker}
  {c : ℕ}

/-! ## What the thread writes -/

theorem xml_emit {e : Event} (he : e.isXml = false) (w : Worker) : (w.emit e).xml = w.xml := by
  simp [Worker.xml, Worker.emit, he]

@[simp] theorem xml_onStatus (f : StatusGroup → StatusGroup) (w : Worker) :
    (w.onStatus f).xml = w.xml := rfl

@[simp] theorem xml_cleanup (r : Cleanup) (w : Worker) : (w.cleanup T r).xml = w.xml := by
  cases r <;> exact xml_emit rfl _

@[simp] theorem xml_pop (r : Cleanup) (w : Worker) : (w.pop T r).xml = w.xml := by
  rw [Worker.pop]
  split_ifs
  · rfl
  split
  · exact xml_emit rfl _
  split_ifs
  · rw [xml_cleanup]
    exact xml_emit rfl _
  · exact xml_emit rfl _

@[simp] theorem xml_unwind (w : Worker) : (w.unwind T).xml = w.xml := by
  have hfold : ∀ (rs : List Cleanup) (w : Worker),
      (rs.foldl (fun w r => w.cleanup T r) w).xml = w.xml := by
    intro rs
    induction rs with
    | nil => exact fun _ => rfl
    | cons r rs ih => exact fun w => (ih _).trans (xml_cleanup r w)
  exact hfold _ _

@[simp] theorem xml_finalized (w : Worker) : (w.finalized T args).xml = w.xml := by
  simp only [Worker.finalized, Worker.popped, xml_pop]
  rw [xml_emit rfl]
  split_ifs
  · exact xml_emit rfl _
  · rfl

theorem xml_begun : (Worker.begun args).xml = [] := by
  cases h : args.wait_for_response <;> simp [Worker.begun, Worker.xml, h, Event.isXml]

theorem xml_looping (g : StatusGroup) : (Worker.looping T args g).xml =
    if args.gen_xml_file then [.suiteStart args.node_name] else [] := by
  have hstarted : (Worker.started T args g).xml = [] := xml_begun
  rw [Worker.looping]
  split_ifs
  · show (Worker.emit _ (Worker.started T args g)).events.filter Event.isXml = _
    rw [Worker.emit, List.filter_append, ← Worker.xml, hstarted]
    rfl
  · exact hstarted

theorem xmlAt_of_lt (h : c < loopAt kind args) : xmlAt T kind args c = [] :=
  if_neg fun hc => absurd hc.2.2 (Nat.not_le_of_lt h)

theorem xmlAt_of_not_setsUp (h : ¬ SetsUp T kind args) : xmlAt T kind args c = [] :=
  if_neg fun hc => h hc.2.1

theorem xmlAt_of_not_gen (h : ¬ args.gen_xml_file = true) : xmlAt T kind args c = [] :=
  if_neg fun hc => h hc.1

theorem xmlAt_of_mem_loop (hs : SetsUp T kind args) (h1 : loopAt kind args ≤ c)
    (h2 : c < exitAt T kind args) :
    xmlAt T kind args c = if args.gen_xml_file then [.suiteStart args.node_name] else [] := by
  have h3 : ¬ (lastOf T args = none ∧ exitAt T kind args ≤ c) := fun h => Nat.not_le_of_lt h2 h.2
  simp only [xmlAt, hs, h1, and_true, if_neg h3]

theorem xmlAt_of_exitAt_le (hs : SetsUp T kind args) (h : exitAt T kind args ≤ c) :
    xmlAt T kind args c = if args.gen_xml_file then
      if lastOf T args = none then [.suiteStart args.node_name, .suiteEnd]
      else [.suiteStart args.node_name] else [] := by
  have h1 : loopAt kind args ≤ c := Nat.le_trans loopAt_le_exitAt h
  simp only [xmlAt, hs, h1, h, and_true]

theorem xml_looped (hs : SetsUp T kind args) (h : exitAt T kind args ≤ c)
    (hw : w.xml = if args.gen_xml_file then [.suiteStart args.node_name] else []) :
    (w.looped T args).xml = xmlAt T kind args c := by
  rw [xmlAt_of_exitAt_le hs h, Worker.looped, xml_onStatus]
  cases hgen : args.gen_xml_file with
  | false => simpa [hgen] using hw
  | true =>
    simp only [hgen, if_true, and_true] at hw ⊢
    split_ifs with hlast
    · show (w.emit .suiteEnd).events.filter Event.isXml = _
      rw [Worker.emit, List.filter_append, ← Worker.xml, hw]
      rfl
    · exact hw

theorem outline_xml (T : TestBox) (kind : HandlerKind) (args : ThreadArgs) :
    Outline T kind args (fun c w => w.xml = xmlAt T kind args c)
    (fun n ret w => n = callsOf T kind args ∧ ret.isSome = args.wait_for_response ∧
      w.xml = xmlAt T kind args n)
    (fun w => w.xml = if args.gen_xml_file then [.suiteStart args.node_name] else []) := by
  have hret : ∀ r : ℤ, (if args.wait_for_response then some r else none).isSome =
      args.wait_for_response := fun r => by cases args.wait_for_response <;> rfl
  have hloop : nodeAt kind args + 3 < loopAt kind args := by
    rw [loopAt]
    omega
  -- before the loop nothing is written
  have hbefore : ∀ c, (SetsUp T kind args → c < loopAt kind args) → [] = xmlAt T kind args c := by
    intro c hc
    by_cases hs : SetsUp T kind args
    · exact (xmlAt_of_lt (hc hs)).symm
    · exact (xmlAt_of_not_setsUp hs).symm
  have hfailed : ∀ w : Worker, ¬ SetsUp T kind args → w.xml = [] →
      Wraps T args (fun c w => w.xml = xmlAt T kind args c)
        (fun n ret w => n = callsOf T kind args ∧ ret.isSome = args.wait_for_response ∧
          w.xml = xmlAt T kind args n) (failedCalls T kind args) (-1) w := by
    intro w hs hw
    have hxml : ∀ c, w.xml = xmlAt T kind args c := fun c =>
      hw.trans (hbefore c fun h => absurd h hs)
    refine ⟨fun _ => ⟨hxml _, hxml _⟩, ?_, hret _, (xml_finalized w).trans (hxml _)⟩
    rw [callsOf, if_neg hs]
  constructor
  case pushed => exact fun _ => hbefore 0 fun _ => by omega
  case begun => exact fun c hc => xml_begun.trans (hbefore c fun _ => by omega)
  case unregistered =>
    intro hnode
    refine hfailed _ (fun hs => ?_) xml_begun
    rw [SetsUp, hnode] at hs
    cases hs.1
  case registered =>
    refine fun g _ c hc hlt => xml_begun.trans (hbefore c fun hs => ?_)
    have h1 := hlt hs
    omega
  case failed => exact fun g _ hs => hfailed _ hs xml_begun
  case running => exact fun g _ _ => xml_begun.trans (hbefore _ fun _ => hloop)
  case started =>
    refine fun g _ _ hgen => xml_begun.trans (hbefore _ fun _ => ?_)
    rw [loopAt, ThreadArgs.xmlCalls, if_pos hgen]
    exact Nat.lt_succ_self _
  case looping => exact fun g _ _ => xml_looping g
  case sleep => exact fun w s hw => (xml_emit rfl w).trans hw
  case run => exact fun i w cmd hw => (xml_emit rfl _).trans hw
  case round => exact fun hs c w hw h1 h2 => hw.trans (xmlAt_of_mem_loop hs h1 h2).symm
  case exit => exact fun hs w hw => xml_looped hs (Nat.le_refl _) hw
  case wrapup =>
    intro hs w r hw
    have hexit : ∀ c, exitAt T kind args ≤ c → (w.exited T args).xml = xmlAt T kind args c :=
      fun c hc => xml_looped hs hc hw
    refine ⟨fun _ => ⟨hexit _ (by omega), hexit _ (by omega)⟩, ?_, hret r,
      (xml_finalized _).trans (hexit _ (by omega))⟩
    rw [callsOf, if_pos hs]

theorem xmlAt_balanced_iff : (xmlAt T kind args c = [] ∨
      ∃ suite, xmlAt T kind args c = [.suiteStart suite, .suiteEnd]) ↔
    (args.gen_xml_file = true → SetsUp T kind args → loopAt kind args ≤ c →
      lastOf T args = none ∧ exitAt T kind args ≤ c) := by
  rw [xmlAt]
  split_ifs with h h'
  · simp [h']
  · simpa [h] using h'
  · simpa using fun h1 h2 h3 => absurd ⟨h1, h2, h3⟩ h

theorem xmlAt_closed_iff : (xmlAt T kind args c ++ [.suiteEnd] = [] ∨
      ∃ suite, xmlAt T kind args c ++ [.suiteEnd] = [.suiteStart suite, .suiteEnd]) ↔
    args.gen_xml_file = true ∧ SetsUp T kind args ∧ loopAt kind args ≤ c ∧
      ¬ (lastOf T args = none ∧ exitAt T kind args ≤ c) := by
  rw [xmlAt]
  split_ifs with h h'
  · simp [h']
  · simp [h, h']
  · simpa using fun h1 h2 h3 => absurd ⟨h1, h2, h3⟩ h

/-! ## The runs -/

theorem xmlBalanced_returned {ret : Option ℤ} {name : List Char}
    (hr : run (handler T kind) cancelAt (.start args) = .returned ret w)
    (hret : ret.isSome = args.wait_for_response) :
    XmlBalanced T kind cancelAt args name ↔
      (w.xml = [] ∨ ∃ suite, w.xml = [.suiteStart suite, .suiteEnd]) := by
  -- a thread that takes the daemon down has written to the file what it has written
  cases hfault : w.faulted with
  | true => simp [XmlBalanced, execTestThread, hr, hfault]
  | false =>
    cases hwait : args.wait_for_response with
    | false => simp [XmlBalanced, execTestThread, hr, hfault, hwait]
    | true =>
      rw [hwait] at hret
      obtain ⟨status, rfl⟩ := Option.isSome_iff_exists.mp hret
      simp [XmlBalanced, execTestThread, hr, hfault, hwait]

theorem xmlBalanced_cancelled {name : List Char}
    (hr : run (handler T kind) cancelAt (.start args) = .cancelled w) :
    XmlBalanced T kind cancelAt args name ↔
      ((if args.wait_for_response = true ∧ args.gen_xml_file = true then w.xml ++ [.suiteEnd]
          else w.xml) = [] ∨
        ∃ suite, (if args.wait_for_response = true ∧ args.gen_xml_file = true then
          w.xml ++ [.suiteEnd] else w.xml) = [.suiteStart suite, .suiteEnd]) := by
  have hend : ((w.unwind T).emit .suiteEnd).xml = w.xml ++ [.suiteEnd] := by
    show ((w.unwind T).events ++ [Event.suiteEnd]).filter Event.isXml = _
    rw [List.filter_append, ← Worker.xml, xml_unwind]
    rfl
  cases hwait : args.wait_for_response with
  | false => simp [XmlBalanced, execTestThread, hr, hwait]
  | true =>
    cases hgen : args.gen_xml_file with
    | false => simp [XmlBalanced, execTestThread, hr, hwait, hgen]
    | true => simp [XmlBalanced, execTestThread, hr, hwait, hgen, hend]

/-- **The brackets** balance exactly in the runs that `XmlCloses` describes. -/
theorem xmlBalanced_iff (hkind : kind = .case ∨ kind = .executable) (cancelAt : Option ℕ)
    (name : List Char) :
    XmlBalanced T kind cancelAt args name ↔ XmlCloses T kind cancelAt args := by
  have hcourse := wpAt_counted hkind (outline_xml T kind args)
  have hcalls : numPoints (handler T kind) (.start args) = callsOf T kind args := by
    rw [← hcourse.2.1, Nat.zero_add]
  rcases run_cases_at hcourse cancelAt with
    ⟨n, ret, w, hn, hr, rfl, hret, hxml⟩ | ⟨c, p, hc, hlt, hr, hxml⟩
  · have hcut : cutAt T kind cancelAt args = none := by
      rw [cutAt, Option.filter_eq_none_iff]
      intro c hc
      simpa using hn c hc
    rw [xmlBalanced_returned hr hret, hxml, xmlAt_balanced_iff, XmlCloses, hcut]
    refine forall_congr' fun _ => forall_congr' fun hs => ?_
    have hexit : exitAt T kind args ≤ callsOf T kind args := by
      rw [callsOf, if_pos hs]
      omega
    have hloop : loopAt kind args ≤ callsOf T kind args := Nat.le_trans loopAt_le_exitAt hexit
    exact ⟨fun h => (h hloop).1, fun h _ => ⟨h, hexit⟩⟩
  · have hcut : cutAt T kind cancelAt args = some c := by
      rw [hcalls] at hlt
      simp [cutAt, hc, hlt]
    rw [xmlBalanced_cancelled hr, hxml, XmlCloses, hcut]
    by_cases hgen : args.gen_xml_file = true
    · cases hwait : args.wait_for_response with
      | false =>
        simp only [Bool.false_eq_true, false_and, if_false]
        exact xmlAt_balanced_iff
      | true =>
        have hlast : ¬ (lastOf T args = none ∧ exitAt T kind args ≤ c) ↔
            (lastOf T args = none → c < exitAt T kind args) := by rw [not_and, Nat.not_le]
        simp only [hgen, and_self, if_true, forall_const]
        rw [xmlAt_closed_iff, hlast]
        exact and_iff_right hgen
    · simp [hgen, xmlAt_of_not_gen]

theorem xmlBalanced_all_loops : XmlBalanced failing .case none (xmlRun false) ['t'] := by
  refine (xmlBalanced_iff (.inl rfl) none ['t']).mpr fun _ => ?_
  show SetsUp failing .case (xmlRun false) → lastOf failing (xmlRun false) = none
  decide

/-- The first failure stops the run, and the suite stays open. -/
theorem unclosed_suite : ¬ XmlBalanced failing .case none (xmlRun true) ['t'] := by
  rintro ⟨x, hx, hxml⟩
  have hopen : (execTestThread failing .case true none true (xmlRun true) ['t']).map
      (·.worker.xml) = some [.suiteStart ['t']] := by decide
  have hrun : execTestThread failing .case true none true (xmlRun true) ['t'] = some x := hx
  rw [hrun, Option.map_some, Option.some.injEq] at hopen
  rw [hopen] at hxml
  rcases hxml with h | ⟨suite, h⟩ <;> cases h

end Dib
