import Dib.Threads.Model

/-!
# The argument record

`cmd_parse` allocates the record and frees it at its error exit; `exec_test_thread` frees it when no
thread could be created, and otherwise the test thread does, in `finalize_thread`.

* `Session.Alone`, `Session.Shared`, `Session.Counted`: how often the record has been freed, by
  where its two threads stand;
* `Session.Owned`: freed at most once, not used after that, and freed in the end;
* `Session.Keeps`: the test thread is not cancelled, and does not free the record of a requester
  that has yet to read the time-out from it;
* `Session.Lost`: what a step that does not keep it leaves behind;
* **`record_owned`**: the record is owned as long as it is kept, and one that is owned when both
  threads have ended was kept all along; `record_leaked`: one that is not.
-/

set_option autoImplicit false

namespace Dib

open Lts

variable {s s' : Threads} {k : ℕ} {a : Act} {x x' : Session} {tr : List (Threads × (ℕ × Act))}

/-- How often the test thread has freed the record. -/
def WorkThread.releases : WorkThread → ℕ
  | .freed _ | .cleaned false | .terminated false => 1
  | _ => 0

/-- A cancellation has acted on the test thread. -/
def WorkThread.struck : WorkThread → Bool
  | .unwinding _ | .cleaned true | .terminated true => true
  | _ => false

/-- Before `creat_default_thread_args`. -/
def ConnThread.bare : ConnThread → Bool
  | .idle | .started | .reading | .parsing => true
  | _ => false

theorem ConnThread.early_of_bare {r : ConnThread} (h : r.bare = true) : r.early = true := by
  cases r <;> simp_all [ConnThread.bare, ConnThread.early]

theorem WorkThread.releases_of_cancellable {w : WorkThread} {wait : Bool}
    (h : w.cancellable wait = true) : w.releases = 0 := by
  cases w <;> simp_all [WorkThread.cancellable, WorkThread.releases]

namespace Session

def Ended (x : Session) : Prop := x.requester = .terminated ∧ x.worker.alive = false

/-- **The record** has been freed at most once and not been used after that, and in the end it has
been freed. -/
structure Owned (x : Session) : Prop where
  once : x.record.released ≤ 1
  untouched : x.record.touched = false
  ended : x.record.allocated = true → x.Ended → x.record.released = 1

/-- The act is not a cancellation of the test thread, and if it frees the record, the requester has
computed the deadline. -/
def Keeps (x : Session) : Act → Prop
  | .cancel => False
  | .free => x.wait = true → x.requester ≠ .created
  | _ => True

/-! ## Releases -/

/-- The record while the requester is alone with it. -/
structure Alone (x : Session) : Prop where
  bare : x.requester.bare = true → x.record = ⟨false, 0, false⟩
  filled : x.requester = .options ∨ x.requester = .creating → x.record = ⟨true, 0, false⟩
  settled : x.requester.early = false → x.worker = .absent →
    x.record = ⟨false, 0, false⟩ ∨ x.record = ⟨true, 1, false⟩

theorem Alone.of_bare (hq : x.requester.bare = true) (hrec : x.record = ⟨false, 0, false⟩) :
    x.Alone := by
  refine ⟨fun _ => hrec, fun h => ?_, fun h => ?_⟩
  · rcases h with h | h <;> rw [h] at hq <;> cases hq
  · rw [ConnThread.early_of_bare hq] at h
    cases h

theorem Alone.of_filled (hq : x.requester = .options ∨ x.requester = .creating)
    (hrec : x.record = ⟨true, 0, false⟩) : x.Alone := by
  refine ⟨fun h => ?_, fun _ => hrec, fun h => ?_⟩
  · rcases hq with hq | hq <;> rw [hq] at h <;> cases h
  · rcases hq with hq | hq <;> rw [hq] at h <;> cases h

theorem Alone.of_settled (hq : x.requester.early = false) (hrec : x.worker = .absent →
    x.record = ⟨false, 0, false⟩ ∨ x.record = ⟨true, 1, false⟩) : x.Alone := by
  refine ⟨fun h => ?_, fun h => ?_, fun _ => hrec⟩
  · rw [ConnThread.early_of_bare h] at hq
    cases hq
  · rcases h with h | h <;> rw [h] at hq <;> cases hq

theorem Move.alone (h : x.Move a x') (ho : x.Ordered) (hx : x.Alone) : x'.Alone := by
  have ho' := h.ordered ho
  by_cases hw : x'.worker = .absent
  · cases h with
    | connect _ hr | enter hr | read hr => exact .of_bare rfl (hx.bare (by rw [hr]; rfl))
    | readFail hr | utility hr | kill _ hr =>
      exact .of_settled rfl fun _ => .inl (hx.bare (by rw [hr]; rfl))
    | allocate => exact .of_filled (.inl rfl) rfl
    | option hr => exact .of_filled (.inl hr) (by rw [hx.filled (.inl hr)]; rfl)
    | exec _ hr => exact .of_filled (.inr rfl) (by rw [hx.filled (.inl hr)]; rfl)
    | parseFail hr => exact .of_settled rfl fun _ => .inr (by rw [hx.filled (.inl hr)]; rfl)
    | createFail hr => exact .of_settled rfl fun _ => .inr (by rw [hx.filled (.inr hr)]; rfl)
    | deadline hr | detach hr => exact absurd hw (ho.ne_absent hr rfl)
    | respond hr =>
      rw [ho.joined _ hr] at hw
      cases hw
    | expire hr | timeout hr | join hr | rejoin hr | finish hr | remove hr | close hr | exit hr =>
      exact .of_settled rfl (hx.settled (by rw [hr]; rfl))
    | run hr | delete hr =>
      rw [hr] at hw
      cases hw
    | _ => cases hw
  · -- then the requester is not alone
    exact .of_settled (by simpa [hw] using ho'.early) fun h => absurd h hw

/-- While there is a test thread, the releases are its own. -/
def Shared (x : Session) : Prop := x.worker ≠ .absent → x.record.released = x.worker.releases

theorem Move.shared (h : x.Move a x') (ho : x.Ordered) (ha : x.Alone) (hx : x.Shared) :
    x'.Shared := by
  intro hw
  cases h with
  | create t hr =>
    have hrec := ha.filled (.inr hr)
    simp [hrec, WorkThread.releases]
  | allocate hr => exact absurd (ho.absent hr rfl) hw
  | parseFail hr => exact absurd (ho.absent hr rfl) hw
  | createFail hr => exact absurd (ho.absent hr rfl) hw
  | @respond c hr =>
    have hsame := hx hw
    cases c <;> simpa [Record.access] using hsame
  | cancel hc hp =>
    have hpresent : x.worker ≠ .absent := by
      rintro habs
      simp [habs, WorkThread.cancellable] at hc
    show x.record.released = 0
    rw [hx hpresent, WorkThread.releases_of_cancellable hc]
  | @terminate cancelled hclean =>
    have hsame := hx (by simp [hclean])
    rw [hclean] at hsame
    cases cancelled <;> exact hsame
  | _ => simp_all [Shared, Record.access, Record.release, WorkThread.releases]

/-- What holds in all runs. -/
structure Counted (x : Session) : Prop where
  ordered : x.Ordered
  alone : x.Alone
  shared : x.Shared

theorem Move.counted (h : x.Move a x') (hx : x.Counted) : x'.Counted :=
  ⟨h.ordered hx.ordered, h.alone hx.ordered hx.alone, h.shared hx.ordered hx.alone hx.shared⟩

theorem Counted.idle : Session.idle.Counted :=
  ⟨.idle, ⟨fun _ => rfl, fun h => (by rcases h with h | h <;> cases h), fun h => (by cases h)⟩,
    fun h => absurd rfl h⟩

theorem Counted.pending (h : x.Counted) : Session.Counted { x with pending := true } :=
  ⟨h.ordered.pending, ⟨h.alone.bare, h.alone.filled, h.alone.settled⟩, h.shared⟩

theorem Counted.once (h : x.Counted) : x.record.released ≤ 1 := by
  by_cases hw : x.worker = .absent
  · by_cases hr : x.requester.early = true
    · by_cases hb : x.requester.bare = true
      · rw [h.alone.bare hb]
        decide
      · rw [h.alone.filled (by
          cases hq : x.requester <;> simp_all [ConnThread.early, ConnThread.bare])]
        decide
    · rcases h.alone.settled (by simpa using hr) hw with h1 | h1
      · rw [h1]
        decide
      · rw [h1]
  · rw [h.shared hw]
    unfold WorkThread.releases
    split <;> decide

/-! ## Uses -/

/-- As long as the record is kept. -/
structure Safe (x : Session) : Prop where
  untouched : x.record.touched = false
  struck : x.worker.struck = false
  deadline : x.wait = true → x.requester = .created → x.worker.releases = 0

theorem touched_access {r : Record} (ht : r.touched = false) (hr : r.released = 0) :
    r.access.touched = false := by
  simp [Record.access, ht, hr]

theorem Shared.released {w : WorkThread} (hx : x.Shared) (hw : x.worker = w) (hne : w ≠ .absent)
    (hw' : w.releases = 0) : x.record.released = 0 := by
  rw [hx (hw ▸ hne), hw, hw']

theorem Move.safe (h : x.Move a x') (hx : x.Counted) (hc : x.Keeps a) (hs : x.Safe) :
    x'.Safe := by
  obtain ⟨h1, h2, h3⟩ := hs
  cases h with
  | cancel => exact hc.elim
  | allocate => exact ⟨rfl, h2, fun _ h => by cases h⟩
  | option hr =>
    have hrec := hx.alone.filled (.inl hr)
    exact ⟨touched_access h1 (by rw [hrec]), h2, fun _ h => by simp [hr] at h⟩
  | exec wait hr =>
    have hrec := hx.alone.filled (.inl hr)
    exact ⟨touched_access h1 (by rw [hrec]), h2, fun _ h => by cases h⟩
  | create => exact ⟨h1, rfl, fun _ _ => rfl⟩
  | deadline hr hw =>
    have hrel := hx.shared (hx.ordered.ne_absent hr rfl)
    rw [h3 hw hr] at hrel
    exact ⟨touched_access h1 hrel, h2, fun _ h => by cases h⟩
  | @respond c hr =>
    have hend := hx.ordered.joined c hr
    rw [hend] at h2
    cases c with
    | true => cases h2
    | false => exact ⟨h1, by rw [hend]; rfl, fun _ h => by cases h⟩
  | client hw | register hw | abort hw | unlist hw =>
    have hrel := hx.shared.released hw (fun h => by cases h) rfl
    exact ⟨touched_access h1 hrel, rfl, fun _ _ => rfl⟩
  | run hw =>
    have hrel := hx.shared.released hw (fun h => by cases h) rfl
    exact ⟨touched_access h1 hrel, h2, h3⟩
  | wrapup => exact ⟨h1, rfl, fun _ _ => rfl⟩
  | free hw => exact ⟨h1, rfl, fun h h' => absurd h' (hc h)⟩
  | cleanup hw =>
    rw [hw] at h3
    exact ⟨h1, rfl, h3⟩
  | unwind hw =>
    rw [hw] at h2
    cases h2
  | @terminate cancelled hw =>
    rw [hw] at h2 h3
    cases cancelled with
    | true => cases h2
    | false => exact ⟨h1, rfl, h3⟩
  | delete => exact ⟨h1, h2, h3⟩
  | _ => exact ⟨h1, h2, fun _ h => by cases h⟩

/-- What a step that does not keep the record leaves behind. -/
def Lost (x : Session) : Prop :=
  x.worker.struck = true ∨ x.record.touched = true ∨
    (x.requester = .created ∧ x.wait = true ∧ x.worker.releases = 1)

theorem Move.lost_of_not_keeps (h : x.Move a x') (hc : ¬ x.Keeps a) : x'.Lost := by
  cases h with
  | cancel => exact .inl rfl
  | free =>
    obtain ⟨hw, hr⟩ := not_forall.mp hc
    exact .inr (.inr ⟨not_not.mp hr, hw, rfl⟩)
  | _ => exact absurd trivial hc

theorem Move.lost (h : x.Move a x') (hx : x.Counted) (hl : x.Lost) : x'.Lost := by
  rcases hl with hs | ht | ⟨hr, hw, hf⟩
  · -- a cancelled thread does not return to `free`
    refine .inl ?_
    cases h with
    | create t hr =>
      rw [hx.ordered.absent hr rfl] at hs
      cases hs
    | @terminate cancelled hw =>
      rw [hw] at hs
      cases cancelled <;> exact hs
    | _ => simp_all [WorkThread.struck]
  · refine .inr (.inl ?_)
    cases h with
    | allocate hr =>
      rw [hx.alone.bare (by simp [hr, ConnThread.bare])] at ht
      cases ht
    | @respond c =>
      cases c <;> simp [ht, Record.access]
    | _ => simp_all [Record.access, Record.release]
  · -- the requester goes on to read the time-out
    have hpresent : x.worker ≠ .absent := hx.ordered.ne_absent hr rfl
    have hrel := hx.shared hpresent
    cases h with
    | deadline => exact .inr (.inl (by simp [Record.access, hrel, hf]))
    | detach _ hw' => simp [hw] at hw'
    | cancel hc => simp [WorkThread.releases_of_cancellable hc] at hf
    | @terminate cancelled hclean =>
      refine .inr (.inr ⟨hr, hw, ?_⟩)
      rw [hclean] at hf
      cases cancelled <;> exact hf
    | _ => simp_all [Lost, WorkThread.releases]

end Session

theorem counted_of_run (h : threads.Run tr s) (k : ℕ) : (s.sessions k).Counted :=
  session_of_run .idle (fun _ _ _ hx hm => hm.counted hx) (fun _ hx => hx.pending) h k

theorem Session.Safe.owned (h : x.Safe) (hx : x.Counted) : x.Owned := by
  refine ⟨hx.once, h.untouched, fun halloc hend => ?_⟩
  obtain ⟨hr, hw⟩ := hend
  cases hwork : x.worker with
  | absent =>
    rcases hx.alone.settled (by simp [hr, ConnThread.early]) hwork with h1 | h1
    · simp [h1] at halloc
    · rw [h1]
  | terminated cancelled =>
    have hstruck := h.struck
    rw [hx.shared (by simp [hwork]), hwork]
    rw [hwork] at hstruck
    cases cancelled with
    | true => cases hstruck
    | false => rfl
  | _ => simp [hwork, WorkThread.alive] at hw

theorem Session.Lost.not_owned (h : x.Lost) (hx : x.Counted) (halloc : x.record.allocated = true)
    (hend : x.Ended) : ¬ x.Owned := by
  intro ho
  rcases h with hs | ht | ⟨hr, -, -⟩
  · have hone := ho.ended halloc hend
    obtain ⟨-, hw⟩ := hend
    cases hwork : x.worker with
    | terminated cancelled =>
      rw [hx.shared (by simp [hwork]), hwork] at hone
      rw [hwork] at hs
      cases cancelled <;> simp [WorkThread.struck, WorkThread.releases] at hs hone
    | _ => simp [hwork, WorkThread.alive, WorkThread.struck] at hw hs
  · simp [ho.untouched] at ht
  · simp [hend.1] at hr

theorem owned_of_keeps (h : threads.Run tr s)
    (hC : ∀ p ∈ tr, p.2.1 = k → (p.1.sessions k).Keeps p.2.2) : (s.sessions k).Owned := by
  have hI : (s.sessions k).Counted ∧ (s.sessions k).Safe := by
    refine session_of_meets (C := Session.Keeps) (I := fun x => x.Counted ∧ x.Safe) ?_ ?_ ?_ h hC
    · exact ⟨.idle, rfl, rfl, fun h => by cases h⟩
    · exact fun _ _ _ hx hc hm => ⟨hm.counted hx.1, hm.safe hx.1 hc hx.2⟩
    · exact fun _ hx => ⟨hx.1.pending, hx.2.1, hx.2.2, hx.2.3⟩
  exact hI.2.owned hI.1

theorem keeps_of_not_lost (h : threads.Run tr s) (hl : ¬ (s.sessions k).Lost) :
    ∀ p ∈ tr, p.2.1 = k → (p.1.sessions k).Keeps p.2.2 := by
  refine h.meets_of_unmarked (C := fun s l => l.1 = k → (s.sessions k).Keeps l.2)
    (J := fun s => (s.sessions k).Counted) (D := fun s => (s.sessions k).Lost) ?_ ?_ ?_ ?_ hl
  · rintro s rfl
    exact .idle
  · rintro s ⟨i, a⟩ s' hs hst
    obtain ⟨x, ⟨-, hm⟩ | ⟨-, rfl⟩, hx⟩ := session_cases hst k <;> rw [hx]
    · exact Session.cancelled_of (fun _ hy => hy.pending) _ (hm.counted hs)
    · exact Session.cancelled_of (fun _ hy => hy.pending) _ hs
  · rintro s ⟨i, a⟩ s' - hc hst
    obtain ⟨rfl, hc⟩ := not_forall.mp hc
    obtain ⟨x, ⟨-, hm⟩ | ⟨hne, -⟩, hx⟩ := session_cases hst i
    · rw [hx]
      exact Session.cancelled_of (fun _ hy => hy) _ (hm.lost_of_not_keeps hc)
    · exact absurd rfl hne
  · rintro s ⟨i, a⟩ s' hs hl hst
    obtain ⟨x, ⟨-, hm⟩ | ⟨-, rfl⟩, hx⟩ := session_cases hst k <;> rw [hx]
    · exact Session.cancelled_of (fun _ hy => hy) _ (hm.lost hs hl)
    · exact Session.cancelled_of (fun _ hy => hy) _ hl

/-- **Ownership of the record.** In every run, the record of a session is owned as long as the steps
of the session have kept it; when both threads have ended, only then. -/
theorem record_owned (h : threads.Run tr s) (k : ℕ) :
    ((∀ p ∈ tr, p.2.1 = k → (p.1.sessions k).Keeps p.2.2) → (s.sessions k).Owned) ∧
      ((s.sessions k).record.allocated = true → (s.sessions k).Ended → (s.sessions k).Owned →
        ∀ p ∈ tr, p.2.1 = k → (p.1.sessions k).Keeps p.2.2) := by
  refine ⟨owned_of_keeps h, fun halloc hend ho => keeps_of_not_lost h fun hl => ?_⟩
  exact hl.not_owned (counted_of_run h k) halloc hend ho

/-- A request that fails while its options are parsed. -/
theorem record_owned_parseFail : ∃ s : Threads, (s.sessions 0).Ended ∧ (s.sessions 0).Owned ∧
    (s.sessions 0).record = ⟨true, 1, false⟩ := by
  have h1 := run_one run_idle (.connect 7 rfl) (Threads.fresh_one (fun h => by cases h) rfl)
  have h2 := run_one h1 (.enter rfl) trivial
  have h3 := run_one h2 (.read rfl) trivial
  have h4 := run_one h3 (.allocate rfl) trivial
  have h5 := run_one h4 (.parseFail rfl) trivial
  have h6 := run_one h5 (.finish rfl) trivial
  have h7 := run_one h6 (.remove rfl) trivial
  have h8 := run_one h7 (.close rfl) trivial
  have h9 := run_one h8 (.exit rfl) trivial
  exact ⟨_, ⟨rfl, rfl⟩, (record_owned h9 0).1 (by simp [Session.Keeps]), rfl⟩

/-- After a time-out the record is never freed. -/
theorem record_leaked : ∃ tr s, threads.Run tr s ∧ (s.sessions 0).Ended ∧
    (s.sessions 0).record = ⟨true, 0, false⟩ ∧ ¬ (s.sessions 0).Owned := by
  obtain ⟨tr, h0⟩ := run_closed
  have h1 := run_one h0 (.exit rfl) trivial
  refine ⟨_, _, h1, ⟨rfl, rfl⟩, rfl, fun h => ?_⟩
  have h2 := h.ended rfl ⟨rfl, rfl⟩
  cases h2

end Dib
