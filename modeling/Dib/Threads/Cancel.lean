import Dib.Threads.Model

/-!
# Threads that are cancelled

`tb_threads_kill_thread` and the time-out of `exec_test_thread` cancel the thread that a status node
names, both under the status mutex.

* `Session.Named`: a status node that names a thread names its own test thread, which has not
  executed `status_group_cleanup`;
* `Distinct`: no id belongs to two threads, since `pthread_create` reuses the ids of threads that
  are gone;
* **`cancels_registered`**: the thread that is cancelled is the one that registered the node that
  was chosen; it has not terminated, and no other thread has its id;
* `young_of_pending`: only threads that have registered a node are told to cancel.
-/

set_option autoImplicit false

namespace Dib

open Lts

variable {s s' : Threads} {k : ℕ} {a : Act} {x x' : Session} {b : Actor}
  {tr : List (Threads × (ℕ × Act))}

/-- A node that names a thread names the test thread of its session, before its cleanup. -/
def Session.Named (x : Session) : Prop :=
  ∀ t, x.thread = some t → t = x.tid ∧ x.worker.holds = true

theorem WorkThread.alive_of_holds {w : WorkThread} (h : w.holds = true) : w.alive = true := by
  cases w <;> simp_all [WorkThread.holds, WorkThread.alive]

namespace Session

theorem Named.thread_eq_none (h : x.Named) (hw : x.worker.holds = false) : x.thread = none := by
  by_contra hne
  obtain ⟨t, ht⟩ := Option.ne_none_iff_exists'.mp hne
  simpa [hw] using (h t ht).2

theorem Named.thread_cleaned (h : x.Named) {node : Bool}
    (hw : x.worker = .freed node ∨ x.worker = .unwinding node) :
    (if node then none else x.thread) = none := by
  cases node with
  | true => rfl
  | false =>
    have hn : x.worker.holds = false := by rcases hw with hw | hw <;> rw [hw] <;> rfl
    exact h.thread_eq_none hn

theorem Move.named (h : x.Move a x') (ho : x.Ordered) (hx : x.Named) : x'.Named := by
  intro t ht
  cases h with
  | create _ hr =>
    have hw : x.worker = .absent := ho.absent hr rfl
    simp [hx.thread_eq_none (by simp [hw, WorkThread.holds])] at ht
  | cleanup hw => simp [hx.thread_cleaned (.inl hw)] at ht
  | unwind hw => simp [hx.thread_cleaned (.inr hw)] at ht
  | _ =>
    have h1 := hx t
    simp_all [WorkThread.holds]

end Session

theorem named_of_run (h : threads.Run tr s) (k : ℕ) : (s.sessions k).Named :=
  (session_of_run (I := fun x => x.Ordered ∧ x.Named) ⟨.idle, fun _ ht => by cases ht⟩
    (fun _ _ _ hx hm => ⟨hm.ordered hx.1, hm.named hx.1 hx.2⟩)
    (fun _ hx => ⟨hx.1.pending, hx.2⟩) h k).2

/-! ## Ids -/

/-- No id belongs to two threads. -/
def Distinct (s : Threads) : Prop :=
  ∀ b c, s.owns b = true → s.owns c = true → s.self b = s.self c → b = c

/-- The thread that the step creates, and its id. -/
def Act.born (k : ℕ) : Act → Option (Actor × ℕ)
  | .connect t => some (.requester k, t)
  | .create t => some (.worker k, t)
  | _ => none

theorem Session.Move.owns (h : x.Move a x') (hb : x'.owns b = true) :
    (x.owns b = true ∧ x'.self b = x.self b) ∨ a.born b.session = some (b, x'.self b) := by
  cases h with
  | cancel hc =>
    have hw := WorkThread.alive_of_cancellable hc
    cases b <;> simp_all [Session.owns, Session.self]
  | _ =>
    cases b <;>
      simp_all [Session.owns, Session.self, Act.born, Actor.session, ConnThread.alive,
        WorkThread.alive]

theorem Session.owns_cancelled (t : Option ℕ) : (x.cancelled t).owns b = x.owns b := by
  unfold Session.cancelled
  split_ifs <;> rfl

theorem Session.self_cancelled (t : Option ℕ) : (x.cancelled t).self b = x.self b := by
  unfold Session.cancelled
  split_ifs <;> rfl

theorem fresh_of_born {t : ℕ} (h : a.born k = some (b, t)) (he : s.Enabled k a) : s.Fresh t := by
  cases a <;> cases h <;> exact he

theorem owns_after_of_ne (hb : b.session ≠ k) :
    (s.after k a x).owns b = s.owns b ∧ (s.after k a x).self b = s.self b := by
  simp only [Threads.owns, Threads.self, Threads.after_of_ne hb, Session.owns_cancelled,
    Session.self_cancelled, and_self]

theorem owns_after_self (hb : b.session = k) :
    (s.after k a x).owns b = x.owns b ∧ (s.after k a x).self b = x.self b := by
  subst hb
  simp only [Threads.owns, Threads.self, Threads.after_self, Session.owns_cancelled,
    Session.self_cancelled, and_self]

/-- **Ids after a step**: a thread keeps its id or has just been created with a fresh one. -/
theorem owns_of_step (h : s.Step (k, a) s') (hb : s'.owns b = true) :
    (s.owns b = true ∧ s'.self b = s.self b) ∨
      (a.born k = some (b, s'.self b) ∧ s.Fresh (s'.self b)) := by
  obtain ⟨hm, he⟩ := h
  by_cases hk : b.session = k
  · rw [(owns_after_self hk).1] at hb
    rw [(owns_after_self hk).2]
    subst hk
    rcases hm.owns hb with h1 | h1
    · exact .inl h1
    · exact .inr ⟨h1, fresh_of_born h1 he⟩
  · rw [(owns_after_of_ne hk).1] at hb
    exact .inl ⟨hb, (owns_after_of_ne hk).2⟩

/-- **One step** keeps ids distinct. -/
theorem distinct_step (h : s.Step (k, a) s') (hs : Distinct s) : Distinct s' := by
  intro b c hb hc hbc
  rcases owns_of_step h hb with ⟨hb1, hb2⟩ | ⟨hb1, hb2⟩ <;>
    rcases owns_of_step h hc with ⟨hc1, hc2⟩ | ⟨hc1, hc2⟩
  · exact hs b c hb1 hc1 (by rw [← hb2, ← hc2, hbc])
  · exact absurd (by rw [← hb2, hbc]) (hc2 b hb1)
  · exact absurd (by rw [← hc2, hbc]) (hb2 c hc1)
  · rw [hb1] at hc1
    cases hc1
    rfl

theorem distinct_of_run (h : threads.Run tr s) : Distinct s :=
  h.invariant (by
    rintro s rfl b c hb
    cases b <;> cases hb) fun _ _ _ hs hst => distinct_step hst hs

/-! ## Cancellation -/

theorem thread_of_target {j t : ℕ} (h : s.target k a = some (j, t)) :
    (s.sessions j).thread = some t := by
  cases a with
  | kill index =>
    obtain ⟨i, -, h1⟩ := Option.bind_eq_some_iff.mp h
    obtain ⟨u, hu, h2⟩ := Option.bind_eq_some_iff.mp h1
    cases h2
    exact hu
  | timeout =>
    obtain ⟨i, hi, h1⟩ := Option.bind_eq_some_iff.mp h
    cases h1
    simpa using List.find?_some hi
  | _ => cases h

theorem holds_of_target (h : threads.Run tr s) {j t : ℕ} (ht : s.target k a = some (j, t)) :
    t = (s.sessions j).tid ∧ (s.sessions j).worker.holds = true :=
  named_of_run h j t (thread_of_target ht)

theorem eq_of_target (h : threads.Run tr s) {j t : ℕ} (ht : s.target k a = some (j, t))
    (hb : s.owns b = true) (hid : s.self b = t) : b = .worker j := by
  obtain ⟨rfl, hw⟩ := holds_of_target h ht
  refine distinct_of_run h b (.worker j) hb ?_ hid
  simp [Threads.owns, Session.owns, Actor.session, WorkThread.alive_of_holds hw]

/-- **Cancelled threads.** Whenever a step of any run cancels a thread, that is the thread that
registered the status node chosen, it has not terminated, and no other thread has its id. -/
theorem cancels_registered (h : threads.Run tr s) {j t : ℕ}
    (ht : s.target k a = some (j, t)) :
    s.alive (.worker j) = true ∧ s.self (.worker j) = t ∧
      ∀ b, s.owns b = true → s.self b = t → b = .worker j := by
  obtain ⟨htid, hw⟩ := holds_of_target h ht
  exact ⟨WorkThread.alive_of_holds hw, htid.symm, fun b hb hid => eq_of_target h ht hb hid⟩

/-- The test whose time is out. -/
theorem cancels_registered_expired : ∃ s : Threads, s.target 0 .timeout = some (0, 8) ∧
    s.alive (.worker 0) = true ∧ s.self (.worker 0) = 8 ∧
      ∀ b, s.owns b = true → s.self b = 8 → b = .worker 0 := by
  obtain ⟨tr, h⟩ := run_expired
  exact ⟨_, rfl, cancels_registered (k := 0) (a := .timeout) h rfl⟩

/-! ## Pending cancellations -/

/-- Before `tb_status_add_group_node` has returned. -/
def WorkThread.young : WorkThread → Bool
  | .absent | .started | .entered => true
  | _ => false

theorem WorkThread.young_of_holds {w : WorkThread} (h : w.holds = true) : w.young = false := by
  cases w <;> simp_all [WorkThread.holds, WorkThread.young]

theorem Session.Move.pending_young (h : x.Move a x') (ho : x.Ordered)
    (hx : x.pending = true → x.worker.young = false) :
    x'.pending = true → x'.worker.young = false := by
  cases h with
  | create t hr =>
    have hw : x.worker = .absent := ho.absent hr rfl
    intro hp
    simpa [hw, WorkThread.young] using hx hp
  | _ => simp_all [WorkThread.young]

theorem Session.Move.worker_of_target {j t : ℕ} (h : x.Move a x')
    (ht : s.target k a = some (j, t)) : x'.worker = x.worker ∧ x'.tid = x.tid := by
  cases a with
  | kill => cases h; exact ⟨rfl, rfl⟩
  | timeout => cases h; exact ⟨rfl, rfl⟩
  | _ => cases ht

/-- **Pending cancellations**: only threads that have registered a status node are told to
cancel. -/
theorem young_of_pending (h : threads.Run tr s) (i : ℕ) :
    (s.sessions i).pending = true → (s.sessions i).worker.young = false := by
  induction h with
  | start h0 =>
    subst h0
    exact fun hp => by cases hp
  | @snoc tr s s' l hr hst ih =>
    obtain ⟨k, a⟩ := l
    obtain ⟨x, hm, hx⟩ := session_cases hst i
    rw [hx]
    unfold Session.cancelled
    split_ifs with hc
    · -- the step cancels thread `i`: it registered the node
      obtain ⟨halive, ht⟩ := Bool.and_eq_true_iff.mp hc
      obtain ⟨⟨j, t⟩, ht, hid⟩ := Option.map_eq_some_iff.mp (eq_of_beq ht)
      have hsame : x.worker = (s.sessions i).worker ∧ x.tid = (s.sessions i).tid := by
        rcases hm with ⟨-, hm⟩ | ⟨-, rfl⟩
        · exact hm.worker_of_target ht
        · exact ⟨rfl, rfl⟩
      have howns : s.owns (.worker i) = true := by
        simp [Threads.owns, Session.owns, Actor.session, ← hsame.1, halive]
      cases eq_of_target hr ht howns (hsame.2.symm.trans hid.symm)
      intro _
      show x.worker.young = false
      rw [hsame.1]
      exact WorkThread.young_of_holds (holds_of_target hr ht).2
    · rcases hm with ⟨-, hm⟩ | ⟨-, rfl⟩
      · exact hm.pending_young (ordered_of_run hr i) ih
      · exact ih

end Dib
