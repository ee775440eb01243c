import Dib.Threads.Cancel

/-!
# The client list

`tb_socket_th` removes its entry before it closes the socket. A test thread that is waited for adds
an entry at its start and removes it in `finalize_thread`, which a cancelled thread does not reach.

* `NamesLive`: the entries name threads that have not terminated and sockets that are not closed;
* `Session.mayList`, `Entries`: where a thread is while it has an entry, and
  `HasEntry`: where a test thread is sure to have one;
* `entries_step`, `hasEntry_step`: the steps keep that, the former unless a cancelled thread ends
  that is waited for;
* **`namesLive_iff`**: the client list names live threads all along a run exactly when no test
  thread that is waited for ends cancelled; `stale_client`: after a time-out one does.
-/

set_option autoImplicit false

namespace Dib

open Lts

variable {s s' : Threads} {k : ℕ} {a : Act} {x x' : Session} {b : Actor} {e : ClientEntry}
  {tr : List (Threads × (ℕ × Act))}

/-- The thread has closed its socket. -/
def ConnThread.hasClosed : ConnThread → Bool
  | .closed | .terminated => true
  | _ => false

/-- The client list names only live threads, and only sockets that are open. -/
def NamesLive (s : Threads) : Prop :=
  ∀ e ∈ s.clients, s.alive e.thread = true ∧ (s.sessions e.socket).requester.hasClosed = false

/-- If the step ends a test thread that its requester waits for, it was not cancelled. -/
def EndsUncancelled (s : Threads) : ℕ × Act → Prop
  | (k, .terminate) => (s.sessions k).wait = true → (s.sessions k).worker ≠ .cleaned true
  | _ => True

/-! ## The invariant -/

/-- Behind `tb_socket_client_add`, before `tb_socket_client_remove`. -/
def ConnThread.listed : ConnThread → Bool
  | .idle | .started | .closing | .closed | .terminated => false
  | _ => true

/-- A cancelled thread has not removed its entry. -/
def WorkThread.listed : WorkThread → Bool
  | .entered | .registered | .finalizing _ | .unwinding _ | .cleaned true => true
  | _ => false

/-- The thread may have an entry. -/
def Session.mayList (x : Session) : Actor → Bool
  | .requester _ => x.requester.listed
  | .worker _ => x.wait && x.worker.listed

/-- The entries belong to threads that may have one, each with the socket of its session. -/
def Entries (s : Threads) : Prop :=
  ∀ e ∈ s.clients, e.socket = e.thread.session ∧
    (s.sessions e.thread.session).mayList e.thread = true

/-- A test thread that may have an entry has one. -/
def HasEntry (s : Threads) (j : ℕ) : Prop :=
  (s.sessions j).mayList (.worker j) = true → ∃ e ∈ s.clients, e.thread = .worker j

theorem WorkThread.alive_of_listed {w : WorkThread} (h : w.listed = true) : w.alive = true := by
  cases w <;> simp_all [WorkThread.listed, WorkThread.alive]

theorem Session.Ordered.open_of_mayList (h : x.Ordered) (hb : x.mayList b = true) :
    x.alive b = true ∧ x.requester.hasClosed = false := by
  cases b with
  | requester =>
    have hl : x.requester.listed = true := hb
    constructor
    · cases hr : x.requester <;> simp_all [ConnThread.listed, Session.alive, ConnThread.alive]
    · cases hr : x.requester <;> simp_all [ConnThread.listed, ConnThread.hasClosed]
  | worker =>
    obtain ⟨hw, hl⟩ := Bool.and_eq_true_iff.mp hb
    have halive := WorkThread.alive_of_listed hl
    -- its requester is in `exec_test_thread`
    have hatt := h.waits hw halive
    refine ⟨halive, ?_⟩
    cases hr : x.requester <;> simp_all [ConnThread.attending, ConnThread.hasClosed]

theorem Entries.namesLive (h : Entries s) (ho : ∀ k, (s.sessions k).Ordered) : NamesLive s := by
  intro e he
  obtain ⟨h1, h2⟩ := h e he
  rw [h1]
  exact (ho _).open_of_mayList h2

/-! ## The steps -/

theorem Session.mayList_cancelled (t : Option ℕ) : (x.cancelled t).mayList b = x.mayList b := by
  unfold Session.cancelled
  split_ifs <;> rfl

/-- The thread whose entry the act removes. -/
def Act.unlisted (k : ℕ) (wait : Bool) : Act → Option Actor
  | .remove => some (.requester k)
  | .unlist => if wait then some (.worker k) else none
  | _ => none

/-- The thread that the act enters. -/
def Act.listed (k : ℕ) (wait : Bool) : Act → Option Actor
  | .enter => some (.requester k)
  | .client => if wait then some (.worker k) else none
  | _ => none

theorem Session.Move.mayList (h : x.Move a x') (ho : x.Ordered)
    (hc : a = .terminate → x.wait = true → x.worker ≠ .cleaned true) (hb : x.mayList b = true) :
    x'.mayList b = true ∨ a.unlisted b.session x.wait = some b := by
  cases h with
  | exec wait hr =>
    have hw := ho.absent hr rfl
    cases b <;> simp_all [Session.mayList, ConnThread.listed, WorkThread.listed]
  | create t hr =>
    have hw := ho.absent hr rfl
    cases b <;> simp_all [Session.mayList, ConnThread.listed, WorkThread.listed]
  | @terminate cancelled hw =>
    have h1 := hc rfl
    cases cancelled <;> cases b <;> simp_all [Session.mayList, WorkThread.listed]
  | _ =>
    cases b <;>
      simp_all [Session.mayList, ConnThread.listed, WorkThread.listed, Act.unlisted, Actor.session]

theorem Session.Move.mayList_of_listed (h : x.Move a x') (hb : a.listed k x.wait = some b) :
    b.session = k ∧ x'.mayList b = true := by
  cases h <;> simp only [Act.listed, reduceCtorEq] at hb
  · cases hb
    exact ⟨rfl, rfl⟩
  · split_ifs at hb with hw
    cases hb
    exact ⟨rfl, by simp [Session.mayList, hw, WorkThread.listed]⟩

theorem mem_clientsAfter (he : e ∈ s.clientsAfter k a) :
    (∃ b, a.listed k (s.sessions k).wait = some b ∧ e = ⟨b, k⟩) ∨
      (e ∈ s.clients ∧ a.unlisted k (s.sessions k).wait ≠ some e.thread) := by
  cases a with
  | enter => simpa [Threads.clientsAfter, Act.listed, Act.unlisted, or_comm] using he
  | client =>
    by_cases hw : (s.sessions k).wait = true <;>
      simpa [Threads.clientsAfter, Act.listed, Act.unlisted, hw, or_comm] using he
  | remove =>
    obtain ⟨h1, h2⟩ := List.mem_filter.mp he
    refine .inr ⟨h1, fun h3 => ?_⟩
    simp [← Option.some_inj.mp h3] at h2
  | unlist =>
    by_cases hw : (s.sessions k).wait = true
    · simp only [Threads.clientsAfter, hw, if_true] at he
      obtain ⟨h1, h2⟩ := List.mem_filter.mp he
      refine .inr ⟨h1, fun h3 => ?_⟩
      simp only [Act.unlisted, hw, if_true] at h3
      simp [← Option.some_inj.mp h3] at h2
    · exact .inr ⟨by simpa [Threads.clientsAfter, hw] using he, by simp [Act.unlisted, hw]⟩
  | _ => exact .inr ⟨he, by simp [Act.unlisted]⟩

/-- **One step** keeps the entries, unless a cancelled thread ends that is waited for. -/
theorem entries_step (h : s.Step (k, a) s') (ho : ∀ i, (s.sessions i).Ordered)
    (hc : EndsUncancelled s (k, a)) (hs : Entries s) : Entries s' := by
  have hterm : a = .terminate → (s.sessions k).wait = true →
      (s.sessions k).worker ≠ .cleaned true := by
    rintro rfl
    exact hc
  obtain ⟨hm, -⟩ := h
  intro e he
  rcases mem_clientsAfter he with ⟨b, hb, rfl⟩ | ⟨h1, h2⟩
  · obtain ⟨h3, h4⟩ := hm.mayList_of_listed hb
    subst h3
    refine ⟨rfl, ?_⟩
    rwa [Threads.after_self, Session.mayList_cancelled]
  · obtain ⟨h3, h4⟩ := hs e h1
    refine ⟨h3, ?_⟩
    by_cases hk : e.thread.session = k
    · subst hk
      rw [Threads.after_self, Session.mayList_cancelled]
      exact (hm.mayList (ho _) hterm h4).resolve_right h2
    · rwa [Threads.after_of_ne hk, Session.mayList_cancelled]

/-! ## Entries of test threads -/

theorem mem_clientsAfter_of_mem (he : e ∈ s.clients)
    (h : ∀ b, a.unlisted k (s.sessions k).wait = some b → s.self e.thread ≠ s.self b) :
    e ∈ s.clientsAfter k a := by
  cases a with
  | enter => exact List.mem_append_left _ he
  | client =>
    simp only [Threads.clientsAfter]
    split_ifs
    · exact List.mem_append_left _ he
    · exact he
  | remove => exact List.mem_filter.mpr ⟨he, by simpa using h _ rfl⟩
  | unlist =>
    simp only [Threads.clientsAfter]
    split_ifs with hw
    · exact List.mem_filter.mpr ⟨he, by simpa using h (.worker k) (by simp [Act.unlisted, hw])⟩
    · exact he
  | _ => exact he

theorem Session.Move.unlisted (h : x.Move a x') (hb : a.unlisted k x.wait = some b) :
    b.session = k ∧ x.owns b = true ∧ x'.mayList b = false := by
  cases h with
  | remove hr =>
    cases hb
    exact ⟨rfl, by simp [Session.owns, hr, ConnThread.alive], rfl⟩
  | unlist hw =>
    simp only [Act.unlisted] at hb
    split_ifs at hb
    cases hb
    exact ⟨rfl, by simp [Session.owns, hw, WorkThread.alive],
      by simp [Session.mayList, WorkThread.listed]⟩
  | _ => cases hb

theorem Session.Move.mayList_worker (h : x.Move a x') (ho : x.Ordered)
    (hp : x.pending = true → x.worker.young = false) (hb : x'.mayList (.worker k) = true) :
    a.listed k x.wait = some (.worker k) ∨ x.mayList (.worker k) = true := by
  cases h with
  | exec wait hr =>
    have hw := ho.absent hr rfl
    simp_all [Session.mayList, WorkThread.listed]
  | cancel hc hpending =>
    -- it was told after it had registered its node
    have hy := hp hpending
    cases hw : x.worker <;>
      simp_all [Session.mayList, WorkThread.listed, WorkThread.young, WorkThread.cancellable]
  | _ => simp_all [Session.mayList, WorkThread.listed, Act.listed]

theorem mem_of_listed (h : a.listed k (s.sessions k).wait = some b) :
    ⟨b, k⟩ ∈ s.clientsAfter k a := by
  cases a with
  | enter => cases h; simp [Threads.clientsAfter]
  | client =>
    simp only [Act.listed] at h
    split_ifs at h with hw
    cases h
    simp [Threads.clientsAfter, hw]
  | _ => cases h

theorem owns_of_mayList {j : ℕ} (h : (s.sessions j).mayList (.worker j) = true) :
    s.owns (.worker j) = true := by
  have hl : (s.sessions j).worker.listed = true := (Bool.and_eq_true_iff.mp h).2
  simp [Threads.owns, Session.owns, Actor.session, WorkThread.alive_of_listed hl]

theorem eq_of_unlisted (hr : threads.Run tr s) (hm : (s.sessions k).Move a x)
    (hb : a.unlisted k (s.sessions k).wait = some b) {j : ℕ}
    (hj : (s.sessions j).mayList (.worker j) = true) (hid : s.self (.worker j) = s.self b) :
    b = .worker j := by
  obtain ⟨hk, hown, -⟩ := hm.unlisted hb
  subst hk
  exact (distinct_of_run hr (.worker j) b (owns_of_mayList hj) hown hid).symm

/-- **One step** leaves the test threads their entries. -/
theorem hasEntry_step (hr : threads.Run tr s) (h : s.Step (k, a) s') (hs : ∀ j, HasEntry s j)
    (j : ℕ) : HasEntry s' j := by
  obtain ⟨hm, -⟩ := h
  intro hj
  by_cases hk : j = k
  · subst hk
    rw [Threads.after_self, Session.mayList_cancelled] at hj
    rcases hm.mayList_worker (ordered_of_run hr j) (young_of_pending hr j) hj with hnew | hold
    · exact ⟨_, mem_of_listed hnew, rfl⟩
    · obtain ⟨e, he, hej⟩ := hs j hold
      refine ⟨e, mem_clientsAfter_of_mem he fun b hb hid => ?_, hej⟩
      -- then it could not have one any more
      have hgone := (hm.unlisted hb).2.2
      rw [hej] at hid
      rw [eq_of_unlisted hr hm hb hold hid, hj] at hgone
      cases hgone
  · rw [Threads.after_of_ne hk, Session.mayList_cancelled] at hj
    obtain ⟨e, he, hej⟩ := hs j hj
    refine ⟨e, mem_clientsAfter_of_mem he fun b hb hid => ?_, hej⟩
    have hbk := (hm.unlisted hb).1
    rw [hej] at hid
    rw [eq_of_unlisted hr hm hb hj hid] at hbk
    exact hk hbk

theorem hasEntry_of_run (h : threads.Run tr s) : ∀ j, HasEntry s j := by
  induction h with
  | start h0 =>
    subst h0
    exact fun j hj => by cases hj
  | snoc hr hst ih => exact hasEntry_step hr hst ih

theorem endsUncancelled_of_namesLive (hr : threads.Run tr s) (h : s.Step (k, a) s')
    (hs : NamesLive s') : EndsUncancelled s (k, a) := by
  obtain ⟨hm, -⟩ := h
  cases hm with
  | terminate hw =>
    intro hwait hcut
    obtain ⟨e, he, hek⟩ := hasEntry_of_run hr k (by
      simp [Session.mayList, hwait, hcut, WorkThread.listed])
    have hlive := (hs e he).1
    simp only [hek, Threads.alive, Actor.session, Threads.after_self] at hlive
    unfold Session.cancelled at hlive
    split_ifs at hlive <;> cases hlive
  | _ => trivial

/-- **The client list** names live threads and open sockets in every state of a run exactly when no
test thread that is waited for ends cancelled. -/
theorem namesLive_iff (h : threads.Run tr s) :
    ((∀ p ∈ tr, NamesLive p.1) ∧ NamesLive s) ↔ ∀ p ∈ tr, EndsUncancelled p.1 p.2 := by
  refine h.exact (J := fun s => (∃ tr, threads.Run tr s) ∧ Entries s) (P := NamesLive)
    (C := EndsUncancelled) ?_ ?_ ?_ ?_
  · rintro s rfl
    exact ⟨⟨_, .start rfl⟩, fun e he => by cases he⟩
  · rintro s ⟨⟨tr, hr⟩, hs⟩
    exact hs.namesLive (ordered_of_run hr)
  · rintro s ⟨k, a⟩ s' ⟨⟨tr, hr⟩, hs⟩ hc hst
    exact ⟨⟨_, hr.snoc hst⟩, entries_step hst (ordered_of_run hr) hc hs⟩
  · rintro s ⟨k, a⟩ s' ⟨⟨tr, hr⟩, -⟩ hst hs
    exact endsUncancelled_of_namesLive hr hst hs

/-- A test that is waited for and comes to its end has an entry in between. -/
theorem namesLive_one : ∃ tr s, threads.Run tr s ∧
    (∃ p ∈ tr, p.1.clients = [⟨.requester 0, 0⟩, ⟨.worker 0, 0⟩]) ∧
    s.clients = [⟨.requester 0, 0⟩] ∧ (s.sessions 0).worker = .terminated false ∧
    (∀ p ∈ tr, NamesLive p.1) ∧ NamesLive s := by
  have h1 := run_one run_idle (.connect 7 rfl) (Threads.fresh_one (fun h => by cases h) rfl)
  have h2 := run_one h1 (.enter rfl) trivial
  have h3 := run_one h2 (.read rfl) trivial
  have h4 := run_one h3 (.allocate rfl) trivial
  have h5 := run_one h4 (.exec true rfl) trivial
  have h6 := run_one h5 (.create 8 rfl) (Threads.fresh_one (fun _ => by decide) rfl)
  have h7 := run_one h6 (.client rfl) trivial
  have h8 := run_one h7 (.register rfl) trivial
  have h9 := run_one h8 (.wrapup rfl) trivial
  have h10 := run_one h9 (.unlist rfl) trivial
  have h11 := run_one h10 (.free rfl) trivial
  have h12 := run_one h11 (.cleanup rfl) trivial
  have h13 := run_one h12 (.terminate rfl) trivial
  refine ⟨_, _, h13, ⟨_, List.mem_of_getElem? (i := 7) rfl, rfl⟩, rfl, rfl,
    (namesLive_iff h13).mpr fun p hp => ?_⟩
  simp only [List.mem_append, List.mem_singleton, List.not_mem_nil, false_or, or_assoc] at hp
  rcases hp with rfl | rfl | rfl | rfl | rfl | rfl | rfl | rfl | rfl | rfl | rfl | rfl | rfl <;>
    first | exact True.intro | exact fun _ h => absurd h (by decide)

/-- After a time-out the entry of the cancelled thread remains when the socket is closed. -/
theorem stale_client : ∃ tr s, threads.Run tr s ∧ s.clients = [⟨.worker 0, 0⟩] ∧
    s.alive (.worker 0) = false ∧ (s.sessions 0).requester = .closed ∧ ¬ NamesLive s := by
  obtain ⟨tr, h0⟩ := run_closed
  refine ⟨_, _, h0, rfl, rfl, rfl, fun h => ?_⟩
  have h1 := (h ⟨.worker 0, 0⟩ (.head _)).1
  cases h1

end Dib
