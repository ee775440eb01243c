import Dib.Lib.Run
import Mathlib.Logic.Function.Basic

/-!
# Connection threads and test threads

Each client has a thread of its own, `tb_socket_th`, which may create one test thread and may wait
for it. The two share the argument record; all threads share the client list and the status nodes.

* `ConnThread`, `WorkThread`, `Session`: where the two threads of a client are, their ids, the
  status node that the test thread registers, and their record;
* `Act`, `Session.Move`: what they do to it, one act for each step that others can see; a section
  between `tb_status_lock_mutex` and `tb_status_release_mutex` is one act;
* `Threads`, `Threads.target`, `Threads.Step`, `threads`: all sessions, the list of client entries
  and the list of status nodes, and the interleaved runs;
* **`session_of_meets`**, `session_of_run`: what holds of a session in the runs in which its steps
  meet a condition, and in all runs;
* `Session.Ordered`: a test thread exists once it is created, and its requester attends to it;
* `run_one`: runs in which one client is served.
-/

set_option autoImplicit false

namespace Dib

/-! ## The threads -/

/-- Where a thread `tb_socket_th` stands. -/
inductive ConnThread where
  | idle
  /-- Before `tb_socket_client_add`. -/
  | started
  | reading
  /-- In `cmd_parse`, without a record. -/
  | parsing
  /-- The record is allocated. -/
  | options
  /-- In `exec_test_thread`, before `pthread_create`. -/
  | creating
  | created
  /-- In `pthread_timedjoin_np`. -/
  | joining
  /-- The time is out, before the section under the status mutex. -/
  | expired
  /-- In `pthread_join`. -/
  | rejoining
  | joined (cancelled : Bool)
  /-- `cmd_parse` has returned. -/
  | replying
  /-- Before `tb_socket_client_remove`. -/
  | draining
  /-- Before `close`. -/
  | closing
  | closed
  | terminated
  deriving DecidableEq, Repr

/-- Where a test thread stands; `node` tells whether it has registered a status node. -/
inductive WorkThread where
  | absent
  /-- Before `tb_socket_client_add`. -/
  | started
  /-- Before `tb_status_add_group_node`. -/
  | entered
  | registered
  /-- In `finalize_thread`. -/
  | finalizing (node : Bool)
  /-- Before `free(data)`. -/
  | removed (node : Bool)
  | freed (node : Bool)
  /-- A cancellation has acted. -/
  | unwinding (node : Bool)
  /-- `status_group_cleanup` is done, if there was a node. -/
  | cleaned (cancelled : Bool)
  | terminated (cancelled : Bool)
  deriving DecidableEq, Repr

/-- The argument record: how often it has been freed, and whether it was used after that. -/
structure Record where
  allocated : Bool
  released : ℕ
  touched : Bool
  deriving DecidableEq, Repr

/-- A field is read or written. -/
def Record.access (r : Record) : Record :=
  { r with touched := r.touched || decide (0 < r.released) }

def Record.release (r : Record) : Record := { r with released := r.released + 1 }

/-- A client's thread `rid`, and its test thread `tid`. `thread` is that field of the status node,
`none` for `-1` and before there is a node; `reaped` tells whether the test thread has been joined
or detached. -/
structure Session where
  requester : ConnThread
  rid : ℕ
  worker : WorkThread
  tid : ℕ
  wait : Bool
  reaped : Bool
  pending : Bool
  thread : Option ℕ
  record : Record
  deriving DecidableEq, Repr

def Session.idle : Session := ⟨.idle, 0, .absent, 0, false, false, false, none, ⟨false, 0, false⟩⟩

/-- What the two threads of a session do. -/
inductive Act where
  | connect (rid : ℕ)
  | enter
  | readFail
  | read
  | utility
  /-- `tb_threads_kill_thread` for the status node at this index. -/
  | kill (index : ℕ)
  | allocate
  | option
  | parseFail
  | exec (wait : Bool)
  | createFail
  | create (tid : ℕ)
  | deadline
  | detach
  | expire
  | timeout
  | join
  | respond
  | finish
  | remove
  | close
  | exit
  | client
  | register
  | abort
  | run
  | wrapup
  | unlist
  | free
  /-- A cancellation acts on the test thread. -/
  | cancel
  | cleanup
  | terminate
  /-- The status node of a test thread that is gone is deleted. -/
  | delete
  deriving DecidableEq, Repr

/-- A cancellation acts at a call, and there is one ahead of the thread that it makes before it
frees its record. -/
def WorkThread.cancellable (wait : Bool) : WorkThread → Bool
  | .started | .finalizing _ => wait
  | .entered | .registered => true
  | _ => false

/-- The test thread has registered a status node whose cleanup routine has not been executed. -/
def WorkThread.holds : WorkThread → Bool
  | .registered => true
  | .finalizing node | .removed node | .freed node | .unwinding node => node
  | _ => false

/-- The acts of `tb_socket_th`, of `cmd_parse` and `exec_test_thread` under it, and of the handlers,
as far as they concern their own session. -/
inductive Session.Move : Session → Act → Session → Prop
  | connect {x : Session} (rid : ℕ) : x.requester = .idle →
      Move x (.connect rid) { x with requester := .started, rid := rid }
  | enter {x : Session} : x.requester = .started → Move x .enter { x with requester := .reading }
  | readFail {x : Session} : x.requester = .reading →
      Move x .readFail { x with requester := .draining }
  | read {x : Session} : x.requester = .reading → Move x .read { x with requester := .parsing }
  | utility {x : Session} : x.requester = .parsing →
      Move x .utility { x with requester := .replying }
  | kill {x : Session} (index : ℕ) : x.requester = .parsing →
      Move x (.kill index) { x with requester := .replying }
  | allocate {x : Session} : x.requester = .parsing →
      Move x .allocate { x with requester := .options, record := ⟨true, 0, false⟩ }
  | option {x : Session} : x.requester = .options →
      Move x .option { x with record := x.record.access }
  | parseFail {x : Session} : x.requester = .options →
      Move x .parseFail { x with requester := .replying, record := x.record.release }
  | exec {x : Session} (wait : Bool) : x.requester = .options →
      Move x (.exec wait) { x with requester := .creating, wait := wait, record := x.record.access }
  | createFail {x : Session} : x.requester = .creating →
      Move x .createFail { x with requester := .replying, record := x.record.release }
  | create {x : Session} (tid : ℕ) : x.requester = .creating →
      Move x (.create tid) { x with requester := .created, worker := .started, tid := tid }
  | deadline {x : Session} : x.requester = .created → x.wait = true →
      -- `thread_args->max_timeout`
      Move x .deadline { x with requester := .joining, record := x.record.access }
  | detach {x : Session} : x.requester = .created → x.wait = false →
      Move x .detach { x with requester := .replying, reaped := true }
  | expire {x : Session} : x.requester = .joining → Move x .expire { x with requester := .expired }
  | timeout {x : Session} : x.requester = .expired →
      Move x .timeout { x with requester := .rejoining }
  | join {x : Session} {c : Bool} : x.requester = .joining → x.worker = .terminated c →
      Move x .join { x with requester := .joined c, reaped := true }
  | rejoin {x : Session} {c : Bool} : x.requester = .rejoining → x.worker = .terminated c →
      Move x .join { x with requester := .joined c, reaped := true }
  | respond {x : Session} {c : Bool} : x.requester = .joined c →
      -- `thread_args->gen_xml_file`
      Move x .respond { x with
        requester := .replying, record := if c then x.record.access else x.record }
  | finish {x : Session} : x.requester = .replying →
      Move x .finish { x with requester := .draining }
  | remove {x : Session} : x.requester = .draining → Move x .remove { x with requester := .closing }
  | close {x : Session} : x.requester = .closing → Move x .close { x with requester := .closed }
  | exit {x : Session} : x.requester = .closed → Move x .exit { x with requester := .terminated }
  | client {x : Session} : x.worker = .started →
      Move x .client { x with worker := .entered, record := x.record.access }
  | register {x : Session} : x.worker = .entered →
      Move x .register
        { x with worker := .registered, thread := some x.tid, record := x.record.access }
  | abort {x : Session} : x.worker = .entered →
      Move x .abort { x with worker := .finalizing false, record := x.record.access }
  | run {x : Session} : x.worker = .registered → Move x .run { x with record := x.record.access }
  | wrapup {x : Session} : x.worker = .registered →
      Move x .wrapup { x with worker := .finalizing true }
  | unlist {x : Session} {node : Bool} : x.worker = .finalizing node →
      Move x .unlist { x with worker := .removed node, record := x.record.access }
  | free {x : Session} {node : Bool} : x.worker = .removed node →
      Move x .free { x with worker := .freed node, record := x.record.release }
  | cancel {x : Session} : x.worker.cancellable x.wait = true → x.pending = true →
      Move x .cancel { x with worker := .unwinding x.worker.holds }
  | cleanup {x : Session} {node : Bool} : x.worker = .freed node →
      Move x .cleanup { x with
        worker := .cleaned false, thread := if node then none else x.thread }
  | unwind {x : Session} {node : Bool} : x.worker = .unwinding node →
      Move x .cleanup { x with
        worker := .cleaned true, thread := if node then none else x.thread }
  | terminate {x : Session} {cancelled : Bool} : x.worker = .cleaned cancelled →
      Move x .terminate { x with worker := .terminated cancelled }
  | delete {x : Session} {cancelled : Bool} : x.worker = .terminated cancelled → Move x .delete x

/-! ## All threads -/

def ConnThread.alive (r : ConnThread) : Bool := r ≠ .idle && r ≠ .terminated

def WorkThread.alive : WorkThread → Bool
  | .absent | .terminated _ => false
  | _ => true

/-- The thread of a client, or its test thread. -/
inductive Actor where
  | requester (k : ℕ)
  | worker (k : ℕ)
  deriving DecidableEq, Repr

def Actor.session : Actor → ℕ
  | .requester k | .worker k => k

namespace Session

/-- `pthread_self()` of a thread of this session. -/
def self (x : Session) : Actor → ℕ
  | .requester _ => x.rid
  | .worker _ => x.tid

def alive (x : Session) : Actor → Bool
  | .requester _ => x.requester.alive
  | .worker _ => x.worker.alive

/-- The thread's id belongs to it: it is alive, or has terminated and was neither joined nor
detached. -/
def owns (x : Session) : Actor → Bool
  | .requester _ => x.requester.alive
  | .worker _ => x.worker.alive || (x.worker != .absent && !x.reaped)

/-- `pthread_cancel`, as a test thread sees it. -/
def cancelled (t : Option ℕ) (x : Session) : Session :=
  if x.worker.alive && t == some x.tid then { x with pending := true } else x

end Session

/-- An entry of the client list; `socket` is the connection, by its session. -/
structure ClientEntry where
  thread : Actor
  socket : ℕ
  deriving DecidableEq, Repr

/-- All sessions, the client list, and the sessions whose test thread has a status node, in the
order of the nodes. -/
structure Threads where
  sessions : ℕ → Session
  clients : List ClientEntry
  status : List ℕ

namespace Threads

def self (s : Threads) (b : Actor) : ℕ := (s.sessions b.session).self b

def alive (s : Threads) (b : Actor) : Bool := (s.sessions b.session).alive b

def owns (s : Threads) (b : Actor) : Bool := (s.sessions b.session).owns b

/-- `pthread_create` may return this id. -/
def Fresh (s : Threads) (t : ℕ) : Prop := ∀ b, s.owns b = true → s.self b ≠ t

/-- The `pthread_cancel` of a step of session `k`: the session whose status node was chosen, and the
id that is cancelled. -/
def target (s : Threads) (k : ℕ) : Act → Option (ℕ × ℕ)
  | .kill index => do
      let j ← s.status[index]?
      let t ← (s.sessions j).thread
      return (j, t)
  | .timeout => do
      -- `tb_status_lookup_group_node_by_thread`
      let j ← s.status.find? fun j => (s.sessions j).thread == some (s.sessions k).tid
      return (j, (s.sessions k).tid)
  | _ => none

/-- What must hold of the other threads. -/
def Enabled (s : Threads) (k : ℕ) : Act → Prop
  | .connect t | .create t => s.Fresh t
  | .kill index => index < s.status.length
  | .delete => k ∈ s.status
  | _ => True

/-- `tb_socket_client_add` and `tb_socket_client_remove`. -/
def clientsAfter (s : Threads) (k : ℕ) : Act → List ClientEntry
  | .enter => s.clients ++ [⟨.requester k, k⟩]
  | .client => if (s.sessions k).wait then s.clients ++ [⟨.worker k, k⟩] else s.clients
  | .remove => s.clients.filter fun e => s.self e.thread != s.self (.requester k)
  | .unlist =>
      if (s.sessions k).wait then s.clients.filter fun e => s.self e.thread != s.self (.worker k)
      else s.clients
  | _ => s.clients

def statusAfter (s : Threads) (k : ℕ) : Act → List ℕ
  | .register => s.status ++ [k]
  | .delete => s.status.erase k
  | _ => s.status

/-- Session `k` moves to `x`. -/
def after (s : Threads) (k : ℕ) (a : Act) (x : Session) : Threads where
  sessions i := (Function.update s.sessions k x i).cancelled ((s.target k a).map Prod.snd)
  clients := s.clientsAfter k a
  status := s.statusAfter k a

end Threads

inductive Threads.Step : Threads → ℕ × Act → Threads → Prop
  | move {s : Threads} {k : ℕ} {a : Act} {x : Session} : (s.sessions k).Move a x →
      s.Enabled k a → Step s (k, a) (s.after k a x)

def Threads.start : Threads := ⟨fun _ => .idle, [], []⟩

/-- The runs of all threads. -/
def threads : Lts Threads (ℕ × Act) := ⟨fun s => s = .start, Threads.Step⟩

/-! ## Sessions of a run -/

variable {I : Session → Prop} {s s' : Threads} {k : ℕ} {a : Act} {x x' : Session} {b : Actor}
  {tr : List (Threads × (ℕ × Act))}

theorem Session.cancelled_of (hpending : ∀ x : Session, I x → I { x with pending := true })
    (t : Option ℕ) (h : I x) : I (x.cancelled t) := by
  unfold Session.cancelled
  split_ifs
  · exact hpending x h
  · exact h

theorem Threads.after_self : (s.after k a x).sessions k =
    x.cancelled ((s.target k a).map Prod.snd) := by
  simp only [Threads.after, Function.update_self]

theorem Threads.after_of_ne {i : ℕ} (hi : i ≠ k) : (s.after k a x).sessions i =
    (s.sessions i).cancelled ((s.target k a).map Prod.snd) := by
  simp only [Threads.after, Function.update_of_ne hi]

/-- **What a step does to a session**: it is the session that moves or another one; then it may be
told of a request for cancellation. -/
theorem session_cases {i : ℕ} (h : s.Step (i, a) s') (k : ℕ) :
    ∃ x, (i = k ∧ (s.sessions k).Move a x ∨ i ≠ k ∧ x = s.sessions k) ∧
      s'.sessions k = x.cancelled ((s.target i a).map Prod.snd) := by
  obtain ⟨hm, -⟩ := h
  by_cases hi : i = k
  · subst hi
    exact ⟨_, .inl ⟨rfl, hm⟩, Threads.after_self⟩
  · exact ⟨_, .inr ⟨hi, rfl⟩, Threads.after_of_ne (Ne.symm hi)⟩

/-- **Invariants of a session.** What holds of an idle session, and is kept by requests for
cancellation and by the moves that meet `C`, holds of session `k` in the runs in which its steps
meet `C`. -/
theorem session_of_meets {C : Session → Act → Prop} (hidle : I .idle)
    (hmove : ∀ x a x', I x → C x a → x.Move a x' → I x')
    (hpending : ∀ x : Session, I x → I { x with pending := true }) (h : threads.Run tr s)
    (hC : ∀ p ∈ tr, p.2.1 = k → C (p.1.sessions k) p.2.2) : I (s.sessions k) := by
  refine h.invariant_of_meets (I := fun s : Threads => I (s.sessions k))
    (C := fun s l => l.1 = k → C (s.sessions k) l.2) ?_ ?_ hC
  · rintro s rfl
    exact hidle
  · rintro s ⟨i, a⟩ s' hs hc hst
    obtain ⟨x, ⟨hi, hm⟩ | ⟨-, rfl⟩, hx⟩ := session_cases hst k <;> rw [hx]
    · exact Session.cancelled_of hpending _ (hmove _ _ _ hs (hc hi) hm)
    · exact Session.cancelled_of hpending _ hs

/-- **Invariants of all sessions.** -/
theorem session_of_run (hidle : I .idle) (hmove : ∀ x a x', I x → x.Move a x' → I x')
    (hpending : ∀ x : Session, I x → I { x with pending := true }) (h : threads.Run tr s) (k : ℕ) :
    I (s.sessions k) :=
  session_of_meets (C := fun _ _ => True) hidle (fun x a x' hx _ => hmove x a x' hx) hpending h
    fun _ _ _ => trivial

/-! ## The two threads of a session -/

/-- The test thread has not been created. -/
def ConnThread.early : ConnThread → Bool
  | .idle | .started | .reading | .parsing | .options | .creating => true
  | _ => false

/-- The test thread has been created and not been joined. -/
def ConnThread.attending : ConnThread → Bool
  | .created | .joining | .expired | .rejoining => true
  | _ => false

/-- The test thread exists once it is created, and its requester attends to it if it waits, until it
has ended. -/
structure Session.Ordered (x : Session) : Prop where
  early : x.requester.early = true → x.worker = .absent
  present : x.requester.attending = true → x.worker ≠ .absent
  waits : x.wait = true → x.worker.alive = true → x.requester.attending = true
  joined : ∀ c, x.requester = .joined c → x.worker = .terminated c

theorem Session.Ordered.absent (h : x.Ordered) {r : ConnThread} (hr : x.requester = r)
    (he : r.early = true) : x.worker = .absent := h.early (hr ▸ he)

theorem Session.Ordered.ne_absent (h : x.Ordered) {r : ConnThread} (hr : x.requester = r)
    (he : r.attending = true) : x.worker ≠ .absent := h.present (hr ▸ he)

theorem WorkThread.alive_of_cancellable {w : WorkThread} {wait : Bool}
    (h : w.cancellable wait = true) : w.alive = true := by
  cases w <;> simp_all [WorkThread.cancellable, WorkThread.alive]

theorem Session.Ordered.idle : Session.idle.Ordered :=
  ⟨fun _ => rfl, fun h => (by cases h), fun h => (by cases h), fun _ h => (by cases h)⟩

theorem Session.Ordered.pending (h : x.Ordered) : Session.Ordered { x with pending := true } :=
  ⟨h.early, h.present, h.waits, h.joined⟩

theorem ConnThread.late_of_attending {r : ConnThread} (h : r.attending = true) :
    r.early = false := by
  cases r <;> simp_all [ConnThread.attending, ConnThread.early]

theorem Session.Ordered.of_attending (hq : x.requester.attending = true)
    (hw : x.worker ≠ .absent) : x.Ordered := by
  refine ⟨fun h => ?_, fun _ => hw, fun _ _ => hq, fun c h => ?_⟩
  · rw [ConnThread.late_of_attending hq] at h
    cases h
  · rw [h] at hq
    cases hq

theorem Session.Ordered.of_absent (hq : x.requester.attending = false)
    (hj : ∀ c, x.requester ≠ .joined c) (hw : x.worker = .absent) : x.Ordered := by
  refine ⟨fun _ => hw, fun h => ?_, fun _ h => ?_, fun c h => absurd h (hj c)⟩
  · rw [h] at hq
    cases hq
  · rw [hw] at h
    cases h

theorem Session.Ordered.of_late (he : x.requester.early = false)
    (hq : x.requester.attending = false) (hj : ∀ c, x.requester ≠ .joined c)
    (hw : x.wait = true → x.worker.alive = false) : x.Ordered := by
  refine ⟨fun h => ?_, fun h => ?_, fun hwait h => ?_, fun c h => absurd h (hj c)⟩
  · rw [h] at he
    cases he
  · rw [h] at hq
    cases hq
  · rw [hw hwait] at h
    cases h

theorem Session.Ordered.of_worker (hx : x.Ordered) (halive : x.worker.alive = true)
    (hr : x'.requester = x.requester) (hwait : x'.wait = x.wait) (hne : x'.worker ≠ .absent) :
    x'.Ordered := by
  refine ⟨fun h => ?_, fun _ => hne, fun h _ => ?_, fun c h => ?_⟩
  · rw [hx.early (hr ▸ h)] at halive
    cases halive
  · rw [hr]
    exact hx.waits (hwait ▸ h) halive
  · rw [hx.joined c (hr ▸ h)] at halive
    cases halive

theorem Session.Move.ordered (h : x.Move a x') (hx : x.Ordered) : x'.Ordered := by
  cases h with
  | connect _ hr | enter hr | readFail hr | read hr | utility hr | kill _ hr | allocate hr
  | parseFail hr | exec _ hr | createFail hr =>
    exact .of_absent rfl (fun _ h => by cases h) (hx.absent hr rfl)
  | option | delete => exact ⟨hx.early, hx.present, hx.waits, hx.joined⟩
  | create => exact .of_attending rfl fun h => by cases h
  | deadline hr | expire hr | timeout hr => exact .of_attending rfl (hx.ne_absent hr rfl)
  | detach _ hw =>
    refine .of_late rfl rfl (fun _ h => by cases h) fun h => ?_
    rw [hw] at h
    cases h
  | @join c _ hw | @rejoin c _ hw =>
    refine ⟨fun h => (by cases h), fun h => (by cases h), fun _ h => ?_, fun d h => ?_⟩
    · rw [hw] at h
      cases h
    · cases h
      exact hw
  | @respond c hr =>
    refine .of_late rfl rfl (fun _ h => by cases h) fun _ => ?_
    rw [hx.joined c hr]
    rfl
  | finish hr | remove hr | close hr | exit hr =>
    refine .of_late rfl rfl (fun _ h => by cases h) fun hwait => ?_
    by_contra halive
    have hq := hx.waits hwait (by simpa using halive)
    rw [hr] at hq
    cases hq
  | client hw | register hw | abort hw | run hw | wrapup hw | unlist hw | free hw | cleanup hw
  | unwind hw | terminate hw =>
    refine hx.of_worker (by rw [hw]; rfl) rfl rfl fun h => ?_
    first | cases h | (rw [hw] at h; cases h)
  | cancel hc =>
    exact hx.of_worker (WorkThread.alive_of_cancellable hc) rfl rfl fun h => by cases h

theorem ordered_of_run (h : threads.Run tr s) (k : ℕ) : (s.sessions k).Ordered :=
  session_of_run .idle (fun _ _ _ hx hm => hm.ordered hx) (fun _ hx => hx.pending) h k

/-! ## Runs of one session -/

section One

variable {c : List ClientEntry} {l : List ℕ}

/-- Only session `0` has moved. -/
def Threads.one (x : Session) (clients : List ClientEntry) (status : List ℕ) : Threads :=
  ⟨Function.update (fun _ => .idle) 0 x, clients, status⟩

theorem Threads.after_one : (Threads.one x c l).after 0 a x' =
    .one (x'.cancelled (((Threads.one x c l).target 0 a).map Prod.snd))
      ((Threads.one x c l).clientsAfter 0 a) ((Threads.one x c l).statusAfter 0 a) := by
  simp only [Threads.after, Threads.one, Threads.mk.injEq, and_true]
  funext i
  by_cases hi : i = 0
  · subst hi
    simp
  · simp [hi, Session.cancelled, Session.idle, WorkThread.alive]

theorem Threads.fresh_one {t : ℕ} (hr : x.requester.alive = true → x.rid ≠ t)
    (hw : x.worker = .absent) : (Threads.one x c l).Fresh t := by
  intro b hb
  by_cases hi : b.session = 0
  · cases b <;> cases hi
    · exact hr hb
    · simp [Threads.owns, Session.owns, Actor.session, Threads.one, hw, WorkThread.alive] at hb
  · cases b <;>
      simp [Threads.owns, Session.owns, Threads.one, hi, Session.idle, ConnThread.alive,
        WorkThread.alive] at hb

theorem run_one (h : threads.Run tr (.one x c l)) (hm : x.Move a x')
    (he : (Threads.one x c l).Enabled 0 a) :
    threads.Run (tr ++ [(.one x c l, (0, a))])
      (.one (x'.cancelled (((Threads.one x c l).target 0 a).map Prod.snd))
        ((Threads.one x c l).clientsAfter 0 a) ((Threads.one x c l).statusAfter 0 a)) := by
  rw [← Threads.after_one]
  exact .snoc h (.move (by simpa [Threads.one] using hm) he)

theorem run_idle : threads.Run [] (.one .idle [] []) := .start (by
  show Threads.one .idle [] [] = Threads.start
  simp [Threads.one, Threads.start])

theorem run_created : ∃ tr, threads.Run tr (.one
    ⟨.created, 7, .started, 8, true, false, false, none, ⟨true, 0, false⟩⟩
    [⟨.requester 0, 0⟩] []) := by
  have h0 := run_idle
  have h1 := run_one h0 (.connect 7 rfl) (Threads.fresh_one (fun h => by cases h) rfl)
  have h2 := run_one h1 (.enter rfl) trivial
  have h3 := run_one h2 (.read rfl) trivial
  have h4 := run_one h3 (.allocate rfl) trivial
  have h5 := run_one h4 (.exec true rfl) trivial
  have h6 := run_one h5 (.create 8 rfl) (Threads.fresh_one (fun _ => by decide) rfl)
  exact ⟨_, h6⟩

theorem run_expired : ∃ tr, threads.Run tr (.one
    ⟨.expired, 7, .registered, 8, true, false, false, some 8, ⟨true, 0, false⟩⟩
    [⟨.requester 0, 0⟩, ⟨.worker 0, 0⟩] [0]) := by
  obtain ⟨tr, h0⟩ := run_created
  have h1 := run_one h0 (.deadline rfl rfl) trivial
  have h2 := run_one h1 (.client rfl) trivial
  have h3 := run_one h2 (.register rfl) trivial
  have h4 := run_one h3 (.expire rfl) trivial
  exact ⟨_, h4⟩

theorem run_closed : ∃ tr, threads.Run tr (.one
    ⟨.closed, 7, .terminated true, 8, true, true, true, none, ⟨true, 0, false⟩⟩
    [⟨.worker 0, 0⟩] [0]) := by
  obtain ⟨tr, h0⟩ := run_expired
  have h1 := run_one h0 (.timeout rfl) trivial
  have h2 := run_one h1 (.cancel rfl rfl) trivial
  have h3 := run_one h2 (.unwind rfl) trivial
  have h4 := run_one h3 (.terminate rfl) trivial
  have h5 := run_one h4 (.rejoin rfl rfl) trivial
  have h6 := run_one h5 (.respond rfl) trivial
  have h7 := run_one h6 (.finish rfl) trivial
  have h8 := run_one h7 (.remove rfl) trivial
  have h9 := run_one h8 (.close rfl) trivial
  exact ⟨_, h9⟩

end One

end Dib
