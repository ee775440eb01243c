import Dib.Lib.Run
import Dib.Lib.Population

/-!
# Slots of client connections

`tb_socket_handling` accepts a client, waits while `connection_count > 100`, counts the connection
in and creates a thread; the thread, `tb_socket_th`, reads the command, handles it, counts the
connection out and closes the socket. A failed read jumps to the label `drain`, behind the place
where the connection is counted out.

* `Connections`, `connections`: the counter, the accept loop and the handler threads, one step for
  each section under `lock` and for each call that another thread can observe;
* `Connections.held`: the connections counted in whose handler has not counted them out and lives;
* `SlotsReturned`: the counter is that number, and a waiting accept loop has a live handler;
* **`slotsReturned_iff`**: the slots are returned exactly as long as no handler ends without having
  passed its release; `slotsReturned_of_reads`: so whenever no read fails.
-/

set_option autoImplicit false

namespace Dib

/-- Where the loop of `tb_socket_handling` stands. -/
inductive Acceptor where
  /-- In `tb_socket_accept`. -/
  | accepting
  /-- Holds `newsockfd`, before the test `connection_count > 100`. -/
  | checking
  /-- In `pthread_cond_wait`. -/
  | waiting
  /-- Woken, has not tested `connection_count` again. -/
  | woken
  /-- Has counted the connection in, before `pthread_create`. -/
  | admitted
  /-- At the label `exit`: the allocation or the thread creation failed. -/
  | exited
  deriving DecidableEq, Repr

/-- Where a thread `tb_socket_th` stands; `released` tells whether it has run the section that
decrements `connection_count`. -/
inductive Handler where
  | reading
  | decoding
  | parsing
  | replying
  | releasing
  /-- At the label `drain`. -/
  | draining (released : Bool)
  /-- `newsockfd` is closed. -/
  | closed (released : Bool)
  | terminated (released : Bool)
  deriving DecidableEq, Repr

/-- The handler has not executed its release and has not terminated. -/
def Handler.holding : Handler → Bool
  | .draining b | .closed b => !b
  | .terminated _ => false
  | _ => true

/-- The accept loop has counted in a connection that has no thread. -/
def Acceptor.holding : Acceptor → Bool
  | .admitted | .exited => true
  | _ => false

/-- The accept loop is about to test `connection_count > 100`. -/
def Acceptor.testing : Acceptor → Bool
  | .checking | .woken => true
  | _ => false

/-- `pthread_cond_signal(&wait)`: the accept loop is the only thread that waits. -/
def Acceptor.signalled : Acceptor → Acceptor
  | .waiting => .woken
  | a => a

/-- `connection_count`, the accept loop and the handler threads. -/
structure Connections where
  connection_count : ℤ
  acceptor : Acceptor
  handlers : List Handler
  deriving DecidableEq, Repr

/-- What happens next; `i` is a handler thread. -/
inductive ConnectionStep where
  | accept
  | wait
  | wake
  | enter
  | create
  | createFail
  | readOk (i : ℕ)
  | readFail (i : ℕ)
  | decode (i : ℕ)
  | parse (i : ℕ)
  | reply (i : ℕ)
  | release (i : ℕ)
  | close (i : ℕ)
  | exit (i : ℕ)
  deriving DecidableEq, Repr

namespace Connections

open ConnectionStep

/-- Connections counted in whose handler has not counted them out and has not terminated. -/
def held (s : Connections) : ℤ :=
  (if s.acceptor.holding then 1 else 0) + s.handlers.countP Handler.holding

/-- A handler's steps away from `lock`. -/
inductive Moves : Handler → (ℕ → ConnectionStep) → Handler → Prop
  | readOk : Moves .reading readOk .decoding
  -- `if (n < 0) goto drain;`
  | readFail : Moves .reading readFail (.draining false)
  | decode : Moves .decoding decode .parsing
  | parse : Moves .parsing parse .replying
  | reply : Moves .replying reply .releasing
  | close {b : Bool} : Moves (.draining b) close (.closed b)
  | exit {b : Bool} : Moves (.closed b) exit (.terminated b)

/-- The steps of `tb_socket_handling` and of `tb_socket_th`. -/
inductive Step : Connections → ConnectionStep → Connections → Prop
  | accept {s : Connections} : s.acceptor = .accepting →
      Step s accept { s with acceptor := .checking }
  | wait {s : Connections} : s.acceptor.testing → 100 < s.connection_count →
      Step s wait { s with acceptor := .waiting }
  | wake {s : Connections} : s.acceptor = .waiting → Step s wake { s with acceptor := .woken }
  | enter {s : Connections} : s.acceptor.testing → ¬ 100 < s.connection_count →
      Step s enter
        { s with connection_count := s.connection_count + 1, acceptor := .admitted }
  | create {s : Connections} : s.acceptor = .admitted →
      Step s create { s with acceptor := .accepting, handlers := s.handlers ++ [.reading] }
  | createFail {s : Connections} : s.acceptor = .admitted →
      Step s createFail { s with acceptor := .exited }
  | move {s : Connections} {i : ℕ} {a b : Handler} {l : ℕ → ConnectionStep} :
      s.handlers[i]? = some a → Moves a l b →
      Step s (l i) { s with handlers := s.handlers.set i b }
  | release {s : Connections} {i : ℕ} : s.handlers[i]? = some .releasing →
      Step s (release i)
        { connection_count := s.connection_count - 1
          acceptor := s.acceptor.signalled
          handlers := s.handlers.set i (.draining true) }

end Connections

/-- The accept loop with any number of clients and handlers, in any order. -/
def connections : Lts Connections ConnectionStep where
  init s := s = ⟨0, .accepting, []⟩
  step := Connections.Step

/-- Every terminated handler has given its slot back, and a waiting accept loop has a live handler
that will. -/
def SlotsReturned (s : Connections) : Prop :=
  s.connection_count = s.held ∧
    (s.acceptor = .waiting → ∃ h ∈ s.handlers, h.holding)

/-- The last step of a handler that has not executed its release. -/
def isLostExit (p : Connections × ConnectionStep) : Bool :=
  match p.2 with
  | .exit i => p.1.handlers[i]? = some (.closed false)
  | _ => false

namespace Connections

open Population

variable {s s' : Connections} {l : ConnectionStep} {tr : List (Connections × ConnectionStep)}

theorem signalled_holding (a : Acceptor) : a.signalled.holding = a.holding := by
  cases a <;> rfl

theorem testing_holding {a : Acceptor} (h : a.testing = true) : a.holding = false := by
  cases a <;> simp_all [Acceptor.testing, Acceptor.holding]

/-- A move gives no slot back; the last move of an unreleased handler loses one. -/
theorem move_holding {i : ℕ} {a b : Handler} {m : ℕ → ConnectionStep} (h : Moves a m b)
    (hi : s.handlers[i]? = some a) :
    ((if a.holding then 1 else 0) - if b.holding then 1 else 0 : ℤ) =
      if isLostExit (s, m i) then 1 else 0 := by
  cases h with
  | close => rename_i b; cases b <;> rfl
  | exit => rename_i b; cases b <;> simp [isLostExit, Handler.holding, hi]
  | _ => rfl

/-- **One step.** The counter gets ahead by one more exactly at a lost exit. -/
theorem step_defect (h : Step s l s') :
    s'.connection_count - s'.held =
      s.connection_count - s.held + if isLostExit (s, l) then 1 else 0 := by
  cases h with
  | accept ha | wake ha | createFail ha => simp [held, ha, Acceptor.holding, isLostExit]
  | wait ht _ =>
    have h1 : Acceptor.waiting.holding = false := rfl
    simp [held, testing_holding ht, h1, isLostExit]
  | enter ht _ =>
    have h1 : Acceptor.admitted.holding = true := rfl
    simp [held, testing_holding ht, h1, isLostExit]
    ring
  | create ha =>
    have h1 := countP_append_singleton Handler.holding s.handlers .reading
    simp only [held, ha, h1, Acceptor.holding, Handler.holding, isLostExit]
    simp
    ring
  | move hi hm =>
    have h1 := countP_set_of_get Handler.holding hi
    have h2 := move_holding hm hi
    simp only [held, h1]
    omega
  | release hi =>
    have h1 := countP_set_of_get Handler.holding hi (.draining true)
    simp only [held, signalled_holding, h1, Handler.holding, isLostExit]
    simp
    ring

/-- **The slots lost in a run are its lost exits.** -/
theorem count_eq (h : connections.Run tr s) :
    s.connection_count = s.held + tr.countP isLostExit := by
  have := h.defect_eq_count isLostExit (I := fun _ => True)
    (f := fun s => s.connection_count - s.held) (fun _ _ => trivial)
    (fun _ _ _ _ _ => trivial) (by rintro s rfl; rfl) fun _ _ _ _ hst => step_defect hst
  omega

/-- **A waiting accept loop has found more than 100 connections and none has left since.** -/
theorem waiting_full (h : connections.Run tr s) (hw : s.acceptor = .waiting) :
    100 < s.connection_count := by
  revert hw
  refine h.invariant (I := fun s => s.acceptor = .waiting → 100 < s.connection_count)
    (by rintro s rfl; simp) fun s l s' hs hst => ?_
  cases hst with
  | wait _ hc => exact fun _ => hc
  | move _ _ => exact hs
  | release _ => cases s.acceptor <;> simp [Acceptor.signalled]
  | _ => simp

theorem draining_released (h : connections.Run tr s)
    (hr : ∀ p ∈ tr, ∀ i, p.2 ≠ .readFail i) :
    ∀ c ∈ s.handlers, c ≠ .draining false ∧ c ≠ .closed false := by
  refine h.invariant_of_meets (C := fun _ l => ∀ i, l ≠ .readFail i)
    (I := fun s => ∀ c ∈ s.handlers, c ≠ .draining false ∧ c ≠ .closed false)
    (by rintro s rfl; simp) (fun s l s' hs hl hst => ?_) hr
  cases hst with
  | create _ =>
    intro c hc
    rcases List.mem_append.mp hc with hc | hc
    · exact hs c hc
    · obtain rfl := List.mem_singleton.mp hc
      simp
  | move hi hm =>
    intro c hc
    rcases List.mem_or_eq_of_mem_set hc with hc | rfl
    · exact hs c hc
    · have ha := hs _ (List.mem_of_getElem? hi)
      cases hm <;> simp_all
  | release _ =>
    intro c hc
    rcases List.mem_or_eq_of_mem_set hc with hc | rfl
    · exact hs c hc
    · simp
  | _ => exact hs

end Connections

theorem slotsReturned_iff_countP {tr : List (Connections × ConnectionStep)} {s : Connections}
    (h : connections.Run tr s) : SlotsReturned s ↔ tr.countP isLostExit = 0 := by
  have hcount := Connections.count_eq h
  constructor
  · rintro ⟨h1, _⟩
    omega
  · intro h0
    refine ⟨by omega, fun hw => ?_⟩
    -- more than 100 connections are held, and the waiting accept loop holds none of them
    have hfull := Connections.waiting_full h hw
    rw [hcount, h0, Connections.held, hw] at hfull
    have hpos : 0 < s.handlers.countP Handler.holding := by
      simp only [Acceptor.holding] at hfull
      simp at hfull
      omega
    obtain ⟨c, hc, hc'⟩ := List.countP_pos_iff.mp hpos
    exact ⟨c, hc, hc'⟩

/-- **As long as no read fails, every slot is returned.** -/
theorem slotsReturned_of_reads {tr : List (Connections × ConnectionStep)} {s : Connections}
    (h : connections.Run tr s) (hr : ∀ p ∈ tr, ∀ i, p.2 ≠ .readFail i) : SlotsReturned s := by
  apply (slotsReturned_iff_countP h).mpr
  rw [List.countP_eq_zero]
  intro p hp
  obtain ⟨tr₁, tr₂, s', rfl, h1, -⟩ := h.prefix_of_mem hp
  have hd := Connections.draining_released h1 fun q hq => hr q (List.mem_append_left _ hq)
  obtain ⟨d, l⟩ := p
  cases l with
  | exit i =>
    simp only [isLostExit, decide_eq_true_eq]
    exact fun hi => (hd _ (List.mem_of_getElem? hi)).2 rfl
  | _ => simp [isLostExit]

/-- **The slots are returned exactly as long as no handler ends unreleased.** -/
theorem slotsReturned_iff {tr : List (Connections × ConnectionStep)} {s : Connections}
    (h : connections.Run tr s) : SlotsReturned s ↔ ∀ p ∈ tr, isLostExit p = false := by
  rw [slotsReturned_iff_countP h, List.countP_eq_zero]
  simp

open Connections (Step)

/-- One client whose read fails. -/
def readFailTrace : List (Connections × ConnectionStep) :=
  [(⟨0, .accepting, []⟩, .accept), (⟨0, .checking, []⟩, .enter), (⟨1, .admitted, []⟩, .create),
    (⟨1, .accepting, [.reading]⟩, .readFail 0), (⟨1, .accepting, [.draining false]⟩, .close 0),
    (⟨1, .accepting, [.closed false]⟩, .exit 0)]

theorem readFailTrace_run : connections.Run readFailTrace ⟨1, .accepting, [.terminated false]⟩ := by
  have h0 : connections.Run [] ⟨0, .accepting, []⟩ := .start rfl
  have h1 : connections.Run (readFailTrace.take 1) ⟨0, .checking, []⟩ := .snoc h0 (Step.accept rfl)
  have h2 : connections.Run (readFailTrace.take 2) ⟨1, .admitted, []⟩ :=
    .snoc h1 (Step.enter rfl (by decide))
  have h3 : connections.Run (readFailTrace.take 3) ⟨1, .accepting, [.reading]⟩ :=
    .snoc h2 (Step.create rfl)
  have h4 : connections.Run (readFailTrace.take 4) ⟨1, .accepting, [.draining false]⟩ :=
    .snoc h3 (Step.move (i := 0) rfl .readFail)
  have h5 : connections.Run (readFailTrace.take 5) ⟨1, .accepting, [.closed false]⟩ :=
    .snoc h4 (Step.move (i := 0) rfl .close)
  exact .snoc h5 (Step.move (i := 0) rfl .exit)

/-- The slot of a failed read stays taken although its handler is gone. -/
theorem readFail_loses_slot : ¬ ∀ tr s, connections.Run tr s → SlotsReturned s := by
  intro h
  have := (h _ _ readFailTrace_run).1
  revert this
  decide

/-- A connection that is being read is accounted for. -/
theorem slotsReturned_reading : SlotsReturned ⟨1, .accepting, [.reading]⟩ := by
  have h0 : connections.Run [] ⟨0, .accepting, []⟩ := .start rfl
  have h1 : connections.Run [(_, .accept)] ⟨0, .checking, []⟩ := .snoc h0 (Step.accept rfl)
  have h2 : connections.Run [(_, .accept), (_, .enter)] ⟨1, .admitted, []⟩ :=
    .snoc h1 (Step.enter rfl (by decide))
  have h3 : connections.Run [(_, .accept), (_, .enter), (_, .create)] ⟨1, .accepting, [.reading]⟩ :=
    .snoc h2 (Step.create rfl)
  exact (slotsReturned_iff h3).mpr (by decide)

end Dib
