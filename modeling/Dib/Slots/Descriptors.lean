import Dib.Slots.Connections

/-!
# Open client sockets

`connection_count` limits the sockets that are open at the same time. A handler counts its
connection out before it closes the socket, so the sockets that are open are those counted in, the
one the accept loop holds uncounted, and those of the handlers in between.

* `Connections.openSockets`, `Connections.leaving`, `Connections.uncounted`: these numbers;
* `step_openSockets`, `openSockets_eq`: a step opens a socket exactly when it accepts a client;
* **`openSockets_le_iff`**: at most 102 sockets are open as long as, whenever a client is accepted,
  the handlers between their release and their `close` do not outnumber the free slots.
-/

set_option autoImplicit false

namespace Dib

/-- `newsockfd` is open and no handler thread has it. -/
def Acceptor.hasSocket : Acceptor → Bool
  | .accepting => false
  | _ => true

/-- The accept loop holds a socket that it has not counted in. -/
def Acceptor.uncounted : Acceptor → Bool
  | .checking | .waiting | .woken => true
  | _ => false

/-- The handler has not closed its socket. -/
def Handler.hasSocket : Handler → Bool
  | .closed _ | .terminated _ => false
  | _ => true

/-- The handler has counted its connection out and not closed its socket. -/
def Handler.leaving : Handler → Bool
  | .draining b => b
  | _ => false

namespace Connections

open Population

/-- The accepted client sockets that are not closed. -/
def openSockets (s : Connections) : ℤ :=
  (if s.acceptor.hasSocket then 1 else 0) + s.handlers.countP Handler.hasSocket

/-- The handlers between `connection_count--` and `close(newsockfd)`. -/
def leaving (s : Connections) : ℤ := s.handlers.countP Handler.leaving

/-- The socket of the accept loop before `connection_count++`. -/
def uncounted (s : Connections) : ℤ := if s.acceptor.uncounted then 1 else 0

/-- A step other than a failing read. -/
def ReadsSucceed (_ : Connections) (l : ConnectionStep) : Prop := ∀ i, l ≠ .readFail i

/-- There are enough free slots for the connections of the handlers that leave, when a client is
accepted. -/
def LeavingFit (s : Connections) (l : ConnectionStep) : Prop :=
  l = .accept → s.leaving ≤ 101 - s.connection_count

variable {s s' : Connections} {l : ConnectionStep} {tr : List (Connections × ConnectionStep)}

theorem signalled_hasSocket (a : Acceptor) : a.signalled.hasSocket = a.hasSocket := by
  cases a <;> rfl

theorem testing_hasSocket {a : Acceptor} (h : a.testing = true) : a.hasSocket = true := by
  cases a <;> simp_all [Acceptor.testing, Acceptor.hasSocket]

theorem move_hasSocket {a b : Handler} {m : ℕ → ConnectionStep} (h : Moves a m b) :
    (if b.hasSocket then 1 else 0 : ℤ) ≤ if a.hasSocket then 1 else 0 := by
  cases h <;> simp [Handler.hasSocket]

theorem move_ne_accept {a b : Handler} {m : ℕ → ConnectionStep} (h : Moves a m b) (i : ℕ) :
    m i ≠ .accept := by
  cases h <;> simp

/-- **One step** opens a socket when it accepts a client, and otherwise none. -/
theorem step_openSockets (h : Step s l s') (hl : l ≠ .accept) :
    s'.openSockets ≤ s.openSockets := by
  cases h with
  | accept ha => exact absurd rfl hl
  | wait ht _ | enter ht _ =>
    have h1 := testing_hasSocket ht
    simp only [openSockets, h1]
    rfl
  | wake ha | createFail ha =>
    simp only [openSockets, ha]
    rfl
  | create ha =>
    have h1 := countP_append_singleton Handler.hasSocket s.handlers .reading
    simp only [openSockets, ha, h1, Acceptor.hasSocket, Handler.hasSocket]
    simp [Int.add_comm]
  | move hi hm =>
    have h1 := countP_set_of_get Handler.hasSocket hi
    have h2 := move_hasSocket hm
    simp only [openSockets, h1]
    omega
  | release hi =>
    have h1 := countP_set_of_get Handler.hasSocket hi (.draining true)
    simp only [openSockets, signalled_hasSocket, h1, Handler.hasSocket]
    simp

theorem accept_openSockets (h : Step s .accept s') :
    s'.openSockets = s.openSockets + 1 ∧ s.uncounted = 0 := by
  generalize hl : ConnectionStep.accept = l at h
  cases h with
  | accept ha =>
    simp [openSockets, uncounted, ha, Acceptor.hasSocket, Acceptor.uncounted, Int.add_comm]
  | move hi hm => exact absurd hl.symm (move_ne_accept hm _)
  | _ => cases hl

/-- A handler's socket is held or on the way out, unless it was closed without a release. -/
theorem countP_hasSocket {hs : List Handler} (hd : ∀ c ∈ hs, c ≠ .closed false) :
    hs.countP Handler.hasSocket = hs.countP Handler.holding + hs.countP Handler.leaving := by
  induction hs with
  | nil => rfl
  | cons c hs ih =>
    have h1 := ih fun c hc => hd c (List.mem_cons_of_mem _ hc)
    have h2 : (if c.hasSocket then 1 else 0) =
        (if c.holding then 1 else 0) + if c.leaving then 1 else 0 := by
      have h3 := hd c List.mem_cons_self
      cases c with
      | draining b => cases b <;> rfl
      | closed b =>
        cases b with
        | false => exact absurd rfl h3
        | true => rfl
      | _ => rfl
    simp only [List.countP_cons, h1, h2]
    omega

/-- **The open sockets** are those counted in, those on the way out and the uncounted one. -/
theorem openSockets_eq (h : connections.Run tr s) (hr : ∀ p ∈ tr, ReadsSucceed p.1 p.2) :
    s.openSockets = s.connection_count + s.leaving + s.uncounted := by
  have hcount := (slotsReturned_of_reads h hr).1
  have hhandlers := countP_hasSocket fun c hc => (draining_released h hr c hc).2
  have hacceptor : (if s.acceptor.hasSocket then 1 else 0 : ℤ) =
      (if s.acceptor.holding then 1 else 0) + s.uncounted := by
    unfold uncounted
    cases s.acceptor <;> rfl
  rw [hcount, openSockets, hacceptor, hhandlers, held, leaving]
  push_cast
  omega

end Connections

open Connections

variable {s : Connections} {tr : List (Connections × ConnectionStep)}

/-- **The limit.** In a run whose reads succeed, at most 102 client sockets are open in every state
exactly when, whenever a client is accepted, the handlers that have released their slot and not
closed their socket do not outnumber the free slots. -/
theorem openSockets_le_iff (h : connections.Run tr s) (hr : ∀ p ∈ tr, ReadsSucceed p.1 p.2) :
    ((∀ p ∈ tr, p.1.openSockets ≤ 102) ∧ s.openSockets ≤ 102) ↔
      ∀ p ∈ tr, LeavingFit p.1 p.2 := by
  refine (Lts.run_only_iff.mpr ⟨h, hr⟩).exact_of_reachable (P := fun s => s.openSockets ≤ 102)
    (by rintro s rfl; decide) (fun tr s l s' hrun hs hfit hst => ?_)
    fun tr s l s' hrun hst hs' => ?_
  · by_cases hl : l = .accept
    · subst hl
      obtain ⟨h1, h2⟩ := accept_openSockets hst.2
      have h3 := openSockets_eq (Lts.run_only_iff.mp hrun).1 (Lts.run_only_iff.mp hrun).2
      have h4 := hfit rfl
      show s'.openSockets ≤ 102
      omega
    · exact (step_openSockets hst.2 hl).trans hs
  · rintro rfl
    obtain ⟨h1, h2⟩ := accept_openSockets hst.2
    have h3 := openSockets_eq (Lts.run_only_iff.mp hrun).1 (Lts.run_only_iff.mp hrun).2
    have h4 : s'.openSockets ≤ 102 := hs'
    omega

theorem client_leaves {tr : List (Connections × ConnectionStep)} {left : List Handler}
    (h : (connections.only ReadsSucceed).Run tr ⟨0, .accepting, left⟩) :
    ∃ tr, (connections.only ReadsSucceed).Run tr ⟨0, .accepting, left ++ [.draining true]⟩ := by
  have hget : ∀ c : Handler, (left ++ [c])[left.length]? = some c := fun c => by simp
  have hmove {n : ℤ} {a b : Handler} {m : ℕ → ConnectionStep} (hm : Moves a m b) :
      Step ⟨n, .accepting, left ++ [a]⟩ (m left.length) ⟨n, .accepting, left ++ [b]⟩ := by
    simpa using Step.move (s := ⟨n, .accepting, left ++ [a]⟩) (hget a) hm
  have h1 := h.snoc ⟨by simp [ReadsSucceed], Step.accept rfl⟩
  have h2 := h1.snoc ⟨by simp [ReadsSucceed], Step.enter rfl (by simp)⟩
  have h3 := h2.snoc ⟨by simp [ReadsSucceed], Step.create rfl⟩
  have h4 := h3.snoc ⟨by simp [ReadsSucceed], hmove .readOk⟩
  have h5 := h4.snoc ⟨by simp [ReadsSucceed], hmove .decode⟩
  have h6 := h5.snoc ⟨by simp [ReadsSucceed], hmove .parse⟩
  have h7 := h6.snoc ⟨by simp [ReadsSucceed], hmove .reply⟩
  have h8 := h7.snoc ⟨by simp [ReadsSucceed], Step.release (hget .releasing)⟩
  exact ⟨_, by simpa [Acceptor.signalled] using h8⟩

theorem clients_leave (n : ℕ) : ∃ tr, (connections.only ReadsSucceed).Run tr
    ⟨0, .accepting, List.replicate n (.draining true)⟩ := by
  induction n with
  | zero => exact ⟨[], .start rfl⟩
  | succ n ih =>
    obtain ⟨tr, h⟩ := ih
    rw [List.replicate_succ']
    exact client_leaves h

theorem openSockets_leaving (n : ℕ) :
    openSockets ⟨0, .accepting, List.replicate n (.draining true)⟩ = n := by
  rw [openSockets, List.countP_replicate]
  simp [Acceptor.hasSocket, Handler.hasSocket]

/-- With 103 such clients as many sockets are open. -/
theorem openSockets_exceeds : ¬ ∀ tr s, connections.Run tr s →
    (∀ p ∈ tr, ReadsSucceed p.1 p.2) → s.openSockets ≤ 102 := by
  intro h
  obtain ⟨tr, hrun⟩ := clients_leave 103
  obtain ⟨h1, h2⟩ := Lts.run_only_iff.mp hrun
  have h3 := h tr _ h1 h2
  rw [openSockets_leaving] at h3
  exact absurd h3 (by decide)

/-- A second client is accepted while the handler of the first leaves. -/
theorem openSockets_le_two : ∃ tr, connections.Run tr ⟨0, .checking, [.draining true]⟩ ∧
    openSockets ⟨0, .checking, [.draining true]⟩ = 2 ∧
    (∀ p ∈ tr, p.1.openSockets ≤ 102) ∧ openSockets ⟨0, .checking, [.draining true]⟩ ≤ 102 := by
  have h0 : connections.Run [] ⟨0, .accepting, []⟩ := .start rfl
  have h1 := h0.snoc (Step.accept rfl)
  have h2 := h1.snoc (Step.enter rfl (by decide))
  have h3 := h2.snoc (Step.create rfl)
  have h4 := h3.snoc (Step.move (i := 0) rfl .readOk)
  have h5 := h4.snoc (Step.move (i := 0) rfl .decode)
  have h6 := h5.snoc (Step.move (i := 0) rfl .parse)
  have h7 := h6.snoc (Step.move (i := 0) rfl .reply)
  have h8 := h7.snoc (Step.release (i := 0) rfl)
  have h9 := h8.snoc (Step.accept rfl)
  exact ⟨_, h9, by decide, (openSockets_le_iff h9 (by simp [ReadsSucceed])).mpr
    (by simp [LeavingFit, leaving, Handler.leaving])⟩

end Dib
