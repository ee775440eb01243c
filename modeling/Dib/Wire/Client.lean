import Dib.Lib.CString
import Dib.Wire.Message

/-!
# The client: packing the command line

`main` of `dibc` walks over its arguments, keeps the values of `--socket_type` and `--ip_addr` for
itself and copies every other argument, with its terminator, to the end of `message.pBuf`.

* `Client`, `packLoop`, `packMessage`: the loop and the final terminator, partial where the program
  writes outside `pBuf` or reads `argv[argc]`;
* `scan`: what the loop packs of an argument vector, and how it ends;
* **`packLoop_spec`**, `packMessage_ok`, **`packMessage_overflow_iff`**: the loop packs exactly
  that, as long as it fits.
-/

set_option autoImplicit false

namespace Dib

open CString Framing

inductive SocketType where
  | unix
  | inet
  deriving DecidableEq, Repr

/-- The client while it packs: its two static variables, `message.pBuf` and `pos`. -/
structure Client where
  socket_type : SocketType
  ip_addr : List Char
  pBuf : List Char
  pos : ℕ
  deriving DecidableEq, Repr

/-- Ways the loop ends before its last argument. -/
inductive PackStop where
  /-- A write outside `pBuf`. -/
  | overflow
  /-- `argv[argc]` is used as a string. -/
  | nullArg
  /-- `Invalid socket type`, then `exit(0)`. -/
  | badType
  deriving DecidableEq, Repr

def optSocketType : List Char := "--socket_type".toList
def optIpAddr : List Char := "--ip_addr".toList
def valLocal : List Char := "local".toList
def valInet : List Char := "inet".toList

def ipAddrSet (new_ip : List Char) (c : Client) : Client :=
  { c with ip_addr := strncpy c.ip_addr new_ip 128 }

def socketSet (type : List Char) (c : Client) : Except PackStop Client :=
  if type = valLocal then .ok { c with socket_type := .unix }
  else if type = valInet then .ok { c with socket_type := .inet }
  else .error .badType

/-- `len = strlen(argv[i]) + 1; memcpy(&message.pBuf[pos], argv[i], len); pos += len;`. -/
def packArg (c : Client) (arg : List Char) : Except PackStop Client :=
  match memcpy c.pBuf c.pos (arg ++ [NUL]) with
  | none => .error .overflow
  | some b => .ok { c with pBuf := b, pos := c.pos + (arg.length + 1) }

def packLoop : List (List Char) → Client → Except PackStop Client
  | [], c => .ok c
  | [a], c => if a = optSocketType ∨ a = optIpAddr then .error .nullArg else packArg c a
  | a :: v :: rest, c =>
    if a = optSocketType then
      match socketSet v c with
      | .error e => .error e
      | .ok c => packLoop rest c
    else if a = optIpAddr then packLoop rest (ipAddrSet v c)
    else
      match packArg c a with
      | .error e => .error e
      | .ok c => packLoop (v :: rest) c

/-- The client before the loop: `ip_addr_set(LOCALHOST)` and a zeroed message. -/
def Client.start (K : Limits) : Client :=
  ipAddrSet "localhost".toList
    ⟨.unix, List.replicate 128 NUL, List.replicate K.TB_SOCK_MSG_MAX_LEN NUL, 0⟩

/-- The packing of `main`: the loop, then `message.pBuf[pos] = 0;`. -/
def packMessage (K : Limits) (argv : List (List Char)) : Except PackStop Client :=
  match packLoop argv (Client.start K) with
  | .error e => .error e
  | .ok c =>
    match memcpy c.pBuf c.pos [NUL] with
    | none => .error .overflow
    | some b => .ok { c with pBuf := b }

/-! ## What is packed -/

/-- How a walk over the arguments ends. -/
inductive ScanEnd where
  | done
  | badType
  | nullArg
  deriving DecidableEq, Repr

/-- The arguments that are neither one of the client's two options nor the value of one, up to the
end of the vector or to an option whose value is missing or invalid. -/
def scan : List (List Char) → List (List Char) × ScanEnd
  | [] => ([], .done)
  | [a] => if a = optSocketType ∨ a = optIpAddr then ([], .nullArg) else ([a], .done)
  | a :: v :: rest =>
    if a = optSocketType then
      if v = valLocal ∨ v = valInet then scan rest else ([], .badType)
    else if a = optIpAddr then scan rest
    else (a :: (scan (v :: rest)).1, (scan (v :: rest)).2)

/-- The number of characters the client writes to `pBuf`. -/
def packedLen (argv : List (List Char)) : ℕ :=
  (frame NUL (scan argv).1).length + if (scan argv).2 = .done then 1 else 0

/-- `pBuf` holds `Q` and zeros after it; the next argument goes behind `Q`. -/
structure Packed (K : Limits) (c : Client) (Q : List Char) : Prop where
  pos_eq : c.pos = Q.length
  length_le : Q.length ≤ K.TB_SOCK_MSG_MAX_LEN
  pBuf_eq : c.pBuf = Q ++ List.replicate (K.TB_SOCK_MSG_MAX_LEN - Q.length) NUL

variable {K : Limits} {c : Client} {Q : List Char}

theorem packed_start (K : Limits) : Packed K (Client.start K) [] :=
  ⟨rfl, Nat.zero_le _, rfl⟩

theorem Packed.memcpy_ok (h : Packed K c Q) (s : List Char)
    (hs : Q.length + s.length ≤ K.TB_SOCK_MSG_MAX_LEN) :
    memcpy c.pBuf c.pos s =
      some (Q ++ s ++ List.replicate (K.TB_SOCK_MSG_MAX_LEN - (Q ++ s).length) NUL) := by
  have hle := h.length_le
  rw [memcpy_eq_some_iff, h.pos_eq, h.pBuf_eq]
  refine ⟨by simp; omega, ?_⟩
  rw [List.take_left, List.drop_append, List.drop_of_length_le (by omega), List.drop_replicate]
  simp only [List.nil_append, List.length_append]
  congr 2
  omega

theorem Packed.memcpy_none (h : Packed K c Q) (s : List Char)
    (hs : K.TB_SOCK_MSG_MAX_LEN < Q.length + s.length) : memcpy c.pBuf c.pos s = none := by
  have hle := h.length_le
  rw [memcpy, h.pos_eq, h.pBuf_eq, if_neg]
  simp
  omega

theorem Packed.packArg_ok (h : Packed K c Q) (a : List Char)
    (ha : Q.length + (a.length + 1) ≤ K.TB_SOCK_MSG_MAX_LEN) :
    ∃ c', packArg c a = .ok c' ∧ Packed K c' (Q ++ (a ++ [NUL])) := by
  have hm := h.memcpy_ok (a ++ [NUL]) (by simpa using ha)
  exact ⟨_, by rw [packArg, hm], by simp [h.pos_eq], by simpa using ha, rfl⟩

theorem Packed.packArg_overflow (h : Packed K c Q) (a : List Char)
    (ha : K.TB_SOCK_MSG_MAX_LEN < Q.length + (a.length + 1)) :
    packArg c a = .error .overflow := by
  rw [packArg, h.memcpy_none (a ++ [NUL]) (by simpa using ha)]

theorem Packed.ipAddrSet (h : Packed K c Q) (v : List Char) : Packed K (ipAddrSet v c) Q :=
  ⟨h.pos_eq, h.length_le, h.pBuf_eq⟩

theorem Packed.socketSet (h : Packed K c Q) {v : List Char} (hv : v = valLocal ∨ v = valInet) :
    ∃ c', socketSet v c = .ok c' ∧ Packed K c' Q := by
  rw [Dib.socketSet]
  split_ifs with h1 h2
  · exact ⟨{ c with socket_type := .unix }, rfl, h.pos_eq, h.length_le, h.pBuf_eq⟩
  · exact ⟨{ c with socket_type := .inet }, rfl, h.pos_eq, h.length_le, h.pBuf_eq⟩
  · exact absurd hv (by simp [h1, h2])

theorem socketSet_bad {v : List Char} (hv : ¬ (v = valLocal ∨ v = valInet)) (c : Client) :
    socketSet v c = .error .badType := by
  rw [socketSet, if_neg fun e => hv (.inl e), if_neg fun e => hv (.inr e)]

/-- The result of the loop from `Q`: the framing of the scanned arguments behind `Q`, if it
fits. -/
def PackResult (K : Limits) (Q : List Char) (r : List (List Char) × ScanEnd)
    (res : Except PackStop Client) : Prop :=
  if Q.length + (frame NUL r.1).length ≤ K.TB_SOCK_MSG_MAX_LEN then
    match r.2 with
    | .done => ∃ c, res = .ok c ∧ Packed K c (Q ++ frame NUL r.1)
    | .badType => res = .error .badType
    | .nullArg => res = .error .nullArg
  else res = .error .overflow

theorem packResult_cons {a : List Char} {r : List (List Char) × ScanEnd}
    {f : Client → Except PackStop Client} (h : Packed K c Q)
    (hf : ∀ c', packArg c a = .ok c' → Packed K c' (Q ++ (a ++ [NUL])) →
      PackResult K (Q ++ (a ++ [NUL])) r (f c')) :
    PackResult K Q (a :: r.1, r.2)
      (match packArg c a with
        | .error e => .error e
        | .ok c => f c) := by
  by_cases ha : Q.length + (a.length + 1) ≤ K.TB_SOCK_MSG_MAX_LEN
  · obtain ⟨c', hc', hp⟩ := h.packArg_ok a ha
    have h1 := hf c' hc' hp
    have h2 : Q ++ (a ++ [NUL]) ++ frame NUL r.1 = Q ++ frame NUL (a :: r.1) := by simp
    rw [hc']
    simpa only [PackResult, ← List.length_append, h2] using h1
  · rw [h.packArg_overflow a (by omega), PackResult, if_neg]
    simp only [frame_cons, List.length_append, List.length_cons]
    omega

/-- **The loop packs what `scan` finds.** -/
theorem packLoop_spec (argv : List (List Char)) {c : Client} {Q : List Char} (h : Packed K c Q) :
    PackResult K Q (scan argv) (packLoop argv c) := by
  induction argv, c using packLoop.induct generalizing Q with
  | case1 c => simpa [PackResult, packLoop, scan, h.length_le] using h
  | case2 a c ho => simp [PackResult, packLoop, scan, ho, h.length_le]
  | case3 a c ho =>
    have h1 := packResult_cons (a := a) (r := ([], .done)) (f := .ok) h fun c' _ hc' => by
      rw [PackResult, frame_nil, List.append_nil, List.length_nil, Nat.add_zero,
        if_pos hc'.length_le]
      exact ⟨c', rfl, hc'⟩
    rw [packLoop, if_neg ho, scan, if_neg ho]
    cases hp : packArg c a <;> simpa only [hp] using h1
  | case4 v rest c e hs =>
    have hv : ¬ (v = valLocal ∨ v = valInet) := fun hv => by
      obtain ⟨c', hc', -⟩ := h.socketSet hv
      rw [hc'] at hs
      cases hs
    simp [PackResult, packLoop, scan, hv, socketSet_bad hv c, h.length_le]
  | case5 v rest c c' hs ih =>
    have hv : v = valLocal ∨ v = valInet := by
      by_contra hv
      rw [socketSet_bad hv] at hs
      cases hs
    obtain ⟨c'', hc'', hp⟩ := h.socketSet hv
    obtain rfl : c'' = c' := Except.ok.inj (hc''.symm.trans hs)
    simpa [packLoop, scan, hv, hs] using ih hp
  | case6 v rest c ho ih => simpa [packLoop, scan, ho] using ih (h.ipAddrSet v)
  | case7 a v rest c h1 h2 e hs =>
    have h3 := packResult_cons (r := scan (v :: rest)) (f := packLoop (v :: rest)) h
      fun c' hc' _ => by rw [hs] at hc'; cases hc'
    rw [packLoop, if_neg h1, if_neg h2, scan, if_neg h1, if_neg h2]
    exact h3
  | case8 a v rest c h1 h2 c' hs ih =>
    have h3 := packResult_cons (r := scan (v :: rest)) (f := packLoop (v :: rest)) h
      fun c'' hc'' hp => by
        obtain rfl : c' = c'' := Except.ok.inj (hs.symm.trans hc'')
        exact ih hp
    rw [packLoop, if_neg h1, if_neg h2, scan, if_neg h1, if_neg h2]
    exact h3

theorem packMessage_ok {argv : List (List Char)} (hd : (scan argv).2 = .done)
    (hfit : packedLen argv ≤ K.TB_SOCK_MSG_MAX_LEN) :
    ∃ c, packMessage K argv = .ok c ∧ c.pBuf = frame NUL (scan argv).1 ++
      List.replicate (K.TB_SOCK_MSG_MAX_LEN - (frame NUL (scan argv).1).length) NUL := by
  rw [packedLen, if_pos hd] at hfit
  have h := packLoop_spec argv (packed_start K)
  rw [PackResult, if_pos (by simp; omega), hd] at h
  obtain ⟨c, hc, hp⟩ := h
  rw [List.nil_append] at hp
  obtain ⟨b, hb⟩ : ∃ b, b = frame NUL (scan argv).1 ++ [NUL] ++ List.replicate
      (K.TB_SOCK_MSG_MAX_LEN - (frame NUL (scan argv).1 ++ [NUL]).length) NUL := ⟨_, rfl⟩
  have hm : memcpy c.pBuf c.pos [NUL] = some b := by
    rw [hb]
    exact hp.memcpy_ok [NUL] (by simpa using hfit)
  refine ⟨{ c with pBuf := b }, by simp only [packMessage, hc, hm], ?_⟩
  rw [hb, List.append_assoc, List.append_right_inj, List.singleton_append, ← List.replicate_succ]
  congr 1
  simp only [List.length_append, List.length_singleton]
  omega

/-- **The client writes outside `pBuf` exactly when what it packs is too long.** -/
theorem packMessage_overflow_iff (K : Limits) (argv : List (List Char)) :
    packMessage K argv = .error .overflow ↔ K.TB_SOCK_MSG_MAX_LEN < packedLen argv := by
  have h := packLoop_spec argv (packed_start K)
  rw [PackResult, List.length_nil, Nat.zero_add, List.nil_append] at h
  split_ifs at h with hfit
  · split at h
    · next hd =>
      obtain ⟨c, hc, hp⟩ := h
      by_cases hlt : (frame NUL (scan argv).1).length + 1 ≤ K.TB_SOCK_MSG_MAX_LEN
      · obtain ⟨c', hc', -⟩ := packMessage_ok (K := K) hd (by simpa [packedLen, hd])
        refine iff_of_false (by simp [hc']) ?_
        rw [packedLen, if_pos hd]
        omega
      · have hm := hp.memcpy_none [NUL] (by simpa using hlt)
        simp only [packMessage, hc, hm, packedLen, hd, if_true, true_iff]
        omega
    · next hd => simp [packMessage, h, packedLen, hd, hfit]
    · next hd => simp [packMessage, h, packedLen, hd, hfit]
  · have hl : K.TB_SOCK_MSG_MAX_LEN < packedLen argv := by
      unfold packedLen
      omega
    simp [packMessage, h, hl]

end Dib
