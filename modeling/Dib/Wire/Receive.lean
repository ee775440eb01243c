import Dib.Wire.Delivery

/-!
# The client: receiving the response

After the command was sent, `main` of `dibc` reads one `tb_socket_msg_t` after the other, each in as
many pieces as `read` cares to return, and prints its `pBuf`, until one is of type
`tb_sock_msg_done`.

* `Socket`, `Socket.read`: the characters under way and what the calls of `read` return;
* `fillMessage`, `receive`: the two loops, partial where a `read` fails, where the program reads or
  writes outside `message`, and where a bound on the iterations is reached;
* `Response`: a message with a terminated payload;
* `fillMessage_spec`, **`receive_frames`**: however the stream is cut, the loops print the payloads
  of the responses and consume their characters.
-/

set_option autoImplicit false

namespace Dib

open CString

/-! ## The loops -/

/-- The `k`-th call of `read` fails, or returns at most so many characters. -/
abbrev Reads := ℕ → Option ℕ

/-- The socket `so`: the characters that were not read yet, and the number of reads so far. -/
structure Socket where
  stream : List Char
  calls : ℕ
  deriving DecidableEq, Repr

/-- `read(so, ..., count)`: what it stores and the socket behind it. -/
def Socket.read (so : Socket) (rd : Reads) (count : ℕ) : Option (List Char × Socket) :=
  (rd so.calls).map fun n =>
    (so.stream.take (min n count), ⟨so.stream.drop (min n count), so.calls + 1⟩)

/-- Ways the loops end before the last message. -/
inductive ReceiveStop where
  /-- `read` fails: `goto cleanup`. -/
  | readError
  /-- A write outside `message`. -/
  | overflow
  /-- `printf` does not find a terminator in `pBuf`. -/
  | printOutside
  /-- The bound on the iterations is reached. -/
  | fuel
  deriving DecidableEq, Repr

/-- `sizeof(tb_socket_msg_t)`. -/
def Limits.msgLen (K : Limits) : ℕ := K.hdrLen + K.TB_SOCK_MSG_MAX_LEN

/-- The loop `for (br = 0; br < sizeof(message); br += n)`, from `br`. -/
def fillMessage (K : Limits) (rd : Reads) :
    ℕ → List Char → ℕ → Socket → Except ReceiveStop (List Char × Socket)
  | 0, _, _, _ => .error .fuel
  | fuel + 1, message, br, so =>
    if br < K.msgLen then
      match so.read rd (K.msgLen - br) with
      | none => .error .readError
      | some (chunk, so) =>
        match memcpy message br chunk with
        | none => .error .overflow
        | some message => fillMessage K rd fuel message (br + chunk.length) so
    else .ok (message, so)

/-- The loop `do ... while (message.hdr.type != tb_sock_msg_done)` and the newline behind it, after
`out` was printed; `isDone` tells the type from the header. -/
def receive (K : Limits) (isDone : List Char → Bool) (rd : Reads) :
    ℕ → List Char → Socket → Except ReceiveStop (List Char × Socket)
  | 0, _, _ => .error .fuel
  | fuel + 1, out, so =>
    match fillMessage K rd (fuel + 1) (List.replicate K.msgLen NUL) 0 so with
    | .error e => .error e
    | .ok (message, so) =>
      if strlen (message.drop K.hdrLen) = none then .error .printOutside
      else if isDone (message.take K.hdrLen) then
        .ok (out ++ cstr (message.drop K.hdrLen) ++ ['\n'], so)
      else receive K isDone rd fuel (out ++ cstr (message.drop K.hdrLen)) so

/-! ## One message -/

variable {K : Limits} {rd : Reads}

/-- `read` returns at least one character. -/
def Progress (rd : Reads) : Prop := ∀ k, ∃ n, rd k = some n ∧ 0 < n

theorem Socket.read_append (h : Progress rd) {a b : List Char} {k : ℕ} (ha : a ≠ []) :
    ∃ a₁ a₂, a = a₁ ++ a₂ ∧ a₁ ≠ [] ∧
      Socket.read ⟨a ++ b, k⟩ rd a.length = some (a₁, ⟨a₂ ++ b, k + 1⟩) := by
  obtain ⟨n, hn, hpos⟩ := h k
  have hlen : 0 < a.length := List.length_pos_iff.mpr ha
  refine ⟨a.take (min n a.length), a.drop (min n a.length), (List.take_append_drop _ _).symm, ?_,
    ?_⟩
  · rw [← List.length_pos_iff, List.length_take]
    omega
  · have hle : min n a.length ≤ a.length := min_le_right _ _
    simp only [Socket.read, hn, Option.map_some, List.take_append_of_le_length hle,
      List.drop_append_of_le_length hle]

/-- **Filling a message.** The part `p` of the message is there; the loop gets the rest `q` from the
stream, in whatever pieces, and nothing behind it. -/
theorem fillMessage_spec (h : Progress rd) (p : List Char) {q : List Char} (b : List Char)
    (hlen : p.length + q.length = K.msgLen) {fuel : ℕ} (hf : q.length < fuel) (z : List Char)
    (hz : z.length = q.length) (k : ℕ) :
    ∃ k', fillMessage K rd fuel (p ++ z) p.length ⟨q ++ b, k⟩ = .ok (p ++ q, ⟨b, k'⟩) := by
  induction fuel generalizing p q z k with
  | zero => omega
  | succ fuel ih =>
    by_cases hq : q = []
    · subst hq
      obtain rfl := List.length_eq_zero_iff.mp hz
      refine ⟨k, ?_⟩
      rw [fillMessage, if_neg (by simp at hlen; omega)]
      rfl
    · obtain ⟨q₁, q₂, rfl, hq₁, hread⟩ := Socket.read_append (b := b) (k := k) h hq
      have hpos : 0 < q₁.length := List.length_pos_iff.mpr hq₁
      have hcount : K.msgLen - p.length = (q₁ ++ q₂).length := by omega
      rw [List.length_append] at hlen hf hz
      -- the piece overwrites as much of what stood there
      have hcopy : memcpy (p ++ z) p.length q₁ = some ((p ++ q₁) ++ z.drop q₁.length) := by
        rw [memcpy_eq_some_iff]
        refine ⟨by rw [List.length_append]; omega, ?_⟩
        rw [List.take_left, ← List.drop_drop, List.drop_left]
      obtain ⟨k', hk'⟩ := ih (p ++ q₁) (q := q₂) (by rw [List.length_append]; omega) (by omega)
        (z.drop q₁.length) (by rw [List.length_drop]; omega) (k + 1)
      refine ⟨k', ?_⟩
      have hbr : p.length < K.msgLen := by omega
      rw [fillMessage, if_pos hbr, hcount, hread]
      simp only [hcopy]
      rw [← List.length_append, hk', List.append_assoc]

/-! ## The response -/

/-- A message of the daemon: its header, and a `pBuf` with a terminated payload. -/
structure Response (K : Limits) where
  hdr : List Char
  payload : List Char
  unused : List Char
  hdr_length : hdr.length = K.hdrLen
  payload_notMem : NUL ∉ payload
  pBuf_length : (payload ++ NUL :: unused).length = K.TB_SOCK_MSG_MAX_LEN

def Response.bytes (r : Response K) : List Char := r.hdr ++ (r.payload ++ NUL :: r.unused)

theorem Response.length_bytes (r : Response K) : r.bytes.length = K.msgLen := by
  rw [bytes, List.length_append, r.hdr_length, r.pBuf_length, Limits.msgLen]

theorem receive_response (h : Progress rd) (isDone : List Char → Bool) (r : Response K)
    (b out : List Char) (fuel : ℕ) (hf : K.msgLen ≤ fuel) (k : ℕ) :
    ∃ k', receive K isDone rd (fuel + 1) out ⟨r.bytes ++ b, k⟩ =
      if isDone r.hdr then .ok (out ++ r.payload ++ ['\n'], ⟨b, k'⟩)
      else receive K isDone rd fuel (out ++ r.payload) ⟨b, k'⟩ := by
  have hlen := r.length_bytes
  have hf' : r.bytes.length < fuel + 1 := by omega
  obtain ⟨k', hk'⟩ := fillMessage_spec (K := K) h [] b (by simpa using hlen) hf'
    (List.replicate K.msgLen NUL) (by simp [hlen]) k
  rw [List.nil_append, List.nil_append, List.length_nil] at hk'
  have hhdr : r.bytes.take K.hdrLen = r.hdr := List.take_left' r.hdr_length
  have hpBuf : r.bytes.drop K.hdrLen = r.payload ++ NUL :: r.unused := List.drop_left' r.hdr_length
  refine ⟨k', ?_⟩
  rw [receive, hk']
  simp only [hhdr, hpBuf, strlen_append_NUL r.payload_notMem, cstr_append_NUL r.payload_notMem]
  rfl

/-- **Reassembly.** However the reads cut the stream, the client prints the payloads of the
responses up to the done one, in order, and a newline, and has read these responses and nothing
else. -/
theorem receive_frames (h : Progress rd) {isDone : List Char → Bool} {init : List (Response K)}
    {last : Response K} (hinit : ∀ r ∈ init, isDone r.hdr = false)
    (hlast : isDone last.hdr = true) (b out : List Char) (k fuel : ℕ)
    (hf : K.msgLen + init.length < fuel) :
    ∃ k', receive K isDone rd fuel out ⟨(init ++ [last]).flatMap Response.bytes ++ b, k⟩ =
      .ok (out ++ (init ++ [last]).flatMap Response.payload ++ ['\n'], ⟨b, k'⟩) := by
  induction init generalizing out k fuel with
  | nil =>
    obtain ⟨fuel, rfl⟩ := Nat.exists_eq_succ_of_ne_zero (Nat.ne_zero_of_lt hf)
    obtain ⟨k', hk'⟩ := receive_response h isDone last b out fuel (by omega) k
    refine ⟨k', ?_⟩
    simpa [hlast] using hk'
  | cons r init ih =>
    obtain ⟨fuel, rfl⟩ := Nat.exists_eq_succ_of_ne_zero (Nat.ne_zero_of_lt hf)
    rw [List.length_cons] at hf
    obtain ⟨k₁, hk₁⟩ := receive_response h isDone r ((init ++ [last]).flatMap Response.bytes ++ b)
      out fuel (by omega) k
    obtain ⟨k', hk'⟩ := ih (fun r hr => hinit r (List.mem_cons_of_mem _ hr)) (out ++ r.payload) k₁
      fuel (by omega)
    refine ⟨k', ?_⟩
    rw [hinit r List.mem_cons_self, if_neg Bool.false_ne_true, hk'] at hk₁
    simpa using hk₁

/-- Two responses, the second of them done; behind each terminator of a payload stand leftovers. -/
def okResponses : List (Response smallLimits) :=
  [⟨"0rsp".toList, "run\n".toList, "leftover---".toList, by decide, by decide, by decide⟩,
    ⟨"done".toList, "ok".toList, "-------------".toList, by decide, by decide, by decide⟩]

/-- Read seven characters at a time, across the border of the messages. -/
theorem receive_frames_okResponses :
    (∀ k : ℕ, ∃ n, (fun _ => some 7 : Reads) k = some n ∧ 0 < n) ∧
      ∃ k', receive smallLimits (fun hdr => hdr = "done".toList) (fun _ => some 7) 30 []
        ⟨okResponses.flatMap Response.bytes ++ "next".toList, 0⟩ =
          .ok ("run\nok\n".toList, ⟨"next".toList, k'⟩) := by
  have h : Progress fun _ => some 7 := fun _ => ⟨7, rfl, by decide⟩
  have hinit : ∀ r ∈ okResponses.take 1, decide (r.hdr = "done".toList) = false := by decide
  have hlast : decide (okResponses[1].hdr = "done".toList) = true := by decide
  have hfuel : smallLimits.msgLen + (okResponses.take 1).length < 30 := by decide
  exact ⟨h, receive_frames h hinit hlast "next".toList [] 0 30 hfuel⟩

/-! ## More rounds -/

theorem fillMessage_mono {n m br : ℕ} {message : List Char} {so : Socket} {x : List Char × Socket}
    (hnm : n ≤ m) (h : fillMessage K rd n message br so = .ok x) :
    fillMessage K rd m message br so = .ok x := by
  induction n generalizing m message br so with
  | zero => cases h
  | succ n ih =>
    obtain ⟨m, rfl⟩ : ∃ j, m = j + 1 := ⟨m - 1, by omega⟩
    rw [fillMessage] at h ⊢
    split_ifs at h ⊢
    · cases hread : so.read rd (K.msgLen - br) with
      | none => rw [hread] at h; cases h
      | some y =>
        obtain ⟨chunk, so⟩ := y
        rw [hread] at h
        dsimp only at h ⊢
        cases hcopy : memcpy message br chunk with
        | none => rw [hcopy] at h; cases h
        | some message =>
          rw [hcopy] at h
          exact ih (Nat.le_of_succ_le_succ hnm) h
    · exact h

theorem receive_mono {n m : ℕ} {isDone : List Char → Bool} {out : List Char} {so : Socket}
    {x : List Char × Socket} (hnm : n ≤ m) (h : receive K isDone rd n out so = .ok x) :
    receive K isDone rd m out so = .ok x := by
  induction n generalizing m out so with
  | zero => cases h
  | succ n ih =>
    obtain ⟨m, rfl⟩ : ∃ j, m = j + 1 := ⟨m - 1, by omega⟩
    rw [receive] at h ⊢
    cases hfill : fillMessage K rd (n + 1) (List.replicate K.msgLen NUL) 0 so with
    | error e => rw [hfill] at h; cases h
    | ok y =>
      rw [hfill] at h
      rw [fillMessage_mono hnm hfill]
      dsimp only at h ⊢
      split_ifs at h ⊢
      · exact h
      · exact ih (Nat.le_of_succ_le_succ hnm) h

end Dib
