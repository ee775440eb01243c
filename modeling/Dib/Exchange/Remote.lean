import Dib.Exchange.Answer
import Dib.Wire.Receive

/-!
# A command of the client, run by the daemon

`dibc` packs its arguments, `testboxd` reads and decodes them, runs `cmd_parse` on them and sends
what it prints and its answer back, and `dibc` prints what it receives.

* `MsgType`, `Sender`: `tb_socket_send_data`, with what `dibc` relies on;
* `Payload`, `receive_sent`: strings that are sent are printed, in order;
* `Link`, `served`, `remote`: the connection, the daemon's side of it, and the whole exchange;
* **`remote_eq`**: the exchange is the same as a call of `cmd_parse` with the arguments of the
  client: it prints what the command prints, its answer, and a newline.
-/

set_option autoImplicit false

namespace Dib

open CString Framing

/-! ## Sending -/

/-- `tb_sock_msg_rsp` and `tb_sock_msg_done`. -/
inductive MsgType where
  | rsp
  | done
  deriving DecidableEq, Repr

/-- A string that a message has room for, in an array. -/
structure Payload (K : Limits) (data : List Char) : Prop where
  terminated : NUL ∈ data
  length_le : data.length ≤ K.TB_SOCK_MSG_MAX_LEN

/-- `tb_socket_send_data`, as the characters that it writes to the socket of the client: one
`tb_socket_msg_t` of the given type with the string in `pBuf`. -/
structure Sender (K : Limits) where
  /-- The type `tb_sock_msg_done`, told from a header. -/
  isDone : List Char → Bool
  tb_socket_send_data : MsgType → List Char → List Char
  sends : ∀ type data, Payload K data → ∃ r : Response K,
    tb_socket_send_data type data = r.bytes ∧ r.payload = cstr data ∧
      isDone r.hdr = decide (type = .done)

variable {K : Limits} {rd : Reads}

theorem payload_concat {t : List Char} (h : t.length < K.TB_SOCK_MSG_MAX_LEN) :
    Payload K (t ++ [NUL]) :=
  ⟨by simp, by rw [List.length_append]; exact h⟩

/-- **What is sent is printed**, in order, up to the done message. -/
theorem receive_sent (hrd : Progress rd) (S : Sender K) {datas : List (List Char)}
    (hdatas : ∀ d ∈ datas, Payload K d) {last : List Char} (hlast : Payload K last)
    (b out : List Char) (k fuel : ℕ) (hf : K.msgLen + datas.length < fuel) :
    ∃ k', receive K S.isDone rd fuel out
        ⟨datas.flatMap (S.tb_socket_send_data .rsp) ++
          (S.tb_socket_send_data .done last ++ b), k⟩ =
      .ok (out ++ datas.flatMap cstr ++ cstr last ++ ['\n'], ⟨b, k'⟩) := by
  induction datas generalizing out k fuel with
  | nil =>
    obtain ⟨fuel, rfl⟩ := Nat.exists_eq_succ_of_ne_zero (Nat.ne_zero_of_lt hf)
    obtain ⟨r, hr, hpayload, hdone⟩ := S.sends .done last hlast
    obtain ⟨k', hk'⟩ := receive_response hrd S.isDone r b out fuel (by omega) k
    rw [hdone, if_pos (by decide), hpayload] at hk'
    exact ⟨k', by simpa [hr] using hk'⟩
  | cons d datas ih =>
    obtain ⟨fuel, rfl⟩ := Nat.exists_eq_succ_of_ne_zero (Nat.ne_zero_of_lt hf)
    rw [List.length_cons] at hf
    obtain ⟨r, hr, hpayload, hdone⟩ := S.sends .rsp d (hdatas d List.mem_cons_self)
    obtain ⟨k₁, hk₁⟩ := receive_response hrd S.isDone r
      (datas.flatMap (S.tb_socket_send_data .rsp) ++ (S.tb_socket_send_data .done last ++ b)) out
      fuel (by omega) k
    obtain ⟨k', hk'⟩ := ih (fun d hd => hdatas d (List.mem_cons_of_mem _ hd)) (out ++ cstr d) k₁
      fuel (by omega)
    refine ⟨k', ?_⟩
    rw [hdone, if_neg (by decide), hpayload, hk'] at hk₁
    simpa [hr] using hk₁

/-! ## The exchange -/

/-- The connection of one client. -/
structure Link (K : Limits) extends Sender K where
  /-- The header of the client's message. -/
  hdr : List Char
  hdr_length : hdr.length = K.hdrLen
  /-- What the one `read` of the daemon returns. -/
  read : Option ℕ
  /-- What the reads of the client return. -/
  reads : Reads
  malloc : Malloc
  /-- The string in the row behind the arguments. -/
  beyond : List Char
  newsockfd : ℤ

/-- `message.pBuf` of the daemon behind its `read`. -/
def Link.pBuf (L : Link K) (message : List Char) : List Char :=
  (fill NUL message (L.read.getD 0)).drop K.hdrLen

/-- What `tb_socket_th` writes to its socket, for one message; `none` where it faults. -/
def served (L : Link K) (V : ServeBox) (message : List Char) : Option (List Char) :=
  match tbSocketTh K L.malloc message L.read with
  | .drained => some []
  | .fault _ => none
  | .cmdParse argv =>
    match cmdAnswer V argv L.beyond L.newsockfd with
    | none => none
    | some answer => (replyData K (L.pBuf message) answer).map fun data =>
        (V.prints argv).flatMap (L.tb_socket_send_data .rsp) ++ L.tb_socket_send_data .done data

/-- `dibc` with these arguments: what it prints. -/
def remote (L : Link K) (V : ServeBox) (fuel : ℕ) (argv : List (List Char)) : Option (List Char) :=
  match packMessage K argv with
  | .error _ => none
  | .ok c =>
    match served L V (L.hdr ++ c.pBuf) with
    | none => none
    | some stream =>
      match receive K L.isDone L.reads fuel [] ⟨stream, 0⟩ with
      | .error _ => none
      | .ok (out, _) => some out

/-- **The command arrives**: it can be sent, none of its arguments is empty, the daemon reads it up
to the last character of its last argument, and has memory for its arguments. -/
structure Arrives (L : Link K) (argv : List (List Char)) : Prop extends Sendable K argv where
  ne_nil : ∀ a ∈ (scan argv).1, a ≠ []
  read : ∃ n, L.read = some n ∧ (frame NUL (scan argv).1).length - 1 ≤ n - K.hdrLen
  allocated : Allocated L.malloc (scan argv).1.length

variable {L : Link K} {V : ServeBox} {argv : List (List Char)}

theorem Arrives.tbSocketTh_eq (h : Arrives L argv) {c : Client}
    (hc : packMessage K argv = .ok c) :
    tbSocketTh K L.malloc (L.hdr ++ c.pBuf) L.read = .cmdParse (scan argv).1 := by
  obtain ⟨n, hn, hlen⟩ := h.read
  obtain ⟨m, hm, hb⟩ := pBuf_of_packMessage hc
  have hz : ∀ a ∈ (scan argv).1, NUL ∉ a := fun a ha => h.notMem a (mem_of_mem_scan ha)
  have hdecode : decode K L.malloc (fill NUL c.pBuf (n - K.hdrLen)) = .ok (scan argv).1 := by
    rw [decode_ok_iff, hb]
    exact ⟨(framed_fill_iff h.ne_nil hz hm _).mpr hlen, h.fits, h.allocated⟩
  rw [hn, tbSocketTh, ← L.hdr_length, drop_fill_append, L.hdr_length, hdecode]

theorem length_pBuf_of_packMessage {c : Client} (hc : packMessage K argv = .ok c) :
    c.pBuf.length = K.TB_SOCK_MSG_MAX_LEN := by
  obtain ⟨hd, hfit⟩ := packed_of_packMessage hc
  obtain ⟨c', hc', hb⟩ := packMessage_ok hd hfit
  obtain rfl := Except.ok.inj (hc.symm.trans hc')
  rw [packedLen, if_pos hd] at hfit
  rw [hb, List.length_append, List.length_replicate]
  omega

theorem Arrives.served_eq (h : Arrives L argv) (hstr : 0 < V.TB_STR_LEN)
    (hsize : V.TB_STR_LEN + 29 ≤ K.TB_SOCK_MSG_MAX_LEN) {c : Client}
    (hc : packMessage K argv = .ok c) :
    served L V (L.hdr ++ c.pBuf) =
      (cmdAnswer V (scan argv).1 L.beyond L.newsockfd).map fun answer =>
        (V.prints (scan argv).1).flatMap (L.tb_socket_send_data .rsp) ++
          L.tb_socket_send_data .done (answer ++ [NUL]) := by
  have hlen : (L.pBuf (L.hdr ++ c.pBuf)).length = K.TB_SOCK_MSG_MAX_LEN := by
    rw [Link.pBuf, List.length_drop, length_fill, List.length_append, L.hdr_length,
      length_pBuf_of_packMessage hc, Nat.add_sub_cancel_left]
  rw [served, h.tbSocketTh_eq hc]
  dsimp only
  cases ha : cmdAnswer V (scan argv).1 L.beyond L.newsockfd with
  | none => rfl
  | some answer =>
    have hprint : Printable (L.pBuf (L.hdr ++ c.pBuf)).length answer :=
      printable_cmdAnswer hstr (by rwa [hlen]) ha
    simp only [replyData_eq hprint, Option.map_some]

/-- **A command that is answered**: the client prints what the command prints and its answer. -/
theorem Arrives.remote_of_answer (h : Arrives L argv) (hrd : Progress L.reads)
    (hstr : 0 < V.TB_STR_LEN) (hsize : V.TB_STR_LEN + 29 ≤ K.TB_SOCK_MSG_MAX_LEN)
    (hprints : ∀ data ∈ V.prints (scan argv).1, Payload K data) {answer : List Char}
    (ha : cmdAnswer V (scan argv).1 L.beyond L.newsockfd = some answer) {fuel : ℕ}
    (hf : K.msgLen + (V.prints (scan argv).1).length < fuel) :
    remote L V fuel argv = some ((V.prints (scan argv).1).flatMap cstr ++ answer ++ ['\n']) := by
  obtain ⟨c, hc, -⟩ := packMessage_ok h.complete h.packedLen_le
  have hprint := printable_cmdAnswer hstr hsize ha
  obtain ⟨k', hk'⟩ := receive_sent hrd L.toSender hprints (payload_concat hprint.lt) [] [] 0 fuel hf
  rw [cstr_append_NUL hprint.notMem, List.append_nil, List.nil_append] at hk'
  simp only [remote, hc, h.served_eq hstr hsize hc, ha, Option.map_some, hk']

/-- **A command of the client is a call of `cmd_parse`.** However the reads of the client cut what
the daemon sends, the client prints what the command prints, then its answer and a newline, and
nothing else; it prints nothing exactly where `cmd_parse` faults. -/
theorem remote_eq (h : Arrives L argv) (hrd : Progress L.reads) (hstr : 0 < V.TB_STR_LEN)
    (hsize : V.TB_STR_LEN + 29 ≤ K.TB_SOCK_MSG_MAX_LEN)
    (hprints : ∀ data ∈ V.prints (scan argv).1, Payload K data) :
    ∃ rounds, ∀ fuel, rounds ≤ fuel → remote L V fuel argv =
      (cmdAnswer V (scan argv).1 L.beyond L.newsockfd).map fun answer =>
        (V.prints (scan argv).1).flatMap cstr ++ answer ++ ['\n'] := by
  refine ⟨K.msgLen + (V.prints (scan argv).1).length + 1, fun fuel hf => ?_⟩
  cases ha : cmdAnswer V (scan argv).1 L.beyond L.newsockfd with
  | none =>
    obtain ⟨c, hc, -⟩ := packMessage_ok h.complete h.packedLen_le
    simp only [remote, hc, h.served_eq hstr hsize hc, ha, Option.map_none]
  | some answer => exact h.remote_of_answer hrd hstr hsize hprints ha hf

/-! ## A test that is waited for -/

/-- The sizes of `passBox`, with messages that its verdicts fit into. -/
def boxLimits : Limits := ⟨4, 64, 3, 16, Nat.succ_pos _, Nat.succ_pos _, Nat.succ_pos _⟩

/-- The header of each type, for headers of four characters. -/
def msgHdr : MsgType → List Char
  | .rsp => "0rsp".toList
  | .done => "done".toList

/-- The string, and zeros behind it. -/
def plainSender : Sender boxLimits where
  isDone hdr := hdr = msgHdr .done
  tb_socket_send_data type data := msgHdr type ++ (data ++ List.replicate (64 - data.length) NUL)
  sends type data h := by
    obtain ⟨s, t, rfl, hs⟩ := List.eq_append_cons_of_mem h.terminated
    have hlen : (s ++ NUL :: t).length ≤ 64 := h.length_le
    refine ⟨⟨msgHdr type, s, t ++ List.replicate (64 - (s ++ NUL :: t).length) NUL, ?_, hs, ?_⟩,
      ?_, (cstr_append_NUL hs t).symm, ?_⟩
    · cases type <;> rfl
    · show _ = 64
      simp only [List.length_append, List.length_cons, List.length_replicate] at hlen ⊢
      omega
    · simp [Response.bytes]
    · cases type <;> rfl

def plainLink : Link boxLimits where
  toSender := plainSender
  hdr := "0cmd".toList
  hdr_length := rfl
  read := some 68
  reads _ := some 7
  malloc := mallocZero
  beyond := []
  newsockfd := 4

/-- `dibc t --wait` prints what the test prints, and its verdict. -/
theorem remote_eq_waitForT : ∃ rounds, ∀ fuel, rounds ≤ fuel →
    remote plainLink passBox fuel waitForT = some "run\nt :: TESTBOX_PASS\n".toList := by
  have harrives : Arrives plainLink waitForT :=
    { notMem := by decide
      complete := by decide
      packedLen_le := by decide
      fits := ⟨by decide, by decide⟩
      ne_nil := by decide
      read := ⟨68, rfl, by decide⟩
      allocated := by decide }
  have hreads : Progress plainLink.reads := fun _ => ⟨7, rfl, by decide⟩
  have hanswer : cmdAnswer passBox (scan waitForT).1 [] 4 = some "t :: TESTBOX_PASS".toList := by
    decide
  obtain ⟨rounds, h⟩ := remote_eq harrives hreads (V := passBox) (by decide) (by decide)
    fun _ hdata => List.mem_singleton.mp hdata ▸ ⟨by decide, by decide⟩
  refine ⟨rounds, fun fuel hf => (h fuel hf).trans ?_⟩
  show (cmdAnswer passBox (scan waitForT).1 [] 4).map _ = _
  rw [hanswer]
  rfl

end Dib
