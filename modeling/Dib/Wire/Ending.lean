import Dib.Wire.Receive

/-!
# The client: the end of the response

At the end of the stream `read` returns 0, and the loop that fills `message` goes on from where it
was.

* `Limits.frame`, `Limits.Printable`, `DoneAt`: the messages of a stream, and one that ends the
  outer loop;
* `fillMessage_ok`: what is read when a message was filled;
* **`receive_ends_iff`**: the client ends if and only if a whole done message arrives;
* `receive_nil`: without any message it reads for ever.
-/

set_option autoImplicit false

namespace Dib

open CString

/-! ## Statement -/

/-- The message with the number `i` in the stream, which may be cut. -/
def Limits.frame (K : Limits) (stream : List Char) (i : ℕ) : List Char :=
  (stream.drop (i * K.msgLen)).take K.msgLen

/-- Its `pBuf` has a terminator, which `printf` looks for. -/
def Limits.Printable (K : Limits) (frame : List Char) : Prop := NUL ∈ frame.drop K.hdrLen

/-- The message `i` has arrived as a whole and is of type done, and `pBuf` has a terminator in it
and in all messages before. -/
structure DoneAt (K : Limits) (isDone : List Char → Bool) (stream : List Char) (i : ℕ) : Prop where
  length_le : (i + 1) * K.msgLen ≤ stream.length
  done : isDone ((K.frame stream i).take K.hdrLen) = true
  printable : ∀ j ≤ i, K.Printable (K.frame stream j)

/-- **A whole done message arrives.** -/
def DoneArrives (K : Limits) (isDone : List Char → Bool) (stream : List Char) : Prop :=
  ∃ i, DoneAt K isDone stream i

/-! ## Messages of a stream -/

variable {K : Limits} {rd : Reads} {isDone : List Char → Bool} {so so' : Socket}
  {stream message message' out : List Char} {i br fuel : ℕ}

theorem frame_drop (K : Limits) (stream : List Char) (i : ℕ) :
    K.frame (stream.drop K.msgLen) i = K.frame stream (i + 1) := by
  rw [Limits.frame, Limits.frame, List.drop_drop, Nat.succ_mul, Nat.add_comm]

theorem frame_zero (K : Limits) (stream : List Char) : K.frame stream 0 = stream.take K.msgLen := by
  rw [Limits.frame, Nat.zero_mul, List.drop_zero]

theorem hdrLen_le (K : Limits) : K.hdrLen ≤ K.msgLen := Nat.le_add_right _ _

theorem take_hdrLen (K : Limits) (stream : List Char) :
    (stream.take K.msgLen).take K.hdrLen = stream.take K.hdrLen := by
  rw [List.take_take, min_eq_left (hdrLen_le K)]

theorem doneAt_zero : DoneAt K isDone stream 0 ↔ K.msgLen ≤ stream.length ∧
    K.Printable (stream.take K.msgLen) ∧ isDone (stream.take K.hdrLen) = true := by
  constructor
  · rintro ⟨hlen, hdone, hprint⟩
    have hzero := hprint 0 le_rfl
    rw [frame_zero] at hdone hzero
    rw [take_hdrLen] at hdone
    exact ⟨by omega, hzero, hdone⟩
  · rintro ⟨hlen, hzero, hdone⟩
    refine ⟨by omega, ?_, fun j hj => ?_⟩
    · rw [frame_zero, take_hdrLen]
      exact hdone
    · obtain rfl := Nat.le_zero.mp hj
      rw [frame_zero]
      exact hzero

theorem doneAt_succ : DoneAt K isDone stream (i + 1) ↔ K.msgLen ≤ stream.length ∧
    K.Printable (stream.take K.msgLen) ∧ DoneAt K isDone (stream.drop K.msgLen) i := by
  constructor
  · rintro ⟨hlen, hdone, hprint⟩
    have hzero := hprint 0 (Nat.zero_le _)
    rw [frame_zero] at hzero
    rw [Nat.succ_mul] at hlen
    refine ⟨by omega, hzero, ?_, ?_, fun j hj => ?_⟩
    · rw [List.length_drop]
      omega
    · rw [frame_drop]
      exact hdone
    · rw [frame_drop]
      exact hprint (j + 1) (Nat.succ_le_succ hj)
  · rintro ⟨hlen, hzero, hlen', hdone, hprint⟩
    rw [List.length_drop] at hlen'
    refine ⟨?_, ?_, fun j hj => ?_⟩
    · rw [Nat.succ_mul]
      omega
    · rw [← frame_drop]
      exact hdone
    · cases j with
      | zero =>
        rw [frame_zero]
        exact hzero
      | succ j =>
        rw [← frame_drop]
        exact hprint j (Nat.le_of_succ_le_succ hj)

/-! ## One message -/

/-- **A message that was filled** is made of what was there and of the stream, which had as much. -/
theorem fillMessage_ok (hlen : message.length = K.msgLen) (hbr : br ≤ K.msgLen)
    (h : fillMessage K rd fuel message br so = .ok (message', so')) :
    K.msgLen - br ≤ so.stream.length ∧
      message' = message.take br ++ so.stream.take (K.msgLen - br) ∧
      so'.stream = so.stream.drop (K.msgLen - br) := by
  induction fuel generalizing message br so with
  | zero => cases h
  | succ fuel ih =>
    rw [fillMessage] at h
    split at h
    · next hlt =>
      split at h
      · cases h
      next chunk so₁ hread =>
      obtain ⟨n, -, hn⟩ := Option.map_eq_some_iff.mp hread
      obtain ⟨rfl, rfl⟩ := Prod.mk.inj hn
      split at h
      · cases h
      next message₁ hcopy =>
      obtain ⟨hroom, rfl⟩ := memcpy_eq_some_iff.mp hcopy
      have hchunk := List.length_take_le (min n (K.msgLen - br)) so.stream
      rw [← List.take_append_drop (min n (K.msgLen - br)) so.stream]
      generalize so.stream.take (min n (K.msgLen - br)) = chunk at *
      generalize so.stream.drop (min n (K.msgLen - br)) = rest at *
      have hle : chunk.length ≤ K.msgLen - br := hchunk.trans (min_le_right _ _)
      have hpre : (message.take br ++ chunk).length = br + chunk.length := by
        rw [List.length_append, List.length_take]
        omega
      have hcopied : (message.take br ++ chunk ++ message.drop (br + chunk.length)).length =
          K.msgLen := by
        rw [List.length_append, hpre, List.length_drop]
        omega
      obtain ⟨h1, h2, h3⟩ := ih hcopied (by omega) h
      dsimp only at h1 h3
      refine ⟨?_, ?_, ?_⟩
      · rw [List.length_append]
        omega
      · rw [h2, List.take_left' hpre, List.append_assoc, List.take_append,
          List.take_of_length_le hle, Nat.sub_sub]
      · rw [h3, List.drop_append, List.drop_of_length_le hle, List.nil_append, Nat.sub_sub]
    · next hge =>
      obtain ⟨rfl, rfl⟩ := Prod.mk.inj (Except.ok.inj h)
      have hzero : K.msgLen - br = 0 := by omega
      rw [hzero, List.take_zero, List.append_nil, List.drop_zero, List.take_of_length_le (by omega)]
      exact ⟨Nat.zero_le _, rfl, rfl⟩

theorem exists_response {frame : List Char} (hlen : frame.length = K.msgLen)
    (hprint : K.Printable frame) :
    ∃ r : Response K, r.bytes = frame ∧ r.hdr = frame.take K.hdrLen := by
  obtain ⟨s, t, hs, hnot⟩ := List.eq_append_cons_of_mem hprint
  have hhdr : (frame.take K.hdrLen).length = K.hdrLen := by
    rw [List.length_take, hlen, Limits.msgLen]
    omega
  have hpBuf : (s ++ NUL :: t).length = K.TB_SOCK_MSG_MAX_LEN := by
    rw [← hs, List.length_drop, hlen, Limits.msgLen]
    omega
  refine ⟨⟨frame.take K.hdrLen, s, t, hhdr, hnot, hpBuf⟩, ?_, rfl⟩
  show frame.take K.hdrLen ++ (s ++ NUL :: t) = frame
  rw [← hs, List.take_append_drop]

/-! ## The client -/

theorem doneArrives_of_receive (h : receive K isDone rd fuel out so = .ok (message, so')) :
    DoneArrives K isDone so.stream := by
  induction fuel generalizing out so with
  | zero => cases h
  | succ fuel ih =>
    rw [receive] at h
    split at h
    · cases h
    next message₁ so₁ hfill =>
    obtain ⟨hlen, rfl, hso⟩ := fillMessage_ok List.length_replicate (Nat.zero_le _) hfill
    rw [Nat.sub_zero] at hlen hso h
    rw [List.take_zero, List.nil_append] at h
    by_cases hprint : K.Printable (so.stream.take K.msgLen)
    · split at h
      · cases h
      by_cases hdone : isDone (so.stream.take K.hdrLen) = true
      · exact ⟨0, doneAt_zero.mpr ⟨hlen, hprint, hdone⟩⟩
      · rw [take_hdrLen, if_neg hdone] at h
        obtain ⟨i, hi⟩ := ih h
        rw [hso] at hi
        exact ⟨i + 1, doneAt_succ.mpr ⟨hlen, hprint, hi⟩⟩
    · rw [if_pos (strlen_eq_none_iff.mpr hprint)] at h
      cases h

theorem receive_of_doneAt (h : Progress rd) (hi : DoneAt K isDone stream i) (out : List Char)
    (k : ℕ) (hf : K.msgLen + i < fuel) :
    ∃ out' so', receive K isDone rd fuel out ⟨stream, k⟩ = .ok (out', so') := by
  induction i generalizing stream out k fuel with
  | zero =>
    obtain ⟨hlen, hprint, hdone⟩ := doneAt_zero.mp hi
    obtain ⟨r, hr, hhdr⟩ := exists_response (by rw [List.length_take]; omega) hprint
    obtain ⟨fuel, rfl⟩ := Nat.exists_eq_succ_of_ne_zero (Nat.ne_zero_of_lt hf)
    obtain ⟨k', hk'⟩ :=
      receive_response h isDone r (stream.drop K.msgLen) out fuel (by omega) k
    rw [hr, List.take_append_drop, hhdr, take_hdrLen, if_pos hdone] at hk'
    exact ⟨_, _, hk'⟩
  | succ i ih =>
    obtain ⟨hlen, hprint, hi⟩ := doneAt_succ.mp hi
    obtain ⟨r, hr, hhdr⟩ := exists_response (by rw [List.length_take]; omega) hprint
    obtain ⟨fuel, rfl⟩ := Nat.exists_eq_succ_of_ne_zero (Nat.ne_zero_of_lt hf)
    obtain ⟨k', hk'⟩ :=
      receive_response h isDone r (stream.drop K.msgLen) out fuel (by omega) k
    rw [hr, List.take_append_drop] at hk'
    rw [hk']
    split
    · exact ⟨_, _, rfl⟩
    · exact ih hi _ _ (by omega)

/-- **The client ends if and only if a whole done message arrives.** The daemon sends `stream`, and
then the connection is closed. -/
theorem receive_ends_iff (h : Progress rd) (isDone : List Char → Bool) (stream : List Char) :
    (∃ fuel out so, receive K isDone rd fuel [] ⟨stream, 0⟩ = .ok (out, so)) ↔
      DoneArrives K isDone stream :=
  ⟨fun ⟨_, _, _, hend⟩ => doneArrives_of_receive hend,
    fun ⟨i, hi⟩ => ⟨K.msgLen + i + 1, receive_of_doneAt h hi [] 0 (Nat.lt_succ_self _)⟩⟩

/-- The two responses, and a third that is cut: the second is done. -/
theorem receive_ends_iff_okResponses :
    ∃ fuel out so, receive smallLimits (fun hdr => hdr = "done".toList) (fun _ => some 7) fuel []
      ⟨okResponses.flatMap Response.bytes ++ "0rsp".toList, 0⟩ = .ok (out, so) := by
  have h : Progress fun _ => some 7 := fun _ => ⟨7, rfl, by decide⟩
  have hdone : DoneAt smallLimits (fun hdr => hdr = "done".toList)
      (okResponses.flatMap Response.bytes ++ "0rsp".toList) 1 :=
    ⟨by decide, by decide, by unfold Limits.Printable; decide⟩
  exact (receive_ends_iff h _ _).mpr ⟨1, hdone⟩

/-! ## The end of the stream -/

theorem fillMessage_nil (h : Progress rd) (hlen : message.length = K.msgLen) (hbr : br < K.msgLen)
    (k : ℕ) : fillMessage K rd fuel message br ⟨[], k⟩ = .error .fuel := by
  induction fuel generalizing k with
  | zero => rfl
  | succ fuel ih =>
    obtain ⟨n, hn, -⟩ := h k
    have hread : Socket.read ⟨[], k⟩ rd (K.msgLen - br) = some ([], ⟨[], k + 1⟩) := by
      rw [Socket.read, hn, Option.map_some, List.take_nil, List.drop_nil]
    have hcopy : memcpy message br [] = some message := by
      rw [memcpy_eq_some_iff]
      refine ⟨by rw [hlen]; exact hbr.le, ?_⟩
      rw [List.append_nil, List.length_nil, Nat.add_zero, List.take_append_drop]
    rw [fillMessage, if_pos hbr, hread]
    simp only [hcopy, List.length_nil, Nat.add_zero]
    exact ih (k + 1)

theorem receive_nil (h : Progress rd) (isDone : List Char → Bool) (fuel : ℕ) (k : ℕ) :
    receive K isDone rd fuel out ⟨[], k⟩ = .error .fuel := by
  have hpos : 0 < K.msgLen := Nat.add_pos_right _ K.msgMaxLen_pos
  cases fuel with
  | zero => rfl
  | succ fuel => rw [receive, fillMessage_nil h List.length_replicate hpos]

/-- The daemon closes the connection without a reply, and the client reads for ever. -/
theorem no_reply_never_ends :
    (∀ fuel, receive smallLimits (fun hdr => hdr = "done".toList) (fun _ => some 7) fuel []
      ⟨[], 0⟩ = .error .fuel) ∧
    ¬ ∀ (K : Limits) (rd : Reads) (isDone : List Char → Bool) (stream : List Char), Progress rd →
      ∃ fuel out so, receive K isDone rd fuel [] ⟨stream, 0⟩ = .ok (out, so) := by
  have h : Progress fun _ => some 7 := fun _ => ⟨7, rfl, by decide⟩
  refine ⟨fun fuel => receive_nil h _ fuel 0, fun hall => ?_⟩
  obtain ⟨fuel, out, so, hend⟩ := hall smallLimits _ (fun hdr => hdr = "done".toList) [] h
  rw [receive_nil h] at hend
  cases hend

end Dib
