import Dib.Wire.Delivery

/-!
# From the daemon's buffer back to a command line

`Delivery` follows a command line to the daemon. Here a buffer comes first, whoever wrote it, with
anything behind its end mark.

* `CommandBuffer`: a `pBuf` that holds strings as the client packs them;
* `decodeReads`: the positions of `pBuf` that the loop of `tb_socket_th` looks at;
* `decodeReads_framed`, `scan_self`, `CommandBuffer.take_eq`: reading, and packing what was read;
* **`reencode`**: packing the decoded vector gives the buffer back up to its end mark, which is the
  last character that was looked at.
-/

set_option autoImplicit false

namespace Dib

open CString Framing

variable {K : Limits} {pBuf : List Char} {ss : List (List Char)}

/-- A `pBuf` with strings that the daemon has room for, none of them an option of the client. -/
structure CommandBuffer (K : Limits) (pBuf : List Char) (ss : List (List Char)) : Prop
    extends Framed NUL pBuf ss, Limits.Fits K ss where
  length_eq : pBuf.length = K.TB_SOCK_MSG_MAX_LEN
  not_option : ∀ s ∈ ss, s ≠ optSocketType ∧ s ≠ optIpAddr

/-- The positions of `pBuf` that the loop `while (message.pBuf[pos] != 0)` looks at, as long as its
copies succeed: `strlen` and `memcpy` go up to a terminator, the test looks at one character. -/
def decodeReads (pBuf : List Char) : ℕ → ℕ → List ℕ
  | 0, _ => []
  | fuel + 1, pos =>
    match pBuf[pos]? with
    | none => [pos]
    | some c =>
      if c = NUL then [pos]
      else
        match strlen (pBuf.drop pos) with
        | none => List.range' pos (pBuf.length + 1 - pos)
        | some n => List.range' pos (n + 1) ++ decodeReads pBuf fuel (pos + (n + 1))

/-- On a framed buffer the loop looks at everything up to the end mark, in order, and stops. -/
theorem decodeReads_framed (pre : List Char) {buf : List Char} (h : Framed NUL buf ss) (fuel : ℕ)
    (hf : buf.length ≤ fuel) : decodeReads (pre ++ buf) (fuel + 1) pre.length =
      List.range' pre.length ((frame NUL ss).length + 1) := by
  induction ss generalizing pre buf fuel with
  | nil =>
    obtain ⟨rest, rfl⟩ := framed_nil.mp h
    simp [decodeReads]
  | cons s ss ih =>
    obtain ⟨hs, hz, buf', rfl, hbuf'⟩ := framed_cons.mp h
    obtain ⟨c, hc⟩ : ∃ c, (pre ++ (s ++ NUL :: buf'))[pre.length]? = some c ∧ c ≠ NUL := by
      obtain ⟨c, s', rfl⟩ := List.exists_cons_of_ne_nil hs
      exact ⟨c, by simp, fun e => hz (by simp [e])⟩
    obtain ⟨fuel, rfl⟩ : ∃ f, fuel = f + 1 := ⟨fuel - 1, by simp at hf; omega⟩
    have hlen : (s ++ NUL :: buf').length = s.length + 1 + buf'.length := by simp; omega
    have h1 := ih (pre ++ (s ++ [NUL])) hbuf' fuel (by omega)
    have h2 : (pre ++ (s ++ [NUL])).length = pre.length + (s.length + 1) := by simp
    rw [h2, List.append_assoc, List.append_assoc, List.singleton_append] at h1
    rw [decodeReads, hc.1]
    simp only [if_neg hc.2, List.drop_left, strlen_append_NUL hz, h1]
    rw [List.range'_append_1, frame_cons, List.length_append, List.length_cons]
    congr 1
    omega

theorem scan_self (h : ∀ s ∈ ss, s ≠ optSocketType ∧ s ≠ optIpAddr) : scan ss = (ss, .done) := by
  induction ss using scan.induct with
  | case1 => rfl
  | case2 a ho =>
    have ha := h a List.mem_cons_self
    exact absurd ho (not_or.mpr ha)
  | case3 a ho => rw [scan, if_neg ho]
  | case4 | case5 => exact absurd rfl (h _ List.mem_cons_self).1
  | case6 => exact absurd rfl (h _ List.mem_cons_self).2
  | case7 a v rest h1 h2 ih =>
    rw [scan, if_neg h1, if_neg h2, ih fun s hs => h s (List.mem_cons_of_mem _ hs)]

theorem CommandBuffer.take_eq (h : CommandBuffer K pBuf ss) :
    pBuf.take ((frame NUL ss).length + 1) = frame NUL ss ++ [NUL] := by
  obtain ⟨rest, rfl⟩ := h.split
  rw [List.append_cons, List.take_left' (by simp)]

theorem CommandBuffer.packed (h : CommandBuffer K pBuf ss) :
    ∃ c, packMessage K ss = .ok c ∧
      c.pBuf.take ((frame NUL ss).length + 1) = frame NUL ss ++ [NUL] := by
  have hscan := scan_self h.not_option
  have hlen : (frame NUL ss).length + 1 ≤ K.TB_SOCK_MSG_MAX_LEN := by
    obtain ⟨rest, hrest⟩ := h.split
    rw [← h.length_eq, hrest, List.length_append, List.length_cons]
    omega
  have hdone : (scan ss).2 = .done := by rw [hscan]
  obtain ⟨c, hc, hb⟩ := packMessage_ok (K := K) hdone (by rwa [packedLen, hscan, if_pos rfl])
  rw [hscan] at hb
  obtain ⟨m, hm⟩ : ∃ m, K.TB_SOCK_MSG_MAX_LEN - (frame NUL ss).length = m + 1 :=
    ⟨K.TB_SOCK_MSG_MAX_LEN - (frame NUL ss).length - 1, by omega⟩
  refine ⟨c, hc, ?_⟩
  rw [hb, hm, List.replicate_succ, List.append_cons, List.take_left' (by simp)]

/-- **Re-encoding undoes decoding.** The loop looks at the characters of a command buffer up to the
end mark and at none behind it, so cutting the rest off changes nothing; it counts the strings,
unless memory is missing for them, and packing what it stored gives these characters again. -/
theorem reencode (h : CommandBuffer K pBuf ss) (malloc : Malloc) :
    decodeReads pBuf (pBuf.length + 1) 0 = List.range ((frame NUL ss).length + 1) ∧
      (∀ argv, decodeLoop (pBuf.take ((frame NUL ss).length + 1)) (pBuf.length + 1) 0 0 argv =
        decodeLoop pBuf (pBuf.length + 1) 0 0 argv) ∧
      (Allocated malloc ss.length ↔ ∃ argv, decodeLoop pBuf (pBuf.length + 1) 0 0
        (alloc2dArray malloc K.TB_MAX_ARGS K.TB_STR_LEN) = .ok (ss.length, argv)) ∧
      ∀ argc argv, decodeLoop pBuf (pBuf.length + 1) 0 0
          (alloc2dArray malloc K.TB_MAX_ARGS K.TB_STR_LEN) = .ok (argc, argv) →
        argc = ss.length ∧ ∃ c, packMessage K (strings argc argv) = .ok c ∧
          c.pBuf.take ((frame NUL ss).length + 1) = pBuf.take ((frame NUL ss).length + 1) := by
  have hloop := decodeLoop_framed [] h.toFramed le_rfl 0
  rw [List.nil_append, List.length_nil, Nat.zero_add] at hloop
  refine ⟨?_, fun argv => ?_, ?_, fun argc argv hok => ?_⟩
  · have h1 := decodeReads_framed [] h.toFramed _ le_rfl
    rwa [List.nil_append, List.length_nil, ← List.range_eq_range'] at h1
  · -- the cut buffer is a framing of the same strings
    have hcut : Framed NUL (pBuf.take ((frame NUL ss).length + 1)) ss := by
      rw [h.take_eq]
      exact framed_frame h.ne_nil h.notMem []
    have h1 := decodeLoop_framed [] hcut (List.length_take_le' _ _) 0 argv
    rw [List.nil_append, List.length_nil, Nat.zero_add] at h1
    rw [h1, hloop]
  · have hfits : K.Fits ss := h.toFits
    rw [hloop, ← and_iff_right hfits (b := Allocated malloc ss.length), ← storeAll_alloc_iff]
    cases storeAll (alloc2dArray malloc K.TB_MAX_ARGS K.TB_STR_LEN) 0 ss <;> simp
  · have hstore := hok
    rw [hloop] at hstore
    cases hs : storeAll (alloc2dArray malloc K.TB_MAX_ARGS K.TB_STR_LEN) 0 ss with
    | error e => simp [hs] at hstore
    | ok argv' =>
      rw [hs] at hstore
      obtain ⟨rfl, rfl⟩ := Prod.mk.inj (Except.ok.inj hstore)
      have hstrings : strings ss.length argv' = ss := by
        have h1 := strings_storeAll h.notMem hs
        rw [Nat.zero_add] at h1
        simpa [strings] using h1
      rw [hstrings, h.take_eq]
      exact ⟨rfl, h.packed⟩

/-- `run x`, with leftovers behind the end mark. -/
def runBuffer : List Char := "run\x00x\x00\x00leftovers".toList

/-- It is looked at up to the end mark, and what comes of it is packed as it was. -/
theorem reencode_runBuffer :
    decodeReads runBuffer 17 0 = List.range 7 ∧ ∃ argv,
      decodeLoop runBuffer 17 0 0 (alloc2dArray mallocZero smallLimits.TB_MAX_ARGS
          smallLimits.TB_STR_LEN) = .ok (2, argv) ∧
        decodeLoop "run\x00x\x00\x00".toList 17 0 0 (alloc2dArray mallocZero
          smallLimits.TB_MAX_ARGS smallLimits.TB_STR_LEN) = .ok (2, argv) ∧
        ∃ c, packMessage smallLimits (strings 2 argv) = .ok c ∧
          c.pBuf.take 7 = "run\x00x\x00\x00".toList := by
  have h : CommandBuffer smallLimits runBuffer ["run".toList, "x".toList] :=
    ⟨⟨by decide, by decide, "leftovers".toList, by decide⟩, ⟨by decide, by decide⟩, by decide,
      by decide⟩
  obtain ⟨hreads, hcut, halloc, hpack⟩ := reencode h mallocZero
  obtain ⟨argv, hargv⟩ := halloc.mp (by decide)
  exact ⟨hreads, argv, hargv, (hcut _).trans hargv, (hpack 2 argv hargv).2⟩

end Dib
