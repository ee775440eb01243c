import Dib.Wire.Client
import Dib.Wire.Daemon

/-!
# From the client's arguments to the daemon's

* `Delivered`, **`delivered_iff`**: the buffer that the client packs decodes to the client's
  arguments exactly when none of them is empty: an empty string is the end mark;
* `tbSocketTh`, `Intact`, **`intact_iff`**: the daemon reads once, so the command it parses is the
  client's exactly when that read reached the last character of the last argument (and the buffer
  decodes to the client's arguments at all);
* **`accesses_inBounds`**: when packing and decoding stay inside their buffers.
-/

set_option autoImplicit false

namespace Dib

open CString Framing

variable {K : Limits} {argv : List (List Char)}

theorem mem_of_mem_scan {a : List Char} (h : a ∈ (scan argv).1) : a ∈ argv := by
  induction argv using scan.induct with
  | case1 => simp [scan] at h
  | case2 b hb => simp [scan, hb] at h
  | case3 b hb => simpa [scan, hb] using h
  | case4 v rest hv ih => simp [ih (by simpa [scan, hv] using h)]
  | case5 v rest hv => simp [scan, hv] at h
  | case6 v rest hb ih => simp [ih (by simpa [scan, hb] using h)]
  | case7 b v rest h1 h2 ih =>
    rw [scan, if_neg h1, if_neg h2] at h
    rcases List.mem_cons.mp h with rfl | h
    · simp
    · exact List.mem_cons_of_mem _ (ih h)

theorem packed_of_packMessage {c : Client} (h : packMessage K argv = .ok c) :
    (scan argv).2 = .done ∧ packedLen argv ≤ K.TB_SOCK_MSG_MAX_LEN := by
  have hlen : packedLen argv ≤ K.TB_SOCK_MSG_MAX_LEN := by
    by_contra hlt
    rw [(packMessage_overflow_iff K argv).mpr (by omega)] at h
    cases h
  refine ⟨?_, hlen⟩
  have h1 := packLoop_spec argv (packed_start K)
  have h2 : (frame NUL (scan argv).1).length ≤ K.TB_SOCK_MSG_MAX_LEN := by
    unfold packedLen at hlen
    omega
  rw [PackResult, if_pos (by simpa using h2)] at h1
  split at h1
  · next hd => exact hd
  · simp [packMessage, h1] at h
  · simp [packMessage, h1] at h

theorem pBuf_of_packMessage {c : Client} (h : packMessage K argv = .ok c) :
    ∃ m, 0 < m ∧ c.pBuf = frame NUL (scan argv).1 ++ List.replicate m NUL := by
  obtain ⟨hd, hfit⟩ := packed_of_packMessage h
  obtain ⟨c', hc', hb⟩ := packMessage_ok hd hfit
  obtain rfl := Except.ok.inj (h.symm.trans hc')
  rw [packedLen, if_pos hd] at hfit
  exact ⟨_, by omega, hb⟩

/-! ## Delivery -/

/-- A command line as the client accepts it and the daemon has room for. -/
structure Sendable (K : Limits) (argv : List (List Char)) : Prop where
  notMem : ∀ a ∈ argv, NUL ∉ a
  complete : (scan argv).2 = .done
  packedLen_le : packedLen argv ≤ K.TB_SOCK_MSG_MAX_LEN
  fits : K.Fits (scan argv).1

/-- What the client packs is decoded as its arguments without the pairs it keeps for itself. -/
def Delivered (K : Limits) (malloc : Malloc) (argv : List (List Char)) : Prop :=
  ∃ c, packMessage K argv = .ok c ∧ decode K malloc c.pBuf = .ok (scan argv).1

/-- **Delivery.** A command line arrives exactly when none of its arguments is empty and the daemon
has the memory for them. -/
theorem delivered_iff (h : Sendable K argv) (malloc : Malloc) :
    Delivered K malloc argv ↔
      (∀ a ∈ (scan argv).1, a ≠ []) ∧ Allocated malloc (scan argv).1.length := by
  obtain ⟨c, hc, -⟩ := packMessage_ok h.complete h.packedLen_le
  obtain ⟨m, hm, hb⟩ := pBuf_of_packMessage hc
  have h1 : Delivered K malloc argv ↔ decode K malloc c.pBuf = .ok (scan argv).1 :=
    ⟨fun ⟨c', hc', hd⟩ => by rwa [Except.ok.inj (hc.symm.trans hc')], fun hd => ⟨c, hc, hd⟩⟩
  obtain ⟨m, rfl⟩ := Nat.exists_eq_succ_of_ne_zero hm.ne'
  rw [List.replicate_succ] at hb
  rw [h1, decode_ok_iff, hb]
  constructor
  · rintro ⟨hf, -, ha⟩
    exact ⟨hf.ne_nil, ha⟩
  · rintro ⟨hne, ha⟩
    exact ⟨framed_frame hne (fun a hs => h.notMem a (mem_of_mem_scan hs)) _, h.fits, ha⟩

/-- Small sizes, large enough for the command lines below. -/
def smallLimits : Limits := ⟨4, 16, 4, 8, by decide, by decide, by decide⟩

/-- A `malloc` that never fails. -/
def mallocZero : Malloc := fun _ => some fun _ => NUL

/-- `dibc run x` arrives. -/
theorem delivered_run : Sendable smallLimits ["dibc".toList, "run".toList, "x".toList] ∧
    Delivered smallLimits mallocZero ["dibc".toList, "run".toList, "x".toList] := by
  have h : Sendable smallLimits ["dibc".toList, "run".toList, "x".toList] :=
    ⟨by decide, by decide, by decide, ⟨by decide, by decide⟩⟩
  exact ⟨h, (delivered_iff h mallocZero).mpr ⟨by decide, by decide⟩⟩

/-- `dibc "" x` could be sent, and arrives as `dibc`. -/
theorem empty_argument_ends_command : Sendable smallLimits ["dibc".toList, [], "x".toList] ∧
    ¬ Delivered smallLimits mallocZero ["dibc".toList, [], "x".toList] := by
  refine ⟨⟨by decide, by decide, by decide, ⟨by decide, by decide⟩⟩, ?_⟩
  rintro ⟨c, -, hd⟩
  exact (decode_ok_iff.mp hd).1.ne_nil [] (by decide) rfl

/-! ## The one read of the daemon -/

/-- What a handler thread does with its connection. -/
inductive Handled where
  /-- The `read` failed: `goto drain`. -/
  | drained
  | fault (e : DecodeFault)
  | cmdParse (argv : List (List Char))
  deriving DecidableEq, Repr

/-- `tb_socket_th` up to the call of `cmd_parse`. The client has sent `sent`; the one `read` fails,
or fills the zeroed message with the first `n` characters. -/
def tbSocketTh (K : Limits) (malloc : Malloc) (sent : List Char) (rd : Option ℕ) : Handled :=
  match rd with
  | none => .drained
  | some n =>
    match decode K malloc ((fill NUL sent n).drop K.hdrLen) with
    | .error e => .fault e
    | .ok argv => .cmdParse argv

/-- `cmd_parse` is called with exactly `argv`, or not called. -/
def Intact (out : Handled) (argv : List (List Char)) : Prop :=
  out = .drained ∨ out = .cmdParse argv

theorem drop_fill_append {hdr P : List Char} (n : ℕ) :
    (fill NUL (hdr ++ P) n).drop hdr.length = fill NUL P (n - hdr.length) := by
  rcases le_total hdr.length n with hn | hn
  · have h1 : (hdr ++ P).length - n = P.length - (n - hdr.length) := by simp; omega
    rw [fill, fill, List.take_append, List.take_of_length_le hn, List.append_assoc, h1,
      List.drop_left]
  · have h1 : (hdr ++ P).take n = hdr.take n := List.take_append_of_le_length hn
    have h2 : (hdr.take n).length = n := by simp [hn]
    rw [fill, fill, h1, List.drop_append, h2, List.drop_of_length_le (by omega),
      List.drop_replicate, Nat.sub_eq_zero_of_le hn, List.take_zero]
    congr 2
    simp
    omega

/-- **One read.** Of the client's message `hdr ++ c.pBuf` the daemon parses the client's command, or
none, exactly when its read failed or got all but the last terminator of a command that decodes. -/
theorem intact_iff {c : Client} {hdr : List Char} (hz : ∀ a ∈ argv, NUL ∉ a)
    (hc : packMessage K argv = .ok c) (hh : hdr.length = K.hdrLen) (malloc : Malloc)
    (rd : Option ℕ) :
    Intact (tbSocketTh K malloc (hdr ++ c.pBuf) rd) (scan argv).1 ↔
      ∀ n, rd = some n → (frame NUL (scan argv).1).length - 1 ≤ n - K.hdrLen ∧
        (∀ a ∈ (scan argv).1, a ≠ []) ∧ K.Fits (scan argv).1 ∧
        Allocated malloc (scan argv).1.length := by
  cases rd with
  | none => simp [Intact, tbSocketTh]
  | some n =>
    obtain ⟨m, hm, hb⟩ := pBuf_of_packMessage hc
    have hz' : ∀ a ∈ (scan argv).1, NUL ∉ a := fun a ha => hz a (mem_of_mem_scan ha)
    have h1 : Intact (tbSocketTh K malloc (hdr ++ c.pBuf) (some n)) (scan argv).1 ↔
        decode K malloc (fill NUL c.pBuf (n - K.hdrLen)) = .ok (scan argv).1 := by
      rw [tbSocketTh, ← hh, drop_fill_append]
      cases decode K malloc (fill NUL c.pBuf (n - hdr.length)) <;> simp [Intact]
    rw [h1, decode_ok_iff, hb]
    constructor
    · rintro ⟨hf, hfit, ha⟩ _ ⟨⟩
      exact ⟨(framed_fill_iff hf.ne_nil hz' hm _).mp hf, hf.ne_nil, hfit, ha⟩
    · intro h
      obtain ⟨h2, h3, h4, h5⟩ := h n rfl
      exact ⟨(framed_fill_iff h3 hz' hm _).mpr h2, h4, h5⟩

/-- `dibc ab`, received up to its last letter, is parsed as sent. -/
theorem intact_dibc_ab : ∃ c, packMessage smallLimits ["dibc".toList, "ab".toList] = .ok c ∧
    Intact (tbSocketTh smallLimits mallocZero (List.replicate 4 NUL ++ c.pBuf) (some 11))
      (scan ["dibc".toList, "ab".toList]).1 := by
  have h : ∃ c, packMessage smallLimits ["dibc".toList, "ab".toList] = .ok c := ⟨_, rfl⟩
  obtain ⟨c, hc⟩ := h
  refine ⟨c, hc, (intact_iff (by decide) hc rfl mallocZero (some 11)).mpr ?_⟩
  rintro _ ⟨⟩
  exact ⟨by decide, by decide, ⟨by decide, by decide⟩, by decide⟩

/-- Received one letter short of that, it is parsed as `dibc a`. -/
theorem cut_command_is_parsed :
    ∃ c, packMessage smallLimits ["dibc".toList, "ab".toList] = .ok c ∧
      tbSocketTh smallLimits mallocZero (List.replicate 4 NUL ++ c.pBuf) (some 10) =
        .cmdParse ["dibc".toList, "a".toList] ∧
      ¬ Intact (tbSocketTh smallLimits mallocZero (List.replicate 4 NUL ++ c.pBuf) (some 10))
        (scan ["dibc".toList, "ab".toList]).1 := by
  have h : ∃ c, packMessage smallLimits ["dibc".toList, "ab".toList] = .ok c ∧
      tbSocketTh smallLimits mallocZero (List.replicate 4 NUL ++ c.pBuf) (some 10) =
        .cmdParse ["dibc".toList, "a".toList] := ⟨_, rfl, by decide⟩
  obtain ⟨c, hc, hr⟩ := h
  exact ⟨c, hc, hr, by rw [hr, Intact]; decide⟩

/-! ## Bounds -/

/-- **Bounds.** Packing stays inside `pBuf` exactly when what is packed fits, and decoding stays
inside `pBuf`, `argv` and its rows exactly on the framed contents whose strings fit. -/
theorem accesses_inBounds (K : Limits) :
    (∀ argv, packMessage K argv ≠ .error .overflow ↔ packedLen argv ≤ K.TB_SOCK_MSG_MAX_LEN) ∧
      ∀ pBuf, InBounds K pBuf ↔ ∃ ss, Framed NUL pBuf ss ∧ K.Fits ss := by
  refine ⟨fun argv => ?_, inBounds_iff K⟩
  rw [Ne, packMessage_overflow_iff, not_lt]

/-- Two arguments that are too long together, and a `pBuf` without a terminator. -/
theorem accesses_outside :
    packMessage smallLimits ["dibc".toList, "group-of-cases".toList] = .error .overflow ∧
      ¬ InBounds smallLimits (List.replicate 16 'a') := by
  refine ⟨by decide, fun h => ?_⟩
  exact absurd (h mallocZero .readOutside (by decide)) (by decide)

end Dib
