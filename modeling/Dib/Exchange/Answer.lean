import Dib.Args.CommandLine
import Dib.Args.Utilities
import Dib.Handlers.Verdict
import Dib.Wire.Delivery

/-!
# The answer to a command

`cmd_parse` writes its answer over the command, into `message.pBuf`; `tb_socket_th` then sends the
string that it finds there.

* `ServeBox`, `cmdAnswer`: the answer of a command, whether a utility, a failure or a test;
* `replyData`: from the `sprintf` of the answer to what is passed to `tb_socket_send_data`, partial
  where the program writes outside `pBuf`;
* `parseOptions_keeps`, `str_of_launched`: the name in the answer fits into a row;
* **`answer_sent`**: every answer fits, is sent as it is, and is not empty: the text for an empty
  response is never sent.
-/

set_option autoImplicit false

namespace Dib

open CString

/-! ## The answer -/

/-- The answers of libtestbox and of the system while one command is served. -/
structure ServeBox extends UtilBox where
  /-- The answers to the test thread. -/
  testBox : TestBox
  /-- Whether `pthread_create` creates it. -/
  created : Bool
  /-- Where a cancellation acts on it. -/
  cancelAt : Option ℕ
  /-- The arrays that a command sends to its client, as `TB_PRINTF` and `--log_read` do. -/
  prints : List (List Char) → List (List Char)

/-- `cmd_parse`: what stands in `resp` when it returns; `none` where it faults. -/
def cmdAnswer (V : ServeBox) (argv : List (List Char)) (beyond : List Char) (client_sock_fd : ℤ) :
    Option (List Char) :=
  match cmdUtility V.toUtilBox argv beyond with
  | some r => r.map fun r => r.resp.toList
  | none =>
    match cmdParse V.toCmdBox argv beyond client_sock_fd with
    | .failed _ => some "TESTBOX_ERROR".toList
    | .launched wait threadfunc thread_args name =>
      (execTestThread V.testBox threadfunc V.created V.cancelAt wait thread_args.toThreadArgs
        name).bind Executed.resp
    | .help | .utility _ | .fault => none

/-- `"Empty response from TestBox :: TESTBOX_FAIL"`. -/
def emptyResponse : List Char :=
  verdict "Empty response from TestBox".toList "TESTBOX_FAIL".toList

/-- The end of `tb_socket_th`: the answer is printed into `pBuf`, an empty string there is replaced,
and the string is sent with its terminator. -/
def replyData (K : Limits) (pBuf answer : List Char) : Option (List Char) :=
  match memcpy pBuf 0 (answer ++ [NUL]) with
  | none => none
  | some pBuf =>
    let filled :=
      if strlen pBuf = some 0 then
        memcpy pBuf 0 (emptyResponse.take (K.TB_SOCK_MSG_MAX_LEN - 1) ++ [NUL])
      else some pBuf
    filled.bind fun pBuf => (strlen pBuf).map fun n => pBuf.take (n + 1)

/-! ## The name in the answer -/

variable {B : CmdBox} {V : ServeBox} {K : Limits} {argv : List (List Char)} {beyond : List Char}
  {fd : ℤ} {s s' : ParseState} {i : ℕ}

/-- `str` and `node_name` get the same copy, and nothing else is written to either. -/
theorem parseOption_str {arg value : List Char} (hs : s.str = s.args.node_name)
    (h : (parseOption B i arg value s).state = some s') : s'.str = s'.args.node_name := by
  cases hkey : keywordOf arg with
  | none =>
    rw [parseOption_word hkey, parseWord_eq] at h
    split_ifs at h
    · unfold selectTest writeArg at h
      split at h
      · cases h
      next a ha =>
      obtain ⟨-, ⟨⟩⟩ := Option.ite_none_right_eq_some.mp ha
      obtain rfl := Option.some.inj h
      show strncpy s.str arg _ = strncpy s.args.node_name arg _
      rw [hs]
    · unfold writeArg at h
      split at h
      · cases h
      next a ha =>
      obtain ⟨-, ⟨⟩⟩ := Option.ite_none_right_eq_some.mp ha
      obtain rfl := Option.some.inj h
      exact hs
  | some k =>
    obtain rfl := keywordOf_eq_some_iff.mp hkey
    rw [parseOption_keyword] at h
    cases hacc : k.rejects B (B.seconds i value) value with
    | some e =>
      rw [hacc] at h
      cases h
    | none =>
      rw [hacc] at h
      obtain rfl : s.withArgs (k.write B (B.seconds i value) value s.args) = s' := by
        dsimp only at h
        split_ifs at h <;> exact Option.some.inj h
      show s.str = (k.write B _ value s.args).node_name
      rw [k.write_node_name, hs]

/-- **The name of a launched test** fits into a row. -/
theorem str_of_launched {wait : Bool} {kind : HandlerKind} {a : CmdArgs} {name : List Char}
    (hstr : 0 < B.TB_STR_LEN) (h : cmdParse B argv beyond fd = .launched wait kind a name) :
    name = cstr a.node_name ∧ name.length < B.TB_STR_LEN := by
  obtain ⟨-, -, a₀, s, ha₀, hs, -, -, rfl, -, rfl⟩ := cmdParse_launched_iff.mp h
  have hsame : s.str = s.args.node_name := by
    refine parseOptions_keeps (I := fun s => s.str = s.args.node_name)
      (fun _ _ _ _ _ _ => parseOption_str) ?_ hs
    obtain ⟨-, ⟨⟩⟩ := Option.ite_none_right_eq_some.mp ha₀
    rfl
  have hinv := parseOptions_inv (creatDefaultThreadArgs_inv ha₀ fd) List.drop_one hs
  rw [hsame]
  exact ⟨rfl, (text_of_zeroEnd hstr hinv.name_end).lt⟩

/-! ## The reply -/

theorem resp_cases {T : TestBox} {kind : HandlerKind} {created wait : Bool} {cancelAt : Option ℕ}
    {args : ThreadArgs} {name t : List Char} {x : Executed}
    (h : execTestThread T kind created cancelAt wait args name = some x) (ht : x.resp = some t) :
    (t = "TESTBOX_OK".toList ∨ t = "TESTBOX_ERROR".toList) ∨
      t = verdict name TESTBOX_PASS ∨ t = verdict name TESTBOX_FAIL := by
  unfold execTestThread at h
  split at h
  · obtain rfl := Option.some.inj h
    exact .inl (.inr (Option.some.inj ht).symm)
  split at h
  · obtain rfl := Option.some.inj h
    exact .inl (.inl (Option.some.inj ht).symm)
  · obtain rfl := Option.some.inj h
    exact .inr (.inr (Option.some.inj ht).symm)
  split_ifs at h
  · obtain rfl := Option.some.inj h
    cases ht
  · obtain ⟨status, -, rfl⟩ := Option.map_eq_some_iff.mp h
    obtain rfl := Option.some.inj ht
    by_cases hs : status = 0
    · exact .inr (.inl (by simp [hs]))
    · exact .inr (.inr (by simp [hs]))
  · obtain rfl := Option.some.inj h
    exact .inl (.inl (Option.some.inj ht).symm)

/-- A string that `sprintf` can print into an array of this size, and that is not empty. -/
structure Printable (size : ℕ) (t : List Char) : Prop where
  ne_nil : t ≠ []
  notMem : NUL ∉ t
  lt : t.length < size

theorem printable_verdict {name text : List Char} {size : ℕ} (hname : NUL ∉ name)
    (htext : NUL ∉ text) (hlt : name.length + 4 + text.length < size) :
    Printable size (verdict name text) := by
  refine ⟨?_, ?_, ?_⟩
  · simp [verdict]
  · rw [verdict, List.mem_append, List.mem_append, not_or, not_or]
    exact ⟨⟨hname, by decide⟩, htext⟩
  · simp [verdict]
    omega

theorem printable_cmdAnswer {t : List Char} {size : ℕ} (hstr : 0 < V.TB_STR_LEN)
    (hsize : V.TB_STR_LEN + 29 ≤ size) (h : cmdAnswer V argv beyond fd = some t) :
    Printable size t := by
  have hok : Printable size "TESTBOX_OK".toList := ⟨by decide, by decide, by simp; omega⟩
  have herror : Printable size "TESTBOX_ERROR".toList := ⟨by decide, by decide, by simp; omega⟩
  unfold cmdAnswer at h
  split at h
  · obtain ⟨r, -, rfl⟩ := Option.map_eq_some_iff.mp h
    unfold UtilRun.resp
    split_ifs
    · exact herror
    · exact hok
  split at h
  · obtain rfl := Option.some.inj h
    exact herror
  · next wait kind a name hlaunch =>
    obtain ⟨x, hx, hresp⟩ := Option.bind_eq_some_iff.mp h
    obtain ⟨rfl, hlen⟩ := str_of_launched hstr hlaunch
    have hname := NUL_notMem_cstr a.node_name
    have hpass : TESTBOX_PASS.length = 12 := rfl
    have hfail : TESTBOX_FAIL.length = 25 := rfl
    rcases resp_cases hx hresp with (rfl | rfl) | rfl | rfl
    · exact hok
    · exact herror
    · exact printable_verdict hname (by decide) (by rw [hpass]; omega)
    · exact printable_verdict hname (by decide) (by rw [hfail]; omega)
  · cases h
  · cases h
  · cases h

theorem replyData_eq {pBuf t : List Char} (h : Printable pBuf.length t) :
    replyData K pBuf t = some (t ++ [NUL]) := by
  have hlen : (t ++ [NUL]).length = t.length + 1 := by simp
  have hcopy : memcpy pBuf 0 (t ++ [NUL]) = some (t ++ NUL :: pBuf.drop (t.length + 1)) := by
    rw [memcpy_eq_some_iff, Nat.zero_add, hlen]
    exact ⟨h.lt, by simp⟩
  have hstrlen : strlen (t ++ NUL :: pBuf.drop (t.length + 1)) = some t.length :=
    strlen_append_NUL h.notMem _
  have hpos : some t.length ≠ some 0 := fun h0 =>
    h.ne_nil (List.length_eq_zero_iff.mp (Option.some.inj h0))
  have htake : (t ++ NUL :: pBuf.drop (t.length + 1)).take (t.length + 1) = t ++ [NUL] := by
    rw [List.append_cons, List.take_left' hlen]
  simp only [replyData, hcopy, hstrlen, if_neg hpos, Option.bind_some, Option.map_some, htake]

/-- **Replies.** Whatever the command was and however its test ended, the answer of `cmd_parse` fits
into `pBuf`, and exactly this answer is sent. It is not empty, so the replacement for an empty
response is never sent. -/
theorem answer_sent {pBuf t : List Char} (hstr : 0 < V.TB_STR_LEN)
    (hsize : V.TB_STR_LEN + 29 ≤ pBuf.length) (h : cmdAnswer V argv beyond fd = some t) :
    t ≠ [] ∧ replyData K pBuf t = some (t ++ [NUL]) := by
  have hprint := printable_cmdAnswer hstr hsize h
  exact ⟨hprint.ne_nil, replyData_eq hprint⟩

/-- One test case, `t`, which passes and is not cancelled. -/
def passBox : ServeBox where
  toUtilBox := { idleBox with TB_STR_LEN := 16 }
  testBox := oneBucket
  created := true
  cancelAt := none
  prints _ := ["run\n\x00".toList]

/-- `dibc t --wait`. -/
def waitForT : List (List Char) := ["dibc", "t", "--wait"].map String.toList

theorem cmdAnswer_waitForT : cmdAnswer passBox waitForT [] 4 = some "t :: TESTBOX_PASS".toList := by
  decide

theorem answer_sent_waitForT : "t :: TESTBOX_PASS".toList ≠ [] ∧
    replyData smallLimits (List.replicate 64 'x') "t :: TESTBOX_PASS".toList =
      some ("t :: TESTBOX_PASS".toList ++ [NUL]) :=
  answer_sent (by decide) (by decide) cmdAnswer_waitForT

end Dib
