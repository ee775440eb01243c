import Dib.Exchange.Remote
import Dib.Registry.Loads
import Dib.Registry.Startup

/-!
# A session of clients

Commands arrive one after the other. Some of them load or unload a library, or read a group file;
no other command touches `libs` or the registries.

* `Visit`: a command that arrives, with what the daemon finds while it runs;
* `Visit.op`, `Visit.box`, `Visit.command`: `cmd_parse`, with the operations of its utilities;
* `Visit.handle`, `Visit.exchange`, `session`: `tb_socket_th`, the exchange with one client, and all
  of them;
* `Request`, `Visit.reply`, `clients`: what a command asks for and is answered, and the system of
  these requests;
* `command_eq`, `exchange_eq`, **`exchange_iff`**: a command does what it asks for, and the client
  prints the answer;
* `run_clients_iff`, **`session_iff`**: the sessions are the runs of that system;
* **`session_of_startUp`**: start-up and a session are a run of the daemon, with the calls of the
  commands.
-/

set_option autoImplicit false

namespace Dib

open CString Framing Lts

/-! ## Calls with their results -/

/-- A call, and whether it returns `TB_OK`. -/
def Daemon.callStatus (H : Host) (rounds : ℕ) (s : Daemon) : DaemonCall → Option (Daemon × Bool)
  | .load lib o info => loadTestcaseFromLib H lib o info s
  | .unload lib o => (unloadLib H.loader lib o s.libs).map fun (libs, e) =>
    (⟨libs, if e = .refused then s.registry else unregisterLib (H.groupsOf lib) s.registry⟩,
      e = .removed)
  | .groupFile file => (addGroupFromFile H.testbox rounds s.registry file).map fun (r, ok) =>
    (⟨s.libs, r⟩, ok)

theorem map_callStatus (H : Host) (rounds : ℕ) (s : Daemon) (c : DaemonCall) :
    (s.callStatus H rounds c).map Prod.fst = s.call H rounds c := by
  cases c with
  | load lib o info => rfl
  | unload lib o => exact Option.map_map ..
  | groupFile file => exact Option.map_map ..

theorem callStatus_mono {H : Host} {n m : ℕ} {s : Daemon} {c : DaemonCall} {x : Daemon × Bool}
    (hnm : n ≤ m) (h : s.callStatus H n c = some x) : s.callStatus H m c = some x := by
  cases c with
  | load lib o info => exact h
  | unload lib o => exact h
  | groupFile file =>
    obtain ⟨y, hy, rfl⟩ := Option.map_eq_some_iff.mp h
    exact Option.map_eq_some_iff.mpr ⟨y, addGroupFromFile_mono hnm hy, rfl⟩

/-! ## Visits -/

/-- A command that arrives, with what the daemon finds while it runs: the answers to a load and what
is in its `testcase_info` before, those to an unload, and the files. -/
structure Visit (K : Limits) where
  link : Link K
  serve : ServeBox
  load : LoadAnswers × TestcaseNod
  unload : UnloadAnswers
  files : List Char → Option (List Char)
  argv : List (List Char)
  arrives : Arrives link argv
  progress : Progress link.reads
  strLen_pos : 0 < serve.TB_STR_LEN
  strLen_le : serve.TB_STR_LEN + 29 ≤ K.TB_SOCK_MSG_MAX_LEN
  prints : ∀ data ∈ serve.prints (scan argv).1, Payload K data

/-- What a command asks of the daemon. -/
inductive Request where
  | call (c : DaemonCall)
  | list_libs
  | other
  deriving DecidableEq, Repr

/-- What is printed into `resp` for a status. -/
def resultText (ok : Bool) : List Char := (if ok then "TESTBOX_OK" else "TESTBOX_ERROR").toList

namespace Visit

variable {K : Limits} (C : Visit K)

/-- The arguments that `cmd_parse` gets. -/
def args : List (List Char) := (scan C.argv).1

/-- The function that an operation calls, if it is one of the three that change the daemon. -/
def callOf : UtilOp → Option DaemonCall
  | .load_testcase_from_lib lib => some (.load lib C.load.1 C.load.2)
  | .unload_lib lib => some (.unload lib C.unload)
  | .add_group_from_file filename => some (.groupFile (C.files filename))
  | _ => none

section Model

variable (H : Host) (rounds : ℕ)

/-- An operation, and whether it fails. -/
def op (s : Daemon) (o : UtilOp) : Option (Daemon × Bool) :=
  match C.callOf o with
  | some c => (s.callStatus H rounds c).map fun (s, ok) => (s, ! ok)
  | none =>
    if o = .list_libs then (listLibs s.libs).map fun _ => (s, false)
    else some (s, C.serve.fails o)

/-- What the command finds when the daemon is in this state. -/
def box (s : Daemon) : ServeBox :=
  { C.serve with
    fails := fun o => (C.op H rounds s o).elim false Prod.snd
    stepmode_void := C.serve.stepmode_void }

/-- `cmd_parse`, with what its operations do; the tests that it starts leave `libs` and the
registries as they are. -/
def command (s : Daemon) (argv : List (List Char)) : Option (Daemon × List Char) :=
  match cmdUtility (C.box H rounds s).toUtilBox argv C.link.beyond with
  | some none => none
  | some (some r) =>
    (r.ops.foldlM (fun s o => (C.op H rounds s o).map Prod.fst) s).map (·, r.resp.toList)
  | none => (cmdAnswer (C.box H rounds s) argv C.link.beyond C.link.newsockfd).map (s, ·)

/-- `tb_socket_th`: what it writes to its socket. -/
def handle (s : Daemon) (message : List Char) : Option (Daemon × List Char) :=
  match tbSocketTh K C.link.malloc message C.link.read with
  | .drained => some (s, [])
  | .fault _ => none
  | .cmdParse argv => do
    let (s, answer) ← C.command H rounds s argv
    let data ← replyData K (C.link.pBuf message) answer
    pure (s, (C.serve.prints argv).flatMap (C.link.tb_socket_send_data .rsp) ++
      C.link.tb_socket_send_data .done data)

/-- The client, with what it prints, and the daemon. -/
def exchange (s : Daemon) : Option (Daemon × List Char) :=
  match packMessage K C.argv with
  | .error _ => none
  | .ok c =>
    match C.handle H rounds s (C.link.hdr ++ c.pBuf) with
    | none => none
    | some (s, stream) =>
      match receive K C.link.isDone C.link.reads rounds [] ⟨stream, 0⟩ with
      | .error _ => none
      | .ok (out, _) => some (s, out)

end Model

/-! ## Requests -/

/-- What a utility asks for. -/
def requestOf : Utility → List Char → Request
  | .loadlib, lib => .call (.load lib C.load.1 C.load.2)
  | .unloadlib, lib => .call (.unload lib C.unload)
  | .group_from_file, filename => .call (.groupFile (C.files filename))
  | .listlib, _ => .list_libs
  | _, _ => .other

/-- What the command asks for. -/
def request : Request :=
  if C.args.length = 1 then .other
  else (utilityAt C.args).elim .other fun x => C.requestOf x.1 (x.2.getD C.link.beyond)

/-- The answer to a command that asks for nothing. -/
def otherAnswer : Option (List Char) := cmdAnswer C.serve C.args C.link.beyond C.link.newsockfd

/-- **What is done for a command**, and its answer. -/
def reply (H : Host) (rounds : ℕ) (s : Daemon) : Option (Daemon × List Char) :=
  match C.request with
  | .call c => (s.callStatus H rounds c).map fun (s, ok) => (s, resultText ok)
  | .list_libs => (listLibs s.libs).map fun _ => (s, resultText true)
  | .other => C.otherAnswer.map (s, ·)

/-- What the daemon writes with this answer. -/
def stream (answer : List Char) : List Char :=
  (C.serve.prints C.args).flatMap (C.link.tb_socket_send_data .rsp) ++
    C.link.tb_socket_send_data .done (answer ++ [NUL])

/-- What the client prints when it gets this answer. -/
def printed (answer : List Char) : List Char :=
  (C.serve.prints C.args).flatMap cstr ++ answer ++ ['\n']

end Visit

/-- The commands of these clients, one after the other: what each client prints. -/
def session {K : Limits} (H : Host) (rounds : ℕ) :
    List (Visit K) → Daemon → Option (Daemon × List (List Char))
  | [], s => some (s, [])
  | C :: visits, s => do
    let (s, out) ← C.exchange H rounds s
    let (s, outs) ← session H rounds visits s
    pure (s, out :: outs)

/-- The system of requests: each step is a command, with what its client prints. -/
def clients (K : Limits) (H : Host) (s₀ : Daemon) : Lts Daemon (Visit K × List Char) where
  init s := s = s₀
  step s p s' := ∃ rounds answer, p.1.reply H rounds s = some (s', answer) ∧
    p.2 = p.1.printed answer

/-! ## Commands -/

/-- The operation is none of those on `libs` and the registries. -/
def UtilOp.Foreign : UtilOp → Prop
  | .load_testcase_from_lib _ | .unload_lib _ | .add_group_from_file _ | .list_libs => False
  | _ => True

variable {K : Limits} {C : Visit K} {H : Host} {n m rounds : ℕ} {s s' : Daemon} {o : UtilOp}
  {c : DaemonCall} {u : Utility} {r : UtilRun} {value answer out : List Char}

namespace Visit

theorem op_foreign (h : o.Foreign) : C.op H rounds s o = some (s, C.serve.fails o) := by
  cases o <;> first | exact h.elim | rfl

theorem foldlM_foreign {ops : List UtilOp} (hops : ∀ o ∈ ops, o.Foreign) :
    ops.foldlM (fun s o => (C.op H rounds s o).map Prod.fst) s = some s := by
  induction ops with
  | nil => rfl
  | cons o ops ih =>
    rw [List.foldlM_cons, op_foreign (hops o List.mem_cons_self)]
    exact ih fun o ho => hops o (List.mem_cons_of_mem _ ho)

theorem foreign_of_run {U : UtilBox} {argc : ℕ} (hu : C.requestOf u value = .other)
    (h : u.run U argc value = some r) : ∀ o ∈ r.ops, o.Foreign := by
  cases u with
  | group_from_file | loadlib | unloadlib | listlib => cases hu
  | help | status | list | examples | descr | log_clear =>
    obtain rfl := Option.some.inj h
    simp [UtilOp.Foreign]
  | clear | step | find | log_level | verbose_level | xml_file =>
    simp only [Utility.run] at h
    split_ifs at h <;> obtain rfl := Option.some.inj h <;> simp [UtilOp.Foreign]
  | kill =>
    obtain ⟨r', hr', rfl⟩ := Option.map_eq_some_iff.mp h
    unfold tbThreadsKillThread at hr'
    split at hr'
    · cases hr'
    · split_ifs at hr' <;> obtain rfl := Option.some.inj hr' <;> simp [UtilOp.Foreign]
  | log_read =>
    simp only [Utility.run] at h
    split at h <;> obtain rfl := Option.some.inj h <;> simp [UtilOp.Foreign]

theorem run_box {argc : ℕ} (hu : C.requestOf u value = .other) :
    u.run (C.box H rounds s).toUtilBox argc value = u.run C.serve.toUtilBox argc value := by
  cases u <;> first | rfl | cases hu

theorem run_of_call (hu : C.requestOf u value = .call c) :
    ∃ o, C.callOf o = some c ∧
      ∀ U : UtilBox, ∀ argc, u.run U argc value = some ⟨[o], U.fails o⟩ := by
  cases u with
  | group_from_file | loadlib | unloadlib =>
    obtain rfl := Request.call.inj hu
    exact ⟨_, rfl, fun _ _ => rfl⟩
  | _ => cases hu

theorem answer_op (o : UtilOp) :
    ([o].foldlM (fun s o => (C.op H rounds s o).map Prod.fst) s).map
        (·, (UtilRun.mk [o] ((C.box H rounds s).fails o)).resp.toList) =
      (C.op H rounds s o).map fun (s, fails) => (s, resultText (! fails)) := by
  have hfails : (C.box H rounds s).fails o = (C.op H rounds s o).elim false Prod.snd := rfl
  rw [List.foldlM_cons, hfails]
  cases C.op H rounds s o with
  | none => rfl
  | some x =>
    obtain ⟨s', fails⟩ := x
    cases fails <;> rfl

theorem command_of_at {v : Option (List Char)} (hlen : C.args.length ≠ 1)
    (hat : utilityAt C.args = some (u, v)) :
    C.command H rounds s C.args =
      (u.run (C.box H rounds s).toUtilBox C.args.length (v.getD C.link.beyond)).bind fun r =>
        (r.ops.foldlM (fun s o => (C.op H rounds s o).map Prod.fst) s).map
          (·, r.resp.toList) := by
  rw [command, cmdUtility, if_neg hlen, hat]
  simp only [Option.map_some]
  cases u.run (C.box H rounds s).toUtilBox C.args.length (v.getD C.link.beyond) <;> rfl

/-- **A command does what it asks for**, and nothing else. -/
theorem command_eq (C : Visit K) (H : Host) (rounds : ℕ) (s : Daemon) :
    C.command H rounds s C.args = C.reply H rounds s := by
  rw [reply, request]
  by_cases hlen : C.args.length = 1
  · have hhelp : ∀ U : UtilBox, cmdUtility U C.args C.link.beyond = some (some ⟨[], false⟩) :=
      fun U => if_pos hlen
    simp only [command, otherAnswer, cmdAnswer, hhelp, if_pos hlen]
    rfl
  rw [if_neg hlen]
  cases hat : utilityAt C.args with
  | none =>
    have hnone : ∀ U : UtilBox, cmdUtility U C.args C.link.beyond = none := fun U => by
      rw [cmdUtility, if_neg hlen, hat, Option.map_none]
    simp only [command, otherAnswer, cmdAnswer, hnone]
    rfl
  | some x =>
    obtain ⟨u, v⟩ := x
    rw [command_of_at hlen hat, Option.elim_some]
    cases hu : C.requestOf u (v.getD C.link.beyond) with
    | call c =>
      obtain ⟨o, ho, hrun⟩ := run_of_call hu
      rw [hrun, Option.bind_some, answer_op, op, ho, Option.map_map]
      simp only [Function.comp_def, Bool.not_not]
    | list_libs =>
      obtain rfl : u = .listlib := by cases u <;> first | rfl | cases hu
      rw [Utility.run, Option.bind_some, answer_op]
      exact Option.map_map ..
    | other =>
      rw [run_box hu, otherAnswer, cmdAnswer, cmdUtility, if_neg hlen, hat]
      cases hrun : u.run C.serve.toUtilBox C.args.length (v.getD C.link.beyond) with
      | none => simp [hrun]
      | some r => simp [hrun, foldlM_foreign (foreign_of_run hu hrun)]

/-! ## One exchange -/

theorem reply_mono {x : Daemon × List Char} (hnm : n ≤ m) (h : C.reply H n s = some x) :
    C.reply H m s = some x := by
  unfold reply at h ⊢
  split at h
  · obtain ⟨y, hy, rfl⟩ := Option.map_eq_some_iff.mp h
    exact Option.map_eq_some_iff.mpr ⟨y, callStatus_mono hnm hy, rfl⟩
  · exact h
  · exact h

theorem cmdAnswer_of_command {argv : List (List Char)}
    (h : C.command H rounds s argv = some (s', answer)) :
    cmdAnswer (C.box H rounds s) argv C.link.beyond C.link.newsockfd = some answer := by
  unfold command at h
  split at h
  · cases h
  · next r hr =>
    obtain ⟨s₁, -, heq⟩ := Option.map_eq_some_iff.mp h
    obtain ⟨-, rfl⟩ := Prod.mk.inj heq
    rw [cmdAnswer, hr]
    rfl
  · obtain ⟨a, ha, heq⟩ := Option.map_eq_some_iff.mp h
    obtain ⟨-, rfl⟩ := Prod.mk.inj heq
    exact ha

theorem printable_reply (h : C.reply H rounds s = some (s', answer)) :
    Printable K.TB_SOCK_MSG_MAX_LEN answer := by
  rw [← command_eq] at h
  exact printable_cmdAnswer (V := C.box H rounds s) C.strLen_pos C.strLen_le
    (cmdAnswer_of_command h)

theorem handle_eq {c : Client} (hc : packMessage K C.argv = .ok c) :
    C.handle H rounds s (C.link.hdr ++ c.pBuf) =
      (C.reply H rounds s).map fun (s, answer) => (s, C.stream answer) := by
  have hlen : (C.link.pBuf (C.link.hdr ++ c.pBuf)).length = K.TB_SOCK_MSG_MAX_LEN := by
    rw [Link.pBuf, List.length_drop, length_fill, List.length_append, C.link.hdr_length,
      length_pBuf_of_packMessage hc, Nat.add_sub_cancel_left]
  have hcommand : C.command H rounds s (scan C.argv).1 = C.reply H rounds s := command_eq ..
  rw [handle, C.arrives.tbSocketTh_eq hc]
  simp only [hcommand]
  cases hreply : C.reply H rounds s with
  | none => rfl
  | some x =>
    obtain ⟨s', answer⟩ := x
    have hprint := printable_reply hreply
    rw [← hlen] at hprint
    simp [replyData_eq hprint, stream, args]

/-- **The exchange** is what the command asks for, and what the client receives. -/
theorem exchange_eq (C : Visit K) (H : Host) (rounds : ℕ) (s : Daemon) :
    C.exchange H rounds s = (C.reply H rounds s).bind fun (s, answer) =>
      match receive K C.link.isDone C.link.reads rounds [] ⟨C.stream answer, 0⟩ with
      | .error _ => none
      | .ok (out, _) => some (s, out) := by
  obtain ⟨c, hc, -⟩ := packMessage_ok C.arrives.complete C.arrives.packedLen_le
  rw [exchange, hc]
  simp only [handle_eq hc]
  cases C.reply H rounds s <;> rfl

theorem receive_stream (C : Visit K) (hprint : Printable K.TB_SOCK_MSG_MAX_LEN answer)
    (hf : K.msgLen + (C.serve.prints C.args).length < n) :
    ∃ k, receive K C.link.isDone C.link.reads n [] ⟨C.stream answer, 0⟩ =
      .ok (C.printed answer, ⟨[], k⟩) := by
  obtain ⟨k, hk⟩ := receive_sent C.progress C.link.toSender C.prints (payload_concat hprint.lt)
    [] [] 0 n hf
  rw [cstr_append_NUL hprint.notMem, List.append_nil, List.nil_append] at hk
  exact ⟨k, hk⟩

theorem exchange_mono {x : Daemon × List Char} (hnm : n ≤ m) (h : C.exchange H n s = some x) :
    C.exchange H m s = some x := by
  rw [exchange_eq] at h ⊢
  obtain ⟨⟨s', answer⟩, hreply, h⟩ := Option.bind_eq_some_iff.mp h
  rw [reply_mono hnm hreply, Option.bind_some]
  dsimp only at h ⊢
  cases hreceive : receive K C.link.isDone C.link.reads n [] ⟨C.stream answer, 0⟩ with
  | error e =>
    rw [hreceive] at h
    cases h
  | ok y =>
    rw [hreceive] at h
    rwa [receive_mono hnm hreceive]

/-- **One exchange.** Where the client prints something at all, the daemon has done what the command
asks for, and this is the answer. -/
theorem exchange_iff : (∃ rounds, C.exchange H rounds s = some (s', out)) ↔
    ∃ rounds answer, C.reply H rounds s = some (s', answer) ∧ out = C.printed answer := by
  constructor
  · rintro ⟨n, h⟩
    rw [exchange_eq] at h
    obtain ⟨⟨s₁, answer⟩, hreply, h⟩ := Option.bind_eq_some_iff.mp h
    dsimp only at h
    split at h
    · cases h
    next out' so hreceive =>
    obtain ⟨rfl, rfl⟩ := Prod.mk.inj (Option.some.inj h)
    obtain ⟨k, hk⟩ := receive_stream C (printable_reply hreply)
      (Nat.lt_of_lt_of_le (Nat.lt_succ_self _) (Nat.le_max_right n _))
    rw [receive_mono (Nat.le_max_left n _) hreceive] at hk
    obtain ⟨rfl, -⟩ := Prod.mk.inj (Except.ok.inj hk)
    exact ⟨n, answer, hreply, rfl⟩
  · rintro ⟨n, answer, hreply, rfl⟩
    obtain ⟨k, hk⟩ := receive_stream C (printable_reply hreply)
      (Nat.lt_of_lt_of_le (Nat.lt_succ_self _) (Nat.le_max_right n _))
    refine ⟨max n (K.msgLen + (C.serve.prints C.args).length + 1), ?_⟩
    rw [exchange_eq, reply_mono (Nat.le_max_left n _) hreply, Option.bind_some]
    simp only [hk]

end Visit

/-! ## All exchanges -/

variable {visits : List (Visit K)} {outs : List (List Char)} {s₀ d : Daemon}

/-- An exchange in which the client prints this. -/
def serveOne (H : Host) (rounds : ℕ) (s : Daemon) (p : Visit K × List Char) : Option Daemon :=
  (p.1.exchange H rounds s).bind fun x => if x.2 = p.2 then some x.1 else none

theorem serveOne_eq_some_iff {p : Visit K × List Char} :
    serveOne H rounds s p = some s' ↔ p.1.exchange H rounds s = some (s', p.2) := by
  unfold serveOne
  cases p.1.exchange H rounds s with
  | none => exact iff_of_false (by rintro ⟨⟩) (by rintro ⟨⟩)
  | some x =>
    obtain ⟨s₁, out⟩ := x
    rw [Option.bind_some, Option.some.injEq, Prod.mk.injEq]
    split_ifs with hout
    · rw [Option.some.injEq, and_iff_left hout]
    · exact iff_of_false (by rintro ⟨⟩) fun h => hout h.2

theorem session_eq_some_iff : session H rounds visits s = some (d, outs) ↔
    outs.length = visits.length ∧ (visits.zip outs).foldlM (serveOne H rounds) s = some d := by
  induction visits generalizing s outs with
  | nil =>
    rw [session, List.length_nil, List.length_eq_zero_iff, List.zip_nil_left, List.foldlM_nil,
      Option.some.injEq, Prod.mk.injEq, and_comm, eq_comm (a := [])]
    exact and_congr_right fun _ => Option.some.injEq .. ▸ Iff.rfl
  | cons C visits ih =>
    constructor
    · intro h
      obtain ⟨⟨s₁, out⟩, hC, h⟩ := Option.bind_eq_some_iff.mp h
      obtain ⟨⟨s₂, outs'⟩, hrest, h⟩ := Option.bind_eq_some_iff.mp h
      obtain ⟨rfl, rfl⟩ := Prod.mk.inj (Option.some.inj h)
      obtain ⟨hlen, hfold⟩ := ih.mp hrest
      refine ⟨congrArg (· + 1) hlen, ?_⟩
      rw [List.zip_cons_cons, List.foldlM_cons, serveOne_eq_some_iff.mpr hC]
      exact hfold
    · rintro ⟨hlen, hfold⟩
      cases outs with
      | nil => cases hlen
      | cons out outs =>
        rw [List.zip_cons_cons, List.foldlM_cons] at hfold
        obtain ⟨s₁, hC, hfold⟩ := Option.bind_eq_some_iff.mp hfold
        have hrest := ih.mpr ⟨Nat.succ.inj hlen, hfold⟩
        simp [session, serveOne_eq_some_iff.mp hC, hrest]

theorem run_clients_iff {ps : List (Visit K × List Char)} :
    (∃ tr, (clients K H s₀).Run tr d ∧ tr.map Prod.snd = ps) ↔
      ∃ rounds, ps.foldlM (serveOne H rounds) s₀ = some d := by
  refine run_iff_foldlM (f := serveOne H) (fun _ => Iff.rfl) (fun s p s' => ?_) (fun hnm h => ?_) ps
  · simp only [serveOne_eq_some_iff]
    exact Visit.exchange_iff.symm
  · rw [serveOne_eq_some_iff] at h ⊢
    exact Visit.exchange_mono hnm h

/-- **Sessions** are the runs of the requests: in each, every command is run as it was given, with
the operation that it asks for, and its client prints the answer to it. -/
theorem session_iff (H : Host) (s₀ d : Daemon) (visits : List (Visit K))
    (outs : List (List Char)) :
    (∃ rounds, session H rounds visits s₀ = some (d, outs)) ↔
      outs.length = visits.length ∧
        ∃ tr, (clients K H s₀).Run tr d ∧ tr.map Prod.snd = visits.zip outs := by
  simp only [session_eq_some_iff, exists_and_left, run_clients_iff]

/-! ## The calls of a session -/

/-- The call that a command asks for. -/
def Visit.call (C : Visit K) : Option DaemonCall :=
  match C.request with
  | .call c => some c
  | _ => none

theorem reply_cases (h : C.reply H rounds s = some (s', answer)) :
    C.call = none ∧ s' = s ∨
      ∃ c ok, C.call = some c ∧ s.callStatus H rounds c = some (s', ok) ∧
        answer = resultText ok := by
  unfold Visit.reply at h
  unfold Visit.call
  split at h
  · next c hc =>
    obtain ⟨⟨s₁, ok⟩, hx, heq⟩ := Option.map_eq_some_iff.mp h
    obtain ⟨rfl, rfl⟩ := Prod.mk.inj heq
    exact .inr ⟨c, ok, by rw [hc], hx, rfl⟩
  · next hc =>
    obtain ⟨lines, -, heq⟩ := Option.map_eq_some_iff.mp h
    exact .inl ⟨by rw [hc], (Prod.mk.inj heq).1.symm⟩
  · next hc =>
    obtain ⟨a, -, heq⟩ := Option.map_eq_some_iff.mp h
    exact .inl ⟨by rw [hc], (Prod.mk.inj heq).1.symm⟩

theorem foldlM_call_of_reply (h : C.reply H rounds s = some (s', answer)) :
    C.call.toList.foldlM (Daemon.call H rounds) s = some s' := by
  rcases reply_cases h with ⟨hcall, rfl⟩ | ⟨c, ok, hcall, hstatus, -⟩
  · rw [hcall]
    rfl
  · rw [hcall]
    simp [← map_callStatus, hstatus]

theorem foldlM_call_of_session (h : session H rounds visits s = some (d, outs)) :
    (visits.filterMap Visit.call).foldlM (Daemon.call H rounds) s = some d := by
  induction visits generalizing s outs with
  | nil =>
    obtain ⟨rfl, -⟩ := Prod.mk.inj (Option.some.inj h)
    rfl
  | cons C visits ih =>
    obtain ⟨⟨s₁, out⟩, hC, h⟩ := Option.bind_eq_some_iff.mp h
    obtain ⟨⟨s₂, outs'⟩, hrest, h⟩ := Option.bind_eq_some_iff.mp h
    obtain ⟨rfl, -⟩ := Prod.mk.inj (Option.some.inj h)
    rw [Visit.exchange_eq] at hC
    obtain ⟨⟨s₃, answer⟩, hreply, hC⟩ := Option.bind_eq_some_iff.mp hC
    obtain rfl : s₃ = s₁ := by
      dsimp only at hC
      split at hC
      · cases hC
      · exact (Prod.mk.inj (Option.some.inj hC)).1
    have hcons : (C :: visits).filterMap Visit.call =
        C.call.toList ++ visits.filterMap Visit.call := by
      cases hcall : C.call <;> simp [hcall]
    rw [hcons, List.foldlM_append, foldlM_call_of_reply hreply]
    exact ih hrest

/-- **From start-up on** the daemon makes a run: its calls are those for the configuration files,
and then those that the commands of the clients ask for. -/
theorem session_of_startUp {E : Surroundings} {argv : List (List Char)}
    (hsize : 1 < H.loader.TB_MAX_PATH_LEN) (hstart : startUp H n E argv = some s₀)
    (h : session H m visits s₀ = some (d, outs)) :
    ∃ calls tr, startCalls H n E (E.args argv).startup.testbox_cfg_dir = some calls ∧
      (daemon H).Run tr d ∧ tr.map Prod.snd = calls ++ visits.filterMap Visit.call := by
  rw [startUp_eq hsize] at hstart
  obtain ⟨-, hstart⟩ := Option.ite_none_left_eq_some.mp hstart
  obtain ⟨calls, hcalls, hs₀⟩ := Option.bind_eq_some_iff.mp hstart
  obtain ⟨tr, hrun, htr⟩ :=
    (run_iff_calls (H := H) (s := d) (calls ++ visits.filterMap Visit.call)).mpr
    ⟨max n m, by
      rw [List.foldlM_append, foldlM_mono (fun _ _ _ => call_mono (Nat.le_max_left n m)) hs₀]
      exact foldlM_mono (fun _ _ _ => call_mono (Nat.le_max_right n m))
        (foldlM_call_of_session h)⟩
  exact ⟨calls, tr, hcalls, hrun, htr⟩

/-! ## A load -/

/-- `dibc --loadlib a`. -/
def loadA : List (List Char) := ["dibc", "--loadlib", "a"].map String.toList

theorem arrives_loadA : Arrives plainLink loadA where
  notMem := by decide
  complete := by decide
  packedLen_le := by decide
  fits := ⟨by decide, by decide⟩
  ne_nil := by decide
  read := ⟨68, rfl, by decide⟩
  allocated := by decide

theorem progress_plainLink : Progress plainLink.reads := fun _ => ⟨7, rfl, by decide⟩

theorem payload_passBox : ∀ data ∈ passBox.prints (scan loadA).1, Payload boxLimits data :=
  fun _ hdata => List.mem_singleton.mp hdata ▸ ⟨by decide, by decide⟩

theorem strLen_passBox_pos : 0 < passBox.TB_STR_LEN := by decide

theorem strLen_passBox_le : passBox.TB_STR_LEN + 29 ≤ boxLimits.TB_SOCK_MSG_MAX_LEN := by decide

/-- The library is found. -/
def loadVisit : Visit boxLimits where
  link := plainLink
  serve := passBox
  load := (⟨true, true, true⟩, plainTestbox.zeroInfo)
  unload := ⟨true, true, true⟩
  files _ := none
  argv := loadA
  arrives := arrives_loadA
  progress := progress_plainLink
  strLen_pos := strLen_passBox_pos
  strLen_le := strLen_passBox_le
  prints := payload_passBox

/-- The library of `/etc` is loaded once more. -/
theorem session_of_startUp_loadA : ∃ d tr, (daemon oneLibrary).Run tr d ∧ tr.map Prod.snd =
    [.load ['a'] ⟨true, true, true⟩ plainTestbox.zeroInfo,
      .load ['a'] ⟨true, true, true⟩ plainTestbox.zeroInfo] := by
  have hsome : ((startUp oneLibrary 0 oneConf etcArgv).bind fun s₀ =>
      session oneLibrary 100 [loadVisit] s₀).isSome = true := by decide +kernel
  obtain ⟨⟨d, outs⟩, hd⟩ := Option.isSome_iff_exists.mp hsome
  obtain ⟨s₀, hstart, hsession⟩ := Option.bind_eq_some_iff.mp hd
  obtain ⟨calls, tr, hcalls, hrun, htr⟩ := session_of_startUp (by decide) hstart hsession
  obtain rfl := Option.some.inj (startCalls_etc.symm.trans hcalls)
  exact ⟨d, tr, hrun, htr⟩

end Dib
