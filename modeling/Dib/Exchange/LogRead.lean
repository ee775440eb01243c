import Dib.Exchange.Remote
import Dib.Lib.Lines

/-!
# The log, read by a client

`--log_read` sends the log through one array, which `fgets` fills again and again: the whole array
is sent, with what an earlier and longer line has left behind the terminator.

* `fgetsInto`, `logDatas`, `logSent`: the arrays that are sent;
* `map_cstr_logDatas`: the strings in them are the pieces that `fgets` reads;
* `LogOpen`, **`remote_log_read`**: the client prints these pieces, which is the log exactly when
  there is no NUL in it.
-/

set_option autoImplicit false

namespace Dib

open CString Framing Lines

/-! ## The arrays -/

/-- `fgets(log_buf, sizeof(log_buf), fp)`: the array then, and the rest of the file. -/
def fgetsInto (log_buf file : List Char) : Option (List Char × List Char) :=
  if file = [] then none
  else
    let l := (readLine (log_buf.length - 1) file).1
    some (l ++ NUL :: log_buf.drop (l.length + 1), (readLine (log_buf.length - 1) file).2)

/-- The arrays that the loop of `--log_read` passes to `tb_socket_send_data`, in `n` rounds at
most. -/
def logDatas : ℕ → List Char → List Char → List (List Char)
  | 0, _, _ => []
  | n + 1, log_buf, file =>
    match fgetsInto log_buf file with
    | none => []
    | some (log_buf, file) => log_buf :: logDatas n log_buf file

/-- All of them, for an array of `TB_STR_LEN_LOG` characters that is zero at first. -/
def logSent (TB_STR_LEN_LOG : ℕ) (file : List Char) : List (List Char) :=
  logDatas (file.length + 1) (List.replicate TB_STR_LEN_LOG NUL) file

variable {log_buf file : List Char} {size : ℕ}

theorem cstr_fgetsInto (l r : List Char) : cstr (l ++ NUL :: r) = cstr l := by
  rw [cstr, List.takeWhile_append]
  split_ifs with h
  · have h1 : cstr l = l := by
      rw [cstr]
      exact (List.takeWhile_prefix _).eq_of_length h
    rw [h1, List.takeWhile_cons_of_neg (by simp), List.append_nil]
  · rfl

/-- **What `fgets` leaves in the array** is a string of the array's size, that of the line. -/
theorem fgetsInto_spec (hsize : 1 < log_buf.length) (hne : file ≠ []) :
    ∃ log_buf', fgetsInto log_buf file =
        some (log_buf', (readLine (log_buf.length - 1) file).2) ∧
      log_buf'.length = log_buf.length ∧ NUL ∈ log_buf' ∧
      cstr log_buf' = cstr (readLine (log_buf.length - 1) file).1 := by
  have hlen := length_readLine (log_buf.length - 1) file
  refine ⟨_, if_neg hne, ?_, by simp, cstr_fgetsInto _ _⟩
  simp only [List.length_append, List.length_cons, List.length_drop]
  omega

theorem payload_of_mem_logDatas {n : ℕ} (hsize : 1 < log_buf.length) :
    ∀ data ∈ logDatas n log_buf file, NUL ∈ data ∧ data.length = log_buf.length := by
  induction n generalizing log_buf file with
  | zero => exact fun data h => absurd h List.not_mem_nil
  | succ n ih =>
    intro data h
    by_cases hne : file = []
    · simp [logDatas, fgetsInto, hne] at h
    obtain ⟨log_buf', hget, hlen, hmem, -⟩ := fgetsInto_spec hsize hne
    rw [logDatas, hget] at h
    rcases List.mem_cons.mp h with rfl | h
    · exact ⟨hmem, hlen⟩
    · rw [← hlen] at hsize ⊢
      exact ih hsize data h

/-- **The strings that are sent** are the pieces that `fgets` reads. -/
theorem map_cstr_logDatas {n : ℕ} (hsize : 1 < log_buf.length) :
    (logDatas n log_buf file).map cstr = chunksFrom log_buf.length n file := by
  induction n generalizing log_buf file with
  | zero => rfl
  | succ n ih =>
    by_cases hne : file = []
    · simp [logDatas, fgetsInto, chunksFrom, fgets, hne]
    obtain ⟨log_buf', hget, hlen, -, hcstr⟩ := fgetsInto_spec hsize hne
    have hget' : fgets log_buf.length file = some (cstr (readLine (log_buf.length - 1) file).1,
        (readLine (log_buf.length - 1) file).2) := if_neg hne
    rw [logDatas, hget, chunksFrom, hget', List.map_cons, hcstr, ih (by rwa [hlen]), hlen]

/-! ## The client -/

/-- The log can be opened and holds `file`, and the command `argv` sends it. -/
structure LogOpen (V : ServeBox) (TB_STR_LEN_LOG : ℕ) (file : List Char)
    (argv : List (List Char)) : Prop where
  log_eq : V.log = some (logSent TB_STR_LEN_LOG file).length
  prints_eq : V.prints argv = logSent TB_STR_LEN_LOG file
  sent : ∀ line, V.fails (.tb_socket_send_data line) = false

variable {V : ServeBox} {argv : List (List Char)}

theorem cmdAnswer_log_read {value : Option (List Char)} {beyond : List Char} {fd : ℤ}
    (hargc : argv.length ≠ 1) (hutil : utilityAt argv = some (.log_read, value))
    (h : LogOpen V size file argv) : cmdAnswer V argv beyond fd = some "TESTBOX_OK".toList := by
  have hfold : ∀ l : List ℕ, l.foldl (fun status line =>
      if V.fails (.tb_socket_send_data line) then true else status) false = false := by
    intro l
    induction l with
    | nil => rfl
    | cons line l ih =>
      rw [List.foldl_cons, h.sent, if_neg Bool.false_ne_true]
      exact ih
  rw [cmdAnswer, cmdUtility, if_neg hargc, hutil]
  simp only [Option.map_some, Utility.run, h.log_eq, hfold, UtilRun.resp]
  rfl

/-- **The log arrives.** The client prints what `fgets` reads of the log, piece by piece, then
`TESTBOX_OK`; this is the log as it is exactly when there is no NUL in it, however long its lines
are. -/
theorem remote_log_read {K : Limits} {L : Link K} {value : Option (List Char)} (h : Arrives L argv)
    (hrd : Progress L.reads) (hstr : 0 < V.TB_STR_LEN)
    (hfit : V.TB_STR_LEN + 29 ≤ K.TB_SOCK_MSG_MAX_LEN) (hsize : 1 < size)
    (hlog : size ≤ K.TB_SOCK_MSG_MAX_LEN) (hargc : (scan argv).1.length ≠ 1)
    (hutil : utilityAt (scan argv).1 = some (.log_read, value))
    (hopen : LogOpen V size file (scan argv).1) :
    (∃ rounds, ∀ fuel, rounds ≤ fuel →
        remote L V fuel argv = some ((chunks size file).flatten ++ "TESTBOX_OK\n".toList)) ∧
      ((chunks size file).flatten = file ↔ NUL ∉ file) := by
  have hlen : (List.replicate size NUL).length = size := List.length_replicate
  have hprints : ∀ data ∈ V.prints (scan argv).1, Payload K data := by
    intro data hdata
    rw [hopen.prints_eq] at hdata
    obtain ⟨hmem, hdlen⟩ := payload_of_mem_logDatas (by rwa [hlen]) data hdata
    exact ⟨hmem, by rwa [hdlen, hlen]⟩
  have hpieces : (V.prints (scan argv).1).flatMap cstr = (chunks size file).flatten := by
    have h1 : (logDatas (file.length + 1) (List.replicate size NUL) file).map cstr =
        chunksFrom (List.replicate size NUL).length (file.length + 1) file :=
      map_cstr_logDatas (by rwa [hlen])
    rw [hlen] at h1
    rw [hopen.prints_eq, List.flatMap_def, logSent, h1, chunks]
  refine ⟨⟨K.msgLen + (V.prints (scan argv).1).length + 1, fun fuel hf => ?_⟩,
    flatten_chunks_eq_iff hsize file⟩
  rw [h.remote_of_answer hrd hstr hfit hprints (cmdAnswer_log_read hargc hutil hopen) hf, hpieces,
    List.append_assoc]
  rfl

/-- A log with a line that is longer than the array. -/
def logFile : List Char := "a longer line\nend\n".toList

/-- A daemon with this log. -/
def logBox : ServeBox :=
  { passBox with
    log := some (logSent 8 logFile).length
    prints := fun _ => logSent 8 logFile }

/-- `dibc --log_read`. -/
def logCommand : List (List Char) := ["dibc", "--log_read"].map String.toList

theorem remote_log_read_logFile : ∃ rounds, ∀ fuel, rounds ≤ fuel →
    remote plainLink logBox fuel logCommand =
      some ("a longer line\nend\n".toList ++ "TESTBOX_OK\n".toList) := by
  have harrives : Arrives plainLink logCommand :=
    { notMem := by decide
      complete := by decide
      packedLen_le := by decide
      fits := ⟨by decide, by decide⟩
      ne_nil := by decide
      read := ⟨68, rfl, by decide⟩
      allocated := by decide }
  have hreads : Progress plainLink.reads := fun _ => ⟨7, rfl, by decide⟩
  have hutil : utilityAt (scan logCommand).1 = some (.log_read, none) := by decide
  have hopen : LogOpen logBox 8 logFile (scan logCommand).1 := ⟨rfl, rfl, fun _ => rfl⟩
  obtain ⟨hprinted, hwhole⟩ := remote_log_read harrives hreads (by decide) (by decide) (by decide)
    (by decide) (by decide) hutil hopen
  rw [hwhole.mpr (by decide)] at hprinted
  exact hprinted

end Dib
