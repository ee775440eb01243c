import Mathlib.Data.Nat.Basic

/-!
# Messages between `dibc` and `testboxd`

`Limits` holds the sizes that come from the library both programs are built against. A
`tb_socket_msg_t` is its header, `hdrLen` characters, followed by `pBuf`. `Limits.Fits` says that an
argument vector fits into the rows of the daemon's `argv`.
-/

set_option autoImplicit false

namespace Dib

/-- The sizes of `tb_socket_msg_t` and of the argument vector. -/
structure Limits where
  /-- The characters of a `tb_socket_msg_t` before `pBuf`. -/
  hdrLen : ℕ
  TB_SOCK_MSG_MAX_LEN : ℕ
  TB_MAX_ARGS : ℕ
  TB_STR_LEN : ℕ
  msgMaxLen_pos : 0 < TB_SOCK_MSG_MAX_LEN
  maxArgs_pos : 0 < TB_MAX_ARGS
  strLen_pos : 0 < TB_STR_LEN

/-- `ss` has no more strings than `argv` has rows, and each fits into a row. -/
structure Limits.Fits (K : Limits) (ss : List (List Char)) : Prop where
  count_le : ss.length ≤ K.TB_MAX_ARGS
  length_lt : ∀ s ∈ ss, s.length < K.TB_STR_LEN

end Dib
