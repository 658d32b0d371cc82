import KcpServer.Lib.Memory

/-!
# What the kernel answers to `read` and `write`

Every outcome of a socket call the program distinguishes. The number of bytes a `write` takes is at least one and at
most what it is offered.
-/

namespace KcpServer
open Lib

/-- The outcome of `read`: bytes (none at end of file), `EAGAIN`, or another error. -/
inductive ReadRes
  | data (bs : Bytes)
  | again
  | error

/-- The bytes a `read` delivers. -/
def ReadRes.bytes : ReadRes → Bytes
  | .data bs => bs
  | _ => []

/-- The outcome of `write`: `k` bytes are taken, `EAGAIN`, or another error. -/
inductive WriteRes
  | wrote (k : Nat)
  | again
  | error
  deriving DecidableEq

/-- How many of `n` offered bytes a `write` takes that reports `k`. -/
def wroteCount (k n : Nat) : Nat := max 1 (min k n)

theorem wroteCount_pos (k n : Nat) : 0 < wroteCount k n := by
  unfold wroteCount
  omega

/-- The most the send loops offer to one `write`. -/
def SEND_SIZE : Nat := 64 * 1024

end KcpServer
