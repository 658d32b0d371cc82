import KcpServer.Lib.Memory

/-!
# C strings and numbers

`strtok`, `strtol`, `atoi` and `atoll` on the bytes of a string that a `0` byte or the end of the list terminates.
-/

namespace Lib

/-! ## `strtok` -/

/-- Split at a delimiter; `cur` is the current piece, reversed. -/
def pieces (delim : UInt8) (cur : Bytes) : Bytes → List Bytes
  | [] => [cur.reverse]
  | b :: s => if b = delim then cur.reverse :: pieces delim [] s else pieces delim (b :: cur) s

/-- The strings that calls of `strtok` with one delimiter return until it returns null: the pieces that are not empty. -/
def strtok (delim : UInt8) (s : Bytes) : List Bytes := (pieces delim [] (cstr s)).filter (· ≠ [])

/-! ## `strtol` -/

/-- `isspace` in the C locale. -/
def isspace (b : UInt8) : Bool := b = 32 ∨ 9 ≤ b ∧ b ≤ 13

/-- The value of the decimal digits a string starts with. -/
def digits (acc : Nat) : Bytes → Nat
  | [] => acc
  | b :: s => if 48 ≤ b ∧ b ≤ 57 then digits (10 * acc + (b.toNat - 48)) s else acc

/-- The number in front of a string: white space, a sign, digits. -/
def number (s : Bytes) : Int :=
  match s.dropWhile isspace with
  | [] => 0
  | b :: s =>
    if b = 45 then -(digits 0 s)
    else if b = 43 then digits 0 s
    else digits 0 (b :: s)

/-- `strtol` with base 10 on a 64-bit `long`, which saturates; also `atoll`. -/
def strtol (s : Bytes) : Int := max (-2 ^ 63) (min (2 ^ 63 - 1) (number s))

/-- `atoi`, which converts what `strtol` returns. -/
def atoi (s : Bytes) : Int := int32 (strtol s)

/-- `atoll` assigned to an `unsigned long long`. -/
def atoull (s : Bytes) : Nat := (strtol s % 2 ^ 64).toNat

example : (strtok 44 [49, 44, 44, 45, 50, 0, 44, 51]).map atoi = [1, -2] := by decide

end Lib
