/-
# The environment

Settings come from environment variables. A variable is unset or holds bytes; bytes that are no
UTF-8 text count as unset, and so does a text that does not write a number where one is needed.
-/
import SharedLog.Text.Numeral

namespace SharedLog

/-- The bytes of each variable that is set. -/
abbrev Environment := String → Option ByteArray

namespace Environment

/-- The environment without variables. -/
def empty : Environment := fun _ => none

/-- The text of a variable. -/
def text? (env : Environment) (name : String) : Option String :=
  (env name).bind String.fromUTF8?

/-- The number below `bound` that a variable writes. -/
def number? (env : Environment) (bound : Nat) (name : String) : Option Nat :=
  (env.text? name).bind (Text.Numeral.ofText? bound)

/-- The 64-bit number that a variable writes, or a default. -/
def word (env : Environment) (name : String) (default : UInt64) : UInt64 :=
  ((env.number? UInt64.size name).map UInt64.ofNat).getD default

/-- The 64-bit number other than zero that a variable writes, or a default. -/
def positiveWord (env : Environment) (name : String) (default : UInt64) : UInt64 :=
  (((env.number? UInt64.size name).map UInt64.ofNat).filter (· ≠ 0)).getD default

/-- The 32-bit number that a variable writes, or a default. -/
def halfWord (env : Environment) (name : String) (default : UInt32) : UInt32 :=
  ((env.number? UInt32.size name).map UInt32.ofNat).getD default

/-- The 32-bit number other than zero that a variable writes, or a default. -/
def positiveHalfWord (env : Environment) (name : String) (default : UInt32) : UInt32 :=
  (((env.number? UInt32.size name).map UInt32.ofNat).filter (· ≠ 0)).getD default

end Environment

end SharedLog
