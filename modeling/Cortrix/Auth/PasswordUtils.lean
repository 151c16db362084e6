import Cortrix.Lib.Bytes

/-!
# password_utils: what a registration accepts

`validateEmail` and `validatePassword` over the bytes of the text, with the character classes of the C locale.
-/

namespace Cortrix.Auth
open Lib

def kPasswordMaxLength : Int := 128

def isalpha (b : UInt8) : Bool := (0x41 ≤ b && b ≤ 0x5A) || (0x61 ≤ b && b ≤ 0x7A)

def isdigit (b : UInt8) : Bool := 0x30 ≤ b && b ≤ 0x39

def isspace (b : UInt8) : Bool := b == 0x20 || (0x09 ≤ b && b ≤ 0x0D)

/-- The length is cast to a 32-bit `int`. -/
def validatePassword (password : Bytes) (minLength : Int) : Bool :=
  let len : Int := (BitVec.ofNat 32 password.length).toInt
  decide (minLength ≤ len) && decide (len ≤ kPasswordMaxLength) && password.any isalpha && password.any isdigit

/-- One `@` with something on both sides; a dot in the domain, none at its ends and no two in a row; no whitespace. -/
def validateEmail (email : Bytes) : Bool :=
  let beforeAt := email.takeWhile (· ≠ 0x40)
  let domain := email.drop (beforeAt.length + 1)
  decide (email.length ≤ 254) && email.contains 0x40 && !domain.contains 0x40 && !beforeAt.isEmpty &&
    !domain.isEmpty && domain.contains 0x2E && domain.head? != some 0x2E && domain.getLast? != some 0x2E &&
    (domain.zip domain.tail).all (fun p => p != (0x2E, 0x2E)) && !email.any isspace

/-- `o''neil@a.b`: a quote is a byte as any other. -/
example : validateEmail [0x6F, 0x27, 0x40, 0x61, 0x2E, 0x62] = true := by decide

end Cortrix.Auth
