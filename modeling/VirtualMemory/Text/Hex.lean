/-!
# Numbers in text

Addresses and raw words are written in lower-case hexadecimal after `0x`. The plain form has no
leading zeros and writes zero as `0x0`; error codes use four upper-case digits.
-/
namespace VirtualMemory.Text

/-- `0x` and the digits of `n`. -/
def hex (n : Nat) : String := "0x" ++ String.ofList (Nat.toDigits 16 n)

/-- `0x` and the digits of `n`, filled with zeros to at least `width` digits. -/
def hexPadded (width n : Nat) : String :=
  let digits := Nat.toDigits 16 n
  "0x" ++ String.ofList (List.replicate (width - digits.length) '0' ++ digits)

/-- The upper-case digits of `n`, filled with zeros to at least `width` digits. -/
def upperHex (width n : Nat) : String :=
  let digits := (Nat.toDigits 16 n).map Char.toUpper
  String.ofList (List.replicate (width - digits.length) '0' ++ digits)

end VirtualMemory.Text
