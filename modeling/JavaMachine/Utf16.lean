/-! # UTF-16

Text as a sequence of 16-bit units: a character beyond the first 65536 takes two of them. Lengths,
positions and hash codes of strings count units. -/

namespace JavaMachine.Utf16

/-- The units of a character. -/
def ofChar (c : Char) : List UInt16 :=
  if c.val < 0x10000 then [c.val.toUInt16]
  else
    let offset := c.val - 0x10000
    [(offset >>> 10).toUInt16 + 0xd800, (offset &&& 0x3ff).toUInt16 + 0xdc00]

/-- The units of a text. -/
def units (text : String) : List UInt16 :=
  text.toList.flatMap ofChar

/-- The character of a single unit; half of a pair has none of its own and is replaced. -/
def charOf (unit : UInt16) : Char :=
  if 0xd800 ≤ unit ∧ unit < 0xe000 then '\ufffd' else Char.ofNat unit.toNat

/-- The hash code of a sequence of units: a number in base 31, modulo 2 to the 32. -/
def hash (units : List UInt16) : Int32 :=
  units.foldl (fun sum unit => sum * 31 + unit.toUInt32.toInt32) 0

end JavaMachine.Utf16
