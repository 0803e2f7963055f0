/-! # Modified UTF-8

The encoding of text in class files. It differs from UTF-8 in two ways: the character zero takes
two bytes, so that no byte is zero, and a character above `0xffff` is written as a pair of
surrogates of three bytes each. Reading is strict: it accepts exactly what writing produces. -/

namespace JavaMachine.ModifiedUtf8

/-- A continuation byte that carries the low six bits of a number. -/
def continuation (bits : Nat) : UInt8 :=
  UInt8.ofNat (0x80 + bits % 0x40)

/-- The three-byte form of a 16-bit number. -/
def threeBytes (unit : Nat) : List UInt8 :=
  [UInt8.ofNat (0xe0 + unit / 0x1000), continuation (unit / 0x40), continuation unit]

/-- The bytes of one character. -/
def encodeChar (c : Char) : List UInt8 :=
  let code := c.toNat
  if code = 0 then [0xc0, 0x80]
  else if code < 0x80 then [UInt8.ofNat code]
  else if code < 0x800 then [UInt8.ofNat (0xc0 + code / 0x40), continuation code]
  else if code < 0x10000 then threeBytes code
  else
    let offset := code - 0x10000
    threeBytes (0xd800 + offset / 0x400) ++ threeBytes (0xdc00 + offset % 0x400)

/-- The bytes of a text. -/
def encode (text : String) : List UInt8 :=
  text.toList.flatMap encodeChar

/-- The six bits a continuation byte carries. -/
def continuationBits (byte : UInt8) : Option Nat :=
  if 0x80 ≤ byte ∧ byte < 0xc0 then some (byte.toNat - 0x80) else none

/-- The number that a three-byte form spells, which must not fit a shorter form. -/
def unitOfThree (first second third : UInt8) : Option Nat := do
  guard (0xe0 ≤ first ∧ first < 0xf0)
  let high ← continuationBits second
  let low ← continuationBits third
  let unit := (first.toNat - 0xe0) * 0x1000 + high * 0x40 + low
  guard (0x800 ≤ unit)
  return unit

/-- The character that a two-byte form spells: zero, or one that does not fit a single byte. -/
def charOfTwo (first second : UInt8) : Option Char := do
  guard (0xc0 ≤ first ∧ first < 0xe0)
  let low ← continuationBits second
  let code := (first.toNat - 0xc0) * 0x40 + low
  guard (code = 0 ∨ 0x80 ≤ code)
  return Char.ofNat code

/-- The character that a pair of surrogates spells. -/
def charOfPair (high low : Nat) : Option Char := do
  guard (0xd800 ≤ high ∧ high < 0xdc00)
  guard (0xdc00 ≤ low ∧ low < 0xe000)
  return Char.ofNat (0x10000 + (high - 0xd800) * 0x400 + (low - 0xdc00))

/-- The characters of a byte sequence; `none` if it is not in the encoding. -/
def decodeChars : List UInt8 → Option (List Char)
  | [] => some []
  | a :: rest =>
    if a = 0 then none
    else if a < 0x80 then (decodeChars rest).map (Char.ofNat a.toNat :: ·)
    else
      match rest with
      | [] => none
      | b :: rest =>
        match charOfTwo a b with
        | some c => (decodeChars rest).map (c :: ·)
        | none =>
          match rest with
          | [] => none
          | c :: rest =>
            match unitOfThree a b c with
            | none => none
            | some unit =>
              if unit < 0xd800 ∨ 0xe000 ≤ unit then (decodeChars rest).map (Char.ofNat unit :: ·)
              else
                match rest with
                | d :: e :: f :: rest =>
                  match (unitOfThree d e f).bind (charOfPair unit) with
                  | some c => (decodeChars rest).map (c :: ·)
                  | none => none
                | _ => none

/-- The text of a byte sequence; `none` if it is not in the encoding. -/
def decode (bytes : List UInt8) : Option String :=
  (decodeChars bytes).map String.ofList

end JavaMachine.ModifiedUtf8
