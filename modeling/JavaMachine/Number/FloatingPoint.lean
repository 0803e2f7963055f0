/-! # Floating-point bit patterns

Arithmetic, comparison and conversion of floats and doubles given by their bits. Sums, products
and quotients are those of the standard formats; a remainder is exact and has the sign of the
dividend; a conversion to an integer drops the fraction and stops at the ends of the range. -/

namespace JavaMachine

open Float.Model

namespace FloatingPoint

/-- Brings a number into a format, to the nearest value, an even one on a tie. -/
def roundTo (format : Format) : UnpackedFloat → UnpackedFloat
  | .finite sign mantissa exponent _ => UnpackedFloat.round format sign mantissa exponent
  | other => other

/-- What is left of a number after taking another one from it as often as it goes. -/
def remainder (format : Format) : UnpackedFloat → UnpackedFloat → UnpackedFloat
  | .notANumber, _ | _, .notANumber | .infinity _, _ | _, .zero _ => .notANumber
  | dividend, .infinity _ => dividend
  | .zero sign, _ => .zero sign
  | .finite sign mantissa exponent _, .finite _ mantissa' exponent' _ =>
    let common := min exponent exponent'
    let scaled := mantissa <<< (exponent - common).toNat
    let scaled' := mantissa' <<< (exponent' - common).toNat
    UnpackedFloat.round format sign (scaled % scaled') common

end FloatingPoint

/-! ## Floats -/

namespace Single

def unpack (bits : UInt32) : UnpackedFloat :=
  UnpackedFloat.unpack .binary32 bits.toBitVec

def pack (number : UnpackedFloat) : UInt32 :=
  ⟨number.pack .binary32⟩

def add (a b : UInt32) : UInt32 := (Float32.ofBits a + Float32.ofBits b).toBits
def sub (a b : UInt32) : UInt32 := (Float32.ofBits a - Float32.ofBits b).toBits
def mul (a b : UInt32) : UInt32 := (Float32.ofBits a * Float32.ofBits b).toBits
def div (a b : UInt32) : UInt32 := (Float32.ofBits a / Float32.ofBits b).toBits

def rem (a b : UInt32) : UInt32 :=
  pack (FloatingPoint.remainder .binary32 (unpack a) (unpack b))

/-- Changes the sign, also that of a zero. -/
def neg (bits : UInt32) : UInt32 := bits ^^^ 0x80000000

/-- How two floats compare; nothing if one is not a number. -/
def compare (a b : UInt32) : Option Ordering :=
  UnpackedFloat.compare (unpack a) (unpack b)

/-- The float nearest to an integer. -/
def ofInt (value : Int) : UInt32 :=
  pack (UnpackedFloat.ofInt .binary32 value)

def toInt32 (bits : UInt32) : Int32 := (unpack bits).toInt32
def toInt64 (bits : UInt32) : Int64 := (unpack bits).toInt64

end Single

/-! ## Doubles -/

namespace Double

def unpack (bits : UInt64) : UnpackedFloat :=
  UnpackedFloat.unpack .binary64 bits.toBitVec

def pack (number : UnpackedFloat) : UInt64 :=
  ⟨number.pack .binary64⟩

def add (a b : UInt64) : UInt64 := (Float.ofBits a + Float.ofBits b).toBits
def sub (a b : UInt64) : UInt64 := (Float.ofBits a - Float.ofBits b).toBits
def mul (a b : UInt64) : UInt64 := (Float.ofBits a * Float.ofBits b).toBits
def div (a b : UInt64) : UInt64 := (Float.ofBits a / Float.ofBits b).toBits

def rem (a b : UInt64) : UInt64 :=
  pack (FloatingPoint.remainder .binary64 (unpack a) (unpack b))

/-- Changes the sign, also that of a zero. -/
def neg (bits : UInt64) : UInt64 := bits ^^^ 0x8000000000000000

/-- How two doubles compare; nothing if one is not a number. -/
def compare (a b : UInt64) : Option Ordering :=
  UnpackedFloat.compare (unpack a) (unpack b)

/-- The double nearest to an integer. -/
def ofInt (value : Int) : UInt64 :=
  pack (UnpackedFloat.ofInt .binary64 value)

def toInt32 (bits : UInt64) : Int32 := (unpack bits).toInt32
def toInt64 (bits : UInt64) : Int64 := (unpack bits).toInt64

/-- The double equal to a float. -/
def ofSingle (bits : UInt32) : UInt64 :=
  pack (FloatingPoint.roundTo .binary64 (Single.unpack bits))

/-- The float nearest to a double. -/
def toSingle (bits : UInt64) : UInt32 :=
  Single.pack (FloatingPoint.roundTo .binary32 (unpack bits))

end Double

end JavaMachine
