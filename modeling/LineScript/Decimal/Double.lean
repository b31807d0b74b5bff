import LineScript.Decimal.Numeral

namespace LineScript.Decimal

/-- The integer nearest to `num / den`, the even one of two. -/
def roundDiv (num den : Nat) : Nat :=
  let floor := num / den
  let twice := 2 * (num % den)
  if twice < den then floor
  else if den < twice then floor + 1
  else floor + floor % 2

def roundScaled (num den : Nat) : Int → Nat
  | .ofNat e => roundDiv num (den <<< e)
  | .negSucc e => roundDiv (num <<< (e + 1)) den

/-- The exponent of the largest power of two that is at most `num / den`. -/
def binaryExponent (num den : Nat) : Int :=
  let guess : Int := (num.log2 : Int) - den.log2
  let atLeast := match guess with
    | .ofNat e => decide (den <<< e ≤ num)
    | .negSucc e => decide (den ≤ num <<< (e + 1))
  if atLeast then guess else guess - 1

def octave : Nat := 1 <<< 52

def infinityBits : Nat := 0x7FF * octave

/-- The bits of the double nearest to `num / den`. The unit in the last place is `2 ^ exponent`; a
significand that rounds up to the next power of two carries into the exponent's bits. -/
def nearestBits (num den : Nat) : Nat :=
  if num = 0 then 0
  else
    let exponent := max (binaryExponent num den - 52) (-1074)
    min infinityBits ((exponent + 1074).toNat * octave + roundScaled num den exponent)

def signBit : Nat := 1 <<< 63

def doubleOf (text : Text) : Float :=
  let (negative, magnitude) := signed text
  let (whole, fraction) := Text.cut '.' magnitude
  let bits := nearestBits (natOf (whole ++ fraction)) (Nat.pow 10 fraction.length)
  Float.ofBits (UInt64.ofNat (if negative then signBit + bits else bits))

def padded (width n : Nat) : Text :=
  let digits := ofNat n
  List.replicate (width - digits.length) '0' ++ digits

def million : Nat := 1000000

def sixPlaces (millionths : Nat) : Text :=
  ofNat (millionths / million) ++ '.' :: padded 6 (millionths % million)

def ofBits (bits : Nat) : Text :=
  let sign : Text := if signBit ≤ bits then ['-'] else []
  let exponent := bits / octave % 0x800
  let fraction := bits % octave
  if exponent = 0x7FF then
    if fraction = 0 then sign ++ "inf".toList else "NaN".toList
  else
    let significand := if exponent = 0 then fraction else octave + fraction
    let scale : Int := (max exponent 1 : Nat) - 1075
    sign ++ sixPlaces (roundScaled (significand * million) 1 (-scale))

def ofDouble (x : Float) : Text :=
  ofBits x.toBits.toNat

theorem roundDiv_near (num : Nat) {den : Nat} (h : 0 < den) :
    2 * num ≤ 2 * (roundDiv num den * den) + den ∧
      2 * (roundDiv num den * den) ≤ 2 * num + den := by
  have key := Nat.div_add_mod num den
  have hr := Nat.mod_lt num h
  rw [Nat.mul_comm] at key
  simp only [roundDiv]
  split
  · omega
  · split
    · rw [Nat.add_mul]; omega
    · rcases Nat.mod_two_eq_zero_or_one (num / den) with h | h
      · simp only [h, Nat.add_zero]; omega
      · simp only [h, Nat.add_mul]; omega

theorem even_roundDiv {num den : Nat} (h : 2 * (num % den) = den) : roundDiv num den % 2 = 0 := by
  simp only [roundDiv, h, Nat.lt_irrefl, if_false]
  omega

end LineScript.Decimal
