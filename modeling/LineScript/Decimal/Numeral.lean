import LineScript.Text.Basic

namespace LineScript.Decimal

def ofNat (n : Nat) : Text :=
  Nat.toDigits 10 n

def ofInt : Int → Text
  | .ofNat n => ofNat n
  | .negSucc n => '-' :: ofNat (n + 1)

def digitValue (c : Char) : Nat :=
  c.toNat - '0'.toNat

def natOf (digits : Text) : Nat :=
  digits.foldl (fun n c => 10 * n + digitValue c) 0

/-- The sign of a numeral and what stands behind it. -/
def signed : Text → Bool × Text
  | '-' :: rest => (true, rest)
  | text => (false, text)

def intOf (text : Text) : Int :=
  match signed text with
  | (true, digits) => -(natOf digits : Int)
  | (false, digits) => natOf digits

def isDigits (text : Text) : Bool :=
  !text.isEmpty && text.all Char.isDigit

def isInteger (text : Text) : Bool :=
  isDigits (signed text).2

def isFraction (text : Text) : Bool :=
  match Text.cut? '.' (signed text).2 with
  | some (whole, fraction) => isDigits whole && isDigits fraction
  | none => false

theorem digitValue_digitChar {d : Nat} (h : d < 10) : digitValue d.digitChar = d := by
  match d, h with
  | 0, _ | 1, _ | 2, _ | 3, _ | 4, _ | 5, _ | 6, _ | 7, _ | 8, _ | 9, _ => rfl

theorem natOf_append_singleton (digits : Text) (c : Char) :
    natOf (digits ++ [c]) = 10 * natOf digits + digitValue c := by
  simp [natOf]

theorem natOf_ofNat (n : Nat) : natOf (ofNat n) = n := by
  induction n using Nat.strongRecOn with
  | ind n ih =>
    by_cases h : n < 10
    · simp [ofNat, Nat.toDigits_of_lt_base h, natOf, digitValue_digitChar h]
    · rw [ofNat, Nat.toDigits_of_base_le (by decide) (by omega), natOf_append_singleton,
        digitValue_digitChar (Nat.mod_lt _ (by decide))]
      have := ih (n / 10) (by omega)
      rw [ofNat] at this
      omega

end LineScript.Decimal
