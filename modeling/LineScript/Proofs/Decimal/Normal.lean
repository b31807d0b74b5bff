import Mathlib.Data.List.Induction
import Mathlib.Data.Nat.Digits.Defs
import LineScript.Proofs.Decimal.Numeral

namespace LineScript.Decimal

theorem natOf_eq_ofDigits (digits : Text) :
    natOf digits = Nat.ofDigits 10 (digits.reverse.map digitValue) := by
  induction digits using List.reverseRecOn with
  | nil => rfl
  | append_singleton front c ih =>
    rw [natOf_append_singleton, List.reverse_append, List.reverse_singleton, List.singleton_append,
      List.map_cons, Nat.ofDigits_cons, ih, Nat.add_comm]

/-- A sign, or none, and digits denote an integer. -/
def Denotes (numeral : Text) (n : Int) : Prop :=
  ∃ sign digits, (sign = [] ∨ sign = ['-']) ∧ isDigits digits ∧ numeral = sign ++ digits ∧
    n = (if sign = [] then 1 else -1) * (Nat.ofDigits 10 (digits.reverse.map digitValue) : Nat)

theorem intOf_append {sign digits : Text} (hs : sign = [] ∨ sign = ['-'])
    (hd : isDigits digits) :
    intOf (sign ++ digits) = (if sign = [] then 1 else -1) * (natOf digits : Int) := by
  obtain rfl | rfl := hs
  · rw [List.nil_append, intOf, signed_of_isDigits hd, if_pos rfl, Int.one_mul]
  · rw [List.singleton_append, intOf, signed, if_neg (by simp), Int.neg_one_mul]

theorem denotes_iff {numeral : Text} {n : Int} :
    Denotes numeral n ↔ isInteger numeral ∧ intOf numeral = n := by
  constructor
  · rintro ⟨sign, digits, hs, hd, rfl, rfl⟩
    have hsigned := signed_append hs hd []
    rw [List.append_nil] at hsigned
    refine ⟨?_, by rw [intOf_append hs hd, natOf_eq_ofDigits]⟩
    rw [isInteger, hsigned]
    exact hd
  · rintro ⟨hd, rfl⟩
    obtain ⟨sign, hs, he⟩ := eq_append_signed numeral
    refine ⟨sign, (signed numeral).2, hs, hd, he, ?_⟩
    rw [← natOf_eq_ofDigits, ← intOf_append hs hd, ← he]

/-- No zero stands in front of other digits, and zero has no sign. -/
def IsNormal (numeral : Text) : Prop :=
  isInteger numeral ∧ ((signed numeral).2.head? = some '0' → numeral = ['0'])

instance (numeral : Text) : Decidable (IsNormal numeral) :=
  inferInstanceAs (Decidable (_ ∧ _))

theorem toNat_of_isDigit {c : Char} (h : c.isDigit) : 48 ≤ c.toNat ∧ c.toNat ≤ 57 := by
  delta Char.isDigit at h
  simpa [UInt32.le_iff_toNat_le] using h

theorem digitValue_lt {c : Char} (h : c.isDigit) : digitValue c < 10 := by
  have hc := toNat_of_isDigit h
  change c.toNat - 48 < 10
  omega

theorem digitChar_digitValue {c : Char} (h : c.isDigit) : (digitValue c).digitChar = c := by
  have hc := toNat_of_isDigit h
  have hvalue : digitValue c = c.toNat - 48 := rfl
  have hcode : ∀ d < 10, (Nat.digitChar d).toNat = d + 48 := by decide
  apply Char.toNat_inj.mp
  rw [hcode _ (digitValue_lt h)]
  omega

theorem ofNat_natOf {digits : Text} (hd : isDigits digits)
    (hz : digits.head? = some '0' → digits = ['0']) : ofNat (natOf digits) = digits := by
  induction digits using List.reverseRecOn with
  | nil => cases hd
  | append_singleton front c ih =>
    have hc : c.isDigit := by simp_all [isDigits]
    have hlt := digitValue_lt hc
    rw [natOf_append_singleton, ofNat]
    by_cases hf : front = []
    · subst hf
      change Nat.toDigits 10 (10 * 0 + digitValue c) = [c]
      rw [Nat.mul_zero, Nat.zero_add, Nat.toDigits_of_lt_base hlt, digitChar_digitValue hc]
    · -- What stands in front of the last digit has no zero in front either, and is not zero.
      have hzero : front.head? ≠ some '0' := by
        intro h
        have hlen := congrArg List.length (hz (by rw [List.head?_append, h]; rfl))
        simp [hf] at hlen
      have hfront : ofNat (natOf front) = front :=
        ih (by simp_all [isDigits]) fun h => absurd h hzero
      have hpos : natOf front ≠ 0 := by
        intro h
        rw [h] at hfront
        exact hzero (hfront ▸ rfl)
      have hdiv : (10 * natOf front + digitValue c) / 10 = natOf front := by omega
      have hmod : (10 * natOf front + digitValue c) % 10 = digitValue c := by omega
      rw [ofNat] at hfront
      rw [Nat.toDigits_of_base_le (by decide) (by omega), hdiv, hmod, hfront,
        digitChar_digitValue hc]

theorem eq_zero_of_head?_ofNat {n : Nat} (h : (ofNat n).head? = some '0') : n = 0 := by
  induction n using Nat.strongRecOn with
  | ind n ih =>
    rw [ofNat] at h
    by_cases hn : n < 10
    · rw [Nat.toDigits_of_lt_base hn, List.head?_singleton] at h
      rw [← digitValue_digitChar hn, Option.some.inj h]
      rfl
    · obtain ⟨first, others, hf⟩ := List.exists_cons_of_ne_nil (ofNat_ne_nil (n / 10))
      have hhead : (ofNat (n / 10)).head? = some '0' := by
        rw [Nat.toDigits_of_base_le (by decide) (by omega), ← ofNat, hf] at h
        rw [hf]
        exact h
      have := ih (n / 10) (by omega) hhead
      omega

theorem isNormal_ofInt (n : Int) : IsNormal (ofInt n) := by
  refine ⟨isInteger_ofInt n, fun h => ?_⟩
  cases n with
  | ofNat n =>
    rw [ofInt, signed_ofNat] at h
    rw [ofInt, eq_zero_of_head?_ofNat h]
    rfl
  | negSucc n => exact absurd (eq_zero_of_head?_ofNat h) (Nat.succ_ne_zero n)

theorem ofInt_intOf {numeral : Text} (h : IsNormal numeral) : ofInt (intOf numeral) = numeral := by
  obtain ⟨hi, hz⟩ := h
  by_cases hm : ∃ digits, numeral = '-' :: digits
  · obtain ⟨digits, rfl⟩ := hm
    have hd : isDigits digits := hi
    have hhead : digits.head? ≠ some '0' := fun h => by simpa using hz h
    have hdigits := ofNat_natOf hd fun h => absurd h hhead
    obtain ⟨k, hk⟩ : ∃ k, natOf digits = k + 1 := by
      refine Nat.exists_eq_succ_of_ne_zero fun h => hhead ?_
      rw [← hdigits, h]
      rfl
    have hvalue : intOf ('-' :: digits) = Int.negSucc k := by
      change -(natOf digits : Int) = _
      rw [hk]
      rfl
    rw [hvalue, ofInt, ← hk, hdigits]
  · have hs : signed numeral = (false, numeral) := by
      unfold signed
      split
      next digits => exact absurd ⟨digits, rfl⟩ hm
      next => rfl
    rw [isInteger, hs] at hi
    rw [hs] at hz
    rw [intOf, hs]
    exact ofNat_natOf hi hz

/-- Among the numerals of an integer the one it is written as is the only normal one. -/
theorem eq_ofInt_iff {numeral : Text} {n : Int} :
    numeral = ofInt n ↔ IsNormal numeral ∧ Denotes numeral n := by
  rw [denotes_iff]
  constructor
  · rintro rfl
    exact ⟨isNormal_ofInt n, isInteger_ofInt n, intOf_ofInt n⟩
  · rintro ⟨hn, -, rfl⟩
    exact (ofInt_intOf hn).symm

example : IsNormal "-10".toList ∧ ¬IsNormal "-0".toList ∧ ¬IsNormal "007".toList := by decide

end LineScript.Decimal
