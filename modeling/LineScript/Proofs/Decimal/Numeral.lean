import LineScript.Decimal.Numeral

namespace LineScript.Decimal

theorem isDigit_of_mem_ofNat {n : Nat} {c : Char} (h : c ∈ ofNat n) : c.isDigit :=
  Nat.isDigit_of_mem_toDigits (by decide) (by decide) h

theorem ofNat_ne_nil (n : Nat) : ofNat n ≠ [] :=
  Nat.toDigits_ne_nil

theorem ofNat_injective {m n : Nat} (h : ofNat m = ofNat n) : m = n := by
  rw [← natOf_ofNat m, h, natOf_ofNat]

theorem isDigits_ofNat (n : Nat) : isDigits (ofNat n) := by
  rw [isDigits, Bool.and_eq_true, List.all_eq_true]
  exact ⟨by simp [ofNat_ne_nil], fun c h => isDigit_of_mem_ofNat h⟩

theorem eq_append_signed (text : Text) :
    ∃ sign, (sign = [] ∨ sign = ['-']) ∧ text = sign ++ (signed text).2 := by
  unfold signed
  split
  next rest => exact ⟨['-'], .inr rfl, rfl⟩
  next => exact ⟨[], .inl rfl, rfl⟩

theorem signed_append {sign digits : Text} (hs : sign = [] ∨ sign = ['-'])
    (hd : isDigits digits) (rest : Text) :
    (signed (sign ++ (digits ++ rest))).2 = digits ++ rest := by
  obtain rfl | rfl := hs
  · cases digits with
    | nil => cases hd
    | cons c digits =>
      have hc : c ≠ '-' := by
        rintro rfl
        simp [isDigits] at hd
      rw [List.nil_append, List.cons_append, signed.eq_def]
      split
      next he => exact absurd (List.cons.inj he).1 hc
      next => rfl
  · rfl

theorem signed_of_isDigits {digits : Text} (h : isDigits digits) :
    signed digits = (false, digits) := by
  unfold signed
  split
  next rest => simp [isDigits] at h
  next => rfl

theorem signed_ofNat (n : Nat) : signed (ofNat n) = (false, ofNat n) :=
  signed_of_isDigits (isDigits_ofNat n)

theorem isInteger_ofInt (n : Int) : isInteger (ofInt n) := by
  cases n with
  | ofNat n => rw [isInteger, ofInt, signed_ofNat]; exact isDigits_ofNat n
  | negSucc n => exact isDigits_ofNat (n + 1)

theorem intOf_ofInt (n : Int) : intOf (ofInt n) = n := by
  cases n with
  | ofNat n =>
    rw [intOf, ofInt, signed_ofNat]
    exact congrArg Int.ofNat (natOf_ofNat n)
  | negSucc n =>
    exact congrArg (fun m : Nat => -(m : Int)) (natOf_ofNat (n + 1))

theorem ofInt_ne_nil (n : Int) : ofInt n ≠ [] := by
  cases n with
  | ofNat n => exact ofNat_ne_nil n
  | negSucc n => simp [ofInt]

theorem mem_of_isInteger {text : Text} (h : isInteger text) {c : Char} (hc : c ∈ text) :
    c = '-' ∨ c.isDigit := by
  simp only [isInteger, isDigits, Bool.and_eq_true, List.all_eq_true] at h
  unfold signed at h
  split at h
  next rest =>
    obtain rfl | hc := List.mem_cons.mp hc
    · exact .inl rfl
    · exact .inr (h.2 c hc)
  next => exact .inr (h.2 c hc)

theorem mem_ofInt {n : Int} {c : Char} (h : c ∈ ofInt n) : c = '-' ∨ c.isDigit :=
  mem_of_isInteger (isInteger_ofInt n) h

theorem isInteger_eq_false {text : Text} {c : Char} (h : c ∈ text) (hd : c.isDigit = false)
    (hm : c ≠ '-') : isInteger text = false := by
  rw [← Bool.not_eq_true]
  intro hi
  obtain rfl | hc := mem_of_isInteger hi h
  · exact hm rfl
  · rw [hd] at hc
    cases hc

end LineScript.Decimal
