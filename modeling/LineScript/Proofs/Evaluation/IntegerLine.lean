import LineScript.Proofs.Decimal.Normal
import LineScript.Proofs.Evaluation.Lifting
import LineScript.Proofs.Object.Extends
import LineScript.Proofs.Statement.Forms

namespace LineScript

open Text Eval Decimal

def FitsInteger (n : Int) : Prop :=
  -9223372036854775808 ≤ n ∧ n ≤ 9223372036854775807

theorem fitsInteger_toInt (k : Int64) : FitsInteger k.toInt :=
  ⟨k.minValue_le_toInt, k.toInt_le⟩

theorem FitsInteger.toInt_ofInt {n : Int} (h : FitsInteger n) : (Int64.ofInt n).toInt = n :=
  Int64.toInt_ofInt_of_le h.1 (Int.lt_add_one_of_le h.2)

section

variable {numeral : Text}

theorem performInteger_of_fits (h : FitsInteger (intOf numeral)) :
    performInteger numeral = create (.integer (Int64.ofInt (intOf numeral))) := by
  have hlo : ¬intOf numeral < Int64.minValue.toInt := Int.not_lt.mpr h.1
  have hhi : ¬Int64.maxValue.toInt < intOf numeral := Int.not_lt.mpr h.2
  rw [performInteger, if_neg hlo, if_neg hhi]

theorem performInteger_of_not_fits (h : ¬FitsInteger (intOf numeral)) :
    performInteger numeral = fault (if intOf numeral < 0 then .integerTooSmall numeral
      else .integerTooLarge numeral) := by
  have hmin : Int64.minValue.toInt = -9223372036854775808 := rfl
  have hmax : Int64.maxValue.toInt = 9223372036854775807 := rfl
  rw [FitsInteger] at h
  rw [performInteger, hmin, hmax]
  split
  next hlo => rw [if_pos (by omega)]
  next => rw [if_pos (by omega), if_neg (by omega)]

theorem evalSource_integer (h : isInteger numeral) (fuel : Nat) (s : Session) :
    evalSource (fuel + 1) numeral s = performInteger numeral
      ((s.record (.evaluating s.tracing 0 numeral)).record (.classified (.integer numeral))) := by
  have hquote : '"' ∉ numeral := by
    intro hm
    obtain hc | hc := mem_of_isInteger h hm <;> cases hc
  rw [evalSource, evaluate_of_classify? (quoteFree_of_notMem hquote)
    (Statement.classify?_integer h)]
  rfl

theorem evalSource_of_fits {n : Int} (h : Denotes numeral n) (hn : FitsInteger n) (fuel : Nat)
    (s : Session) :
    let outcome := evalSource (fuel + 1) numeral s
    let t := outcome.session
    ∃ ref, outcome = .value ref t ∧ t.store.kind ref = .integer (Int64.ofInt n) ∧
      ∀ text, t.store.text ref = text ↔ IsNormal text ∧ Denotes text n := by
  obtain ⟨hi, rfl⟩ := denotes_iff.mp h
  rw [evalSource_integer hi, performInteger_of_fits hn]
  generalize (s.record _).record _ = entered
  let kind : Kind := .integer (Int64.ofInt (intOf numeral))
  have hkind : (entered.store.alloc ⟨kind, []⟩).2.kind (entered.store.alloc ⟨kind, []⟩).1 = kind :=
    congrArg Object.kind (Store.object_alloc_self _ _)
  refine ⟨_, rfl, hkind, fun text => ?_⟩
  have htext : kind.text = ofInt (intOf numeral) := congrArg ofInt hn.toInt_ofInt
  rw [← eq_ofInt_iff, ← htext, ← hkind]
  exact eq_comm

theorem evalSource_of_not_fits {n : Int} (h : Denotes numeral n) (hn : ¬FitsInteger n) (fuel : Nat)
    (s : Session) :
    let outcome := evalSource (fuel + 1) numeral s
    ∃ cause, outcome = .failure (.fault cause) outcome.session ∧
      cause.category = .runtimeError := by
  obtain ⟨hi, rfl⟩ := denotes_iff.mp h
  rw [evalSource_integer hi, performInteger_of_not_fits hn]
  refine ⟨_, rfl, ?_⟩
  split <;> rfl

theorem evalSource_integer_session (h : isInteger numeral) (fuel : Nat) (s : Session) :
    let t := (evalSource (fuel + 1) numeral s).session
    s.store.Extends t.store ∧ t.scopes = s.scopes ∧ t.tracing = s.tracing ∧
      t.literals = s.literals := by
  rw [evalSource_integer h]
  by_cases hn : FitsInteger (intOf numeral)
  · rw [performInteger_of_fits hn]
    exact ⟨.alloc _, rfl, rfl, rfl⟩
  · rw [performInteger_of_not_fits hn]
    exact ⟨.rfl, rfl, rfl, rfl⟩

end

/-- A line that denotes an integer, in however many digits, has an integer as its value that equals
it and is written as its normal numeral, if and only if the integer fits; else it fails with a
runtime error. In both cases bindings, objects and literals stay as they were. Integers are read
back from their texts. -/
theorem integer_line_exact (s : Session) {numeral : Text} {n : Int} (h : Denotes numeral n)
    (fuel : Nat) :
    let outcome := evalSource (fuel + 1) numeral s
    let t := outcome.session
    ((∃ ref k, outcome = .value ref t ∧ t.store.kind ref = .integer k ∧ k.toInt = n ∧
        ∀ text, t.store.text ref = text ↔ IsNormal text ∧ Denotes text n) ↔
      -9223372036854775808 ≤ n ∧ n ≤ 9223372036854775807) ∧
    (¬(-9223372036854775808 ≤ n ∧ n ≤ 9223372036854775807) → ∃ cause,
      outcome = .failure (.fault cause) t ∧ cause.category = .runtimeError) ∧
    s.store.Extends t.store ∧ t.scopes = s.scopes ∧ t.literals = s.literals ∧
    ∀ k : Int64, ∃ ref u, evalSource (fuel + 1) (Kind.integer k).text s = .value ref u ∧
      u.store.kind ref = .integer k := by
  intro outcome t
  obtain ⟨hstore, hscopes, -, hliterals⟩ :=
    evalSource_integer_session (denotes_iff.mp h).1 fuel s
  refine ⟨⟨?_, fun hn => ?_⟩, fun hn => evalSource_of_not_fits h hn fuel s, hstore, hscopes,
    hliterals, fun k => ?_⟩
  · rintro ⟨-, k, -, -, rfl, -⟩
    exact fitsInteger_toInt k
  · obtain ⟨ref, hv, hk, htext⟩ := evalSource_of_fits h hn fuel s
    exact ⟨ref, _, hv, hk, FitsInteger.toInt_ofInt hn, htext⟩
  · have hk : Denotes (Kind.integer k).text k.toInt := (eq_ofInt_iff.mp rfl).2
    obtain ⟨ref, hv, hkind, -⟩ := evalSource_of_fits hk (fitsInteger_toInt k) fuel s
    rw [Int64.ofInt_toInt] at hkind
    exact ⟨ref, _, hv, hkind⟩

theorem integer_line_exact_bounds :
    let digits := "0009223372036854775808".toList
    (∃ ref k, evalSource (0 + 1) ('-' :: digits) Session.new =
        .value ref (evalSource (0 + 1) ('-' :: digits) Session.new).session ∧
      (evalSource (0 + 1) ('-' :: digits) Session.new).session.store.kind ref = .integer k ∧
      k.toInt = -9223372036854775808) ∧
    ∃ cause, evalSource (0 + 1) digits Session.new =
        .failure (.fault cause) (evalSource (0 + 1) digits Session.new).session ∧
      cause.category = .runtimeError := by
  intro digits
  have hd : isDigits digits := by decide
  have hvalue : Nat.ofDigits 10 (digits.reverse.map digitValue) = 9223372036854775808 := by
    decide +kernel
  have hleast : Denotes ('-' :: digits) (-9223372036854775808) :=
    ⟨['-'], digits, .inr rfl, hd, rfl, by rw [hvalue]; rfl⟩
  have hlarge : Denotes digits 9223372036854775808 :=
    ⟨[], digits, .inl rfl, hd, rfl, by rw [hvalue]; rfl⟩
  obtain ⟨ref, k, hv, hk, hn, -⟩ := (integer_line_exact Session.new hleast 0).1.mpr (by decide)
  exact ⟨⟨ref, k, hv, hk, hn⟩, (integer_line_exact Session.new hlarge 0).2.1 (by decide)⟩

end LineScript
