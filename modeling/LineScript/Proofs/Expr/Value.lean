import Mathlib.Data.List.Forall2
import LineScript.Expr.Printer
import LineScript.Native

namespace LineScript

open LineScript.Expr (Value wrap mismatch)

def Kind.value? : Kind → Option Value
  | .integer x => some (.number x.toInt)
  | .string text => some (.string text)
  | _ => none

def Native.combine : Native → List Value → Except Fault Value
  | .add, [.number m, .number n] => .ok (.number (wrap (m + n)))
  | .add, [.string s, .string t] => .ok (.string (s ++ t))
  | .sub, [.number m, .number n] => .ok (.number (wrap (m - n)))
  | .inc, [.number n] => .ok (.number (wrap (n + 1)))
  | function, operands => .error (mismatch function.name operands)

namespace Expr

def node? : Expr → Option (Native × List Expr)
  | add left right => some (.add, [left, right])
  | sub left right => some (.sub, [left, right])
  | inc operand => some (.inc, [operand])
  | _ => none

/-- Whether all numbers fit into 64 bits, and all strings and parameters have the properties. -/
def Over (onString onParameter : Text → Prop) : Expr → Prop
  | number n => Int64.minValue.toInt ≤ n ∧ n ≤ Int64.maxValue.toInt
  | string text => onString text
  | parameter name => onParameter name
  | add left right | sub left right =>
    left.Over onString onParameter ∧ right.Over onString onParameter
  | inc operand => operand.Over onString onParameter

def integer (env : Text → Int) : Expr → Int
  | number n => n
  | string _ => 0
  | parameter name => env name
  | add left right => left.integer env + right.integer env
  | sub left right => left.integer env - right.integer env
  | inc operand => operand.integer env + 1

@[elab_as_elim]
theorem node_induction {motive : Expr → Prop} (number : ∀ n, motive (number n))
    (string : ∀ text, motive (string text)) (parameter : ∀ name, motive (parameter name))
    (node : ∀ e function operands, e.node? = some (function, operands) →
      (∀ x ∈ operands, motive x) → motive e) (e : Expr) : motive e := by
  induction e with
  | number n => exact number n
  | string text => exact string text
  | parameter name => exact parameter name
  | add left right ihl ihr => exact node _ _ _ rfl (by simp [ihl, ihr])
  | sub left right ihl ihr => exact node _ _ _ rfl (by simp [ihl, ihr])
  | inc operand ih => exact node _ _ _ rfl (by simp [ih])

variable {e : Expr} {function : Native} {operands : List Expr}

theorem params_length_of_node (h : e.node? = some (function, operands)) :
    operands.length = function.params.length := by
  cases e with
  | add | sub | inc => cases h; rfl
  | _ => cases h

theorem isCall_of_node (h : e.node? = some (function, operands)) : e.isCall := by
  cases e with
  | add | sub | inc => rfl
  | _ => cases h

def operandText (e : Expr) : Text :=
  e.enclose e.render

theorem render_of_node (h : e.node? = some (function, operands)) :
    e.render = function.name ++ ':' :: Text.join [','] (operands.map operandText) := by
  cases e with
  | add | sub | inc => cases h; simp [render, Native.name, Text.join, operandText]
  | _ => cases h

theorem value_of_node (h : e.node? = some (function, operands)) (given : Text → Value) :
    e.value given = operands.mapM (value given) >>= function.combine := by
  cases e with
  | add left right =>
    cases h
    rw [value, List.mapM_cons, List.mapM_cons, List.mapM_nil]
    cases left.value given with
    | error cause => rfl
    | ok x =>
      cases right.value given with
      | error cause => rfl
      | ok y => cases x <;> cases y <;> rfl
  | sub left right =>
    cases h
    rw [value, List.mapM_cons, List.mapM_cons, List.mapM_nil]
    cases left.value given with
    | error cause => rfl
    | ok x =>
      cases right.value given with
      | error cause => rfl
      | ok y => cases x <;> cases y <;> rfl
  | inc operand =>
    cases h
    rw [value, List.mapM_cons, List.mapM_nil]
    cases operand.value given with
    | error cause => rfl
    | ok x => cases x <;> rfl
  | _ => cases h

variable {onString onParameter : Text → Prop}

theorem over_of_node (h : e.node? = some (function, operands)) :
    e.Over onString onParameter ↔ ∀ x ∈ operands, x.Over onString onParameter := by
  cases e with
  | add | sub | inc => cases h; simp [Over]
  | _ => cases h

theorem Over.imp {onString' onParameter' : Text → Prop}
    (hs : ∀ text, onString text → onString' text)
    (hp : ∀ name, onParameter name → onParameter' name) (h : e.Over onString onParameter) :
    e.Over onString' onParameter' := by
  induction e using node_induction with
  | number n => exact h
  | string text => exact hs text h
  | parameter name => exact hp name h
  | node e function operands hn ih =>
    rw [over_of_node hn] at h ⊢
    exact fun x hx => ih x hx (h x hx)

theorem wrap_of_range {n : Int} (h : Int64.minValue.toInt ≤ n ∧ n ≤ Int64.maxValue.toInt) :
    wrap n = n :=
  Int.bmod_eq_of_le h.1 (Int.lt_of_le_of_lt h.2 (by decide))

/-- The value of an expression without strings is its integer modulo `2 ^ 64` if this is so for the
parameters. -/
theorem value_eq_wrap {given : Text → Value} (env : Text → Int)
    (he : e.Over (fun _ => False) onParameter)
    (hg : ∀ name, onParameter name → given name = .number (wrap (env name))) :
    e.value given = .ok (.number (wrap (e.integer env))) := by
  induction e with
  | number n => exact congrArg (Except.ok ∘ Value.number) (wrap_of_range he).symm
  | string text => exact he.elim
  | parameter name => exact congrArg Except.ok (hg name he)
  | add left right ihl ihr =>
    simp only [value, ihl he.1, ihr he.2, integer]
    exact congrArg (Except.ok ∘ Value.number) (by simp [wrap])
  | sub left right ihl ihr =>
    simp only [value, ihl he.1, ihr he.2, integer]
    exact congrArg (Except.ok ∘ Value.number) (by simp [wrap])
  | inc operand ih =>
    simp only [value, ih he, integer]
    exact congrArg (Except.ok ∘ Value.number) (by simp [wrap])

def environment (names : List Text) (values : List Int) (name : Text) : Int :=
  (Bindings.get? (names.zip values) name).getD 0

theorem map_environment {names : List Text} {values : List Int} (hd : names.Nodup)
    (hl : names.length = values.length) : names.map (environment names values) = values := by
  induction names generalizing values with
  | nil => exact (List.length_eq_zero_iff.mp hl.symm).symm
  | cons name names ih =>
    cases values with
    | nil => cases hl
    | cons value values =>
      obtain ⟨hn, hd⟩ := List.nodup_cons.mp hd
      have hother : ∀ other ∈ names, environment (name :: names) (value :: values) other =
          environment names values other := by
        intro other ho
        have hne : other ≠ name := fun he => hn (he ▸ ho)
        simp only [environment, List.zip_cons_cons, Bindings.get?, List.lookup_cons,
          beq_eq_false_iff_ne.mpr hne]
      rw [List.map_cons, List.map_congr_left hother, ih hd (Nat.succ.inj hl), environment,
        List.zip_cons_cons, Bindings.get?, List.lookup_cons_self, Option.getD_some]

end Expr

namespace Kind

def Holds (kind : Kind) (v : Value) : Prop :=
  kind.value? = some v

theorem Holds.cases {kind : Kind} {v : Value} (h : kind.Holds v) :
    (∃ x, kind = .integer x ∧ v = .number x.toInt) ∨
      ∃ text, kind = .string text ∧ v = .string text := by
  cases kind with
  | integer x => cases h; exact .inl ⟨x, rfl, rfl⟩
  | string text => cases h; exact .inr ⟨text, rfl, rfl⟩
  | _ => cases h

end Kind

namespace Native

inductive Agree (function : Native) (kinds : List Kind) :
    Option Kind → Except Fault Value → Prop where
  | ok {kind : Kind} {v : Value} : kind.Holds v → Agree function kinds (some kind) (.ok v)
  | error : Agree function kinds none
    (.error (.operandMismatch function.name (kinds.map Kind.typeName)))

theorem result?_agree (function : Native) {kinds : List Kind} {values : List Value}
    (h : List.Forall₂ Kind.Holds kinds values) (hl : values.length = function.params.length) :
    function.Agree kinds (function.result? kinds) (function.combine values) := by
  cases function with
  | inc =>
    obtain ⟨v, rfl⟩ := List.length_eq_one_iff.mp hl
    obtain _ | ⟨hv, ⟨⟩⟩ := h
    obtain ⟨x, rfl, rfl⟩ | ⟨s, rfl, rfl⟩ := hv.cases
    · exact .ok (congrArg (some ∘ Value.number) (Int64.toInt_add x 1))
    · exact .error
  | add =>
    obtain ⟨v, w, rfl⟩ := List.length_eq_two.mp hl
    obtain _ | ⟨hv, _ | ⟨hw, ⟨⟩⟩⟩ := h
    obtain ⟨x, rfl, rfl⟩ | ⟨s, rfl, rfl⟩ := hv.cases <;>
      obtain ⟨y, rfl, rfl⟩ | ⟨t, rfl, rfl⟩ := hw.cases
    · exact .ok (congrArg (some ∘ Value.number) (Int64.toInt_add x y))
    · exact .error
    · exact .error
    · exact .ok rfl
  | sub =>
    obtain ⟨v, w, rfl⟩ := List.length_eq_two.mp hl
    obtain _ | ⟨hv, _ | ⟨hw, ⟨⟩⟩⟩ := h
    obtain ⟨x, rfl, rfl⟩ | ⟨s, rfl, rfl⟩ := hv.cases <;>
      obtain ⟨y, rfl, rfl⟩ | ⟨t, rfl, rfl⟩ := hw.cases
    · exact .ok (congrArg (some ∘ Value.number) (Int64.toInt_sub x y))
    · exact .error
    · exact .error
    · exact .error

end Native

end LineScript
