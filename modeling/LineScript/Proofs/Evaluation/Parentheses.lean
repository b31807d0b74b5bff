import LineScript.Proofs.Evaluation.Depth
import LineScript.Proofs.Evaluation.Lifting
import LineScript.Proofs.Session.Reachable
import LineScript.Proofs.Statement.Forms

namespace LineScript

open Text Eval

def parenthesize (text : Text) : Text :=
  '(' :: text ++ [')']

theorem quoted_parenthesize (text : Text) :
    (literals (parenthesize text)).quoted.map Prod.fst = (literals text).quoted.map Prod.fst := by
  rw [parenthesize, List.cons_append, literals_cons (by decide) (by decide)]
  exact quoted_append_singleton (by decide) (by decide) text

theorem Session.lifted?_parenthesize (s : Session) (text : Text) :
    s.lifted? (parenthesize text) = (s.lifted? text).map parenthesize := by
  have hopening : Segment ['('] := .of_plain (by simp)
  have h : s.lifted? (['('] ++ (text ++ [')'])) = _ := s.lifted?_append hopening (text ++ [')'])
  rw [lifted?_append_singleton (by decide) (by decide), Option.map_map] at h
  exact h

theorem Outcome.Alike.ended_iff {α : Type} {related : Session → Session → Prop} {o o' : Outcome α}
    (h : o.Alike related o') : o.Ended ↔ o'.Ended := by
  cases h <;> rfl

section

variable {s : Session} {text lifted : Text}

/-- The parentheses around what is left are taken off. -/
theorem evaluate_parenthesize (hl : s.lifted? text = some lifted) (hc : Clear ';' 1 lifted)
    (fuel depth : Nat) : evaluate (fuel + 1) (parenthesize text) depth s =
      evaluate fuel lifted (depth + 1)
        (((s.record (.evaluating s.tracing depth (parenthesize text))).withLiterals
          ((literals text).quoted.map Prod.fst)).record
            (.classified (.parenthesized lifted))) := by
  have hp : s.lifted? (parenthesize text) = some (parenthesize lifted) := by
    rw [s.lifted?_parenthesize, hl, Option.map_some]
  have hform : Statement.classify? (parenthesize lifted) = some (.parenthesized lifted) :=
    Statement.classify?_parenthesized hc
  rw [evaluate_of_lifted? hp, performText_of_classify? hform, quoted_parenthesize]
  rfl

theorem evaluate_parenthesize_alike (hl : s.lifted? text = some lifted) (hc : Clear ';' 1 lifted)
    (fuel depth : Nat) : (evaluate (fuel + 2) (parenthesize text) depth s).Alike Session.SameButLog
      (evaluate (fuel + 1) text (depth + 1) s) := by
  have unseen := Session.SameButLog.unseen
  have entered : Session.SameButLog (s.record (.evaluating s.tracing depth (parenthesize text)))
      (s.record (.evaluating s.tracing (depth + 1) text)) := Session.SameButLog.rfl.record _ _
  have lifting := unseen.withLiterals entered ((literals text).quoted.map Prod.fst)
  rw [evaluate_parenthesize hl hc, evaluate_of_quoteFree (Session.quoteFree_of_lifted? hl),
    evaluate_of_lifted? hl]
  exact unseen.performText (evaluate_alike unseen fuel) lifted Iff.rfl
    ((lifting.record_left _).record_left _)

theorem evaluate_parenthesize_unbalanced (hl : s.lifted? text = none) (fuel fuel' depth : Nat) :
    (evaluate (fuel + 1) (parenthesize text) depth s).Alike Session.SameButLog
      (evaluate (fuel' + 1) text (depth + 1) s) := by
  have hp : s.lifted? (parenthesize text) = none := by
    rw [s.lifted?_parenthesize, hl, Option.map_none]
  rw [evaluate_of_lifted?_eq_none hp, evaluate_of_lifted?_eq_none hl, quoted_parenthesize]
  exact .failure _ (Session.SameButLog.unseen.withLiterals (Session.SameButLog.rfl.record _ _) _)

end

/-- Evaluating a text in parentheses does what evaluating the text does one deeper, and ends if and
only if that ends, whatever the text is: only what is left of it without its literals must not be a
sequence. -/
theorem parentheses_transparent (s : Session) (text : Text) (depth : Nat)
    (hclear : ∀ lifted, s.lifted? text = some lifted → Clear ';' 1 lifted) :
    (∀ fuel, (evaluate (fuel + 2) (parenthesize text) depth s).Alike Session.SameButLog
      (evaluate (fuel + 1) text (depth + 1) s)) ∧
    ((∃ fuel, (evaluate fuel (parenthesize text) depth s).Ended) ↔
      ∃ fuel, (evaluate fuel text (depth + 1) s).Ended) := by
  have alike (fuel : Nat) : (evaluate (fuel + 2) (parenthesize text) depth s).Alike
      Session.SameButLog (evaluate (fuel + 1) text (depth + 1) s) := by
    cases hl : s.lifted? text with
    | none => exact evaluate_parenthesize_unbalanced hl (fuel + 1) fuel depth
    | some lifted => exact evaluate_parenthesize_alike hl (hclear lifted hl) fuel depth
  refine ⟨alike, ?_, ?_⟩
  · rintro ⟨fuel, hended⟩
    match fuel with
    | 0 => exact hended.elim
    -- The parentheses alone take one more level, so only unbalanced quotes end this soon.
    | 1 =>
      cases hl : s.lifted? text with
      | none =>
        exact ⟨1, (evaluate_parenthesize_unbalanced hl 0 0 depth).ended_iff.mp hended⟩
      | some lifted =>
        rw [evaluate_parenthesize hl (hclear lifted hl)] at hended
        exact hended.elim
    | fuel + 2 => exact ⟨fuel + 1, (alike fuel).ended_iff.mp hended⟩
  · rintro ⟨fuel, hended⟩
    cases fuel with
    | zero => exact hended.elim
    | succ fuel => exact ⟨fuel + 2, (alike fuel).ended_iff.mpr hended⟩

theorem parentheses_transparent_backslash :
    let text := "x <- add:\"a;\",\")\"\\".toList
    (∀ lifted, Session.new.lifted? text = some lifted → Clear ';' 1 lifted) ∧
      (evaluate 4 (parenthesize text) 0 Session.new).Alike Session.SameButLog
        (evaluate 3 text 1 Session.new) := by
  intro text
  have hl : Session.new.lifted? text = some "x <- add:_s_1,_s_2\\".toList := by decide +kernel
  have hclear : ∀ lifted, Session.new.lifted? text = some lifted → Clear ';' 1 lifted := by
    intro lifted h
    cases hl.symm.trans h
    decide +kernel
  exact ⟨hclear, (parentheses_transparent Session.new text 0 hclear).1 2⟩

end LineScript
