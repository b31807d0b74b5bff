import LineScript.Proofs.Statement.Forms
import LineScript.Statement.Printer

namespace LineScript.Statement

open Text

structure Separable (args : List Text) : Prop where
  ne : args ≠ [[]]
  trimmed : ∀ arg ∈ args, trim arg = arg
  clear : ∀ arg ∈ args, Clear ',' 0 arg
  closed : ∀ arg ∈ args, depthAfter 0 arg = 0

/-- Statements whose components fit their places in the canonical text. -/
inductive Printable : Statement → Prop where
  | assign {name expr : Text} : isName name → expr ≠ [] → '\n' ∉ expr →
    (∀ front target, isName target → expr ≠ front ++ extendsWord ++ target) →
    Printable (.assign name expr)
  | extend {field expr target : Text} : isName field → '\n' ∉ expr → isName target →
    Printable (.extend field expr target)
  | fieldCall {receiver field : Text} {args : List Text} : receiver ≠ [] →
    receiver.all isCalleeChar → field ≠ [] → field.all isLetter → Separable args →
    Printable (.fieldCall receiver field args)
  | call {callee : Text} {args : List Text} : callee ≠ [] → callee.all isCalleeChar →
    Separable args → Printable (.call callee args)
  | block {params : List Text} {body : Text} : (∀ name ∈ params, name ≠ [] ∧ name.all isLetter) →
    '\n' ∉ body → Printable (.block params body)

theorem arguments_printArguments {args : List Text} (h : Separable args) :
    arguments (printArguments args) = args := by
  have hgap : ∀ c ∈ [' '], isBlank c := by
    simp only [List.mem_singleton, forall_eq]
    decide
  exact arguments_join hgap h.ne h.trimmed fun arg ha =>
    .of_clear (h.clear arg ha) (h.closed arg ha)

/-- A statement is read back from its canonical text, whatever its components hold, unless a
semicolon outside of all brackets makes a sequence of that text. -/
theorem classify?_print {form : Statement} (h : form.Printable) (hc : Clear ';' 0 form.print) :
    classify? form.print = some form := by
  cases h with
  | assign hn he hl ho => exact classify?_assign hn he hl ho hc
  | extend hf hl ht => exact classify?_extend hf hl ht hc
  | fieldCall hr hrc hf hfc ha =>
    rw [print, classify?_fieldCall hr hrc hf hfc hc, arguments_printArguments ha]
  | call hne hcc ha => rw [print, classify?_call hne hcc hc, arguments_printArguments ha]
  | block hp hn =>
    rw [print, classify?_block (all_isFieldChar_join fun name hm => (hp name hm).2) hn hc,
      parameters_join hp]

theorem classify?_print_fieldCall :
    Printable (.fieldCall "p,q".toList "go".toList ["(f:1, 2)".toList, [], "[x|x; y]".toList]) ∧
    classify? "p,q go:(f:1, 2), , [x|x; y]".toList =
      some (.fieldCall "p,q".toList "go".toList ["(f:1, 2)".toList, [], "[x|x; y]".toList]) := by
  have hargs : Separable ["(f:1, 2)".toList, [], "[x|x; y]".toList] :=
    ⟨by decide, by decide, by decide, by decide⟩
  have h : Printable (.fieldCall "p,q".toList "go".toList
      ["(f:1, 2)".toList, [], "[x|x; y]".toList]) :=
    .fieldCall (by decide) (by decide) (by decide) (by decide) hargs
  exact ⟨h, classify?_print h (by decide)⟩

end LineScript.Statement
