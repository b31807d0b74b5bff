import LineScript.Proofs.Expr.Reading
import LineScript.Statement.Printer

namespace LineScript

open Text

/-- Names that a line can bind to a block without hiding a builtin function. -/
structure IsCalleeName (name : Text) : Prop where
  nonempty : name ≠ []
  chars : name.all Statement.isNameChar
  own : ∀ function : Native, name ≠ function.name

/-- Names that a block can have for its parameters: names of variables without digits that hide no
builtin function. -/
structure IsParameterName (name : Text) : Prop where
  nonempty : name ≠ []
  chars : ∀ c ∈ name, c.isAlpha ∨ c = '_'
  notValue : name ∉ valueTexts
  parameter : name ∉ [Native.left, Native.right]
  own : ∀ function : Native, name ≠ function.name

namespace IsParameterName

variable {name : Text}

theorem isLetter (h : IsParameterName name) : name.all Statement.isLetter :=
  List.all_eq_true.mpr fun c hc => by simpa [Statement.isLetter] using h.chars c hc

theorem isVariable (h : IsParameterName name) : IsVariable name where
  chars := by
    rw [List.all_eq_true]
    intro c hc
    obtain ha | rfl := h.chars c hc
    · simp [Statement.isNameChar, Char.isAlphanum, ha]
    · decide
  nonDigit := by
    obtain ⟨c, hc⟩ := List.exists_mem_of_ne_nil name h.nonempty
    refine ⟨c, hc, ?_⟩
    exact Statement.isDigit_of_isLetter (List.all_eq_true.mp h.isLetter c hc)
  notValue := h.notValue
  parameter := h.parameter

end IsParameterName

namespace Expr

def isBlockChar (c : Char) : Bool :=
  isExprChar c || c == '[' || c == '|' || c == ']'

def blockText (params : List Text) (body : Expr) : Text :=
  Statement.print (.block params body.render)

def callText (callee : Text) (args : List Expr) : Text :=
  callee ++ ':' :: join [','] (args.map operandText)

variable {params : List Text} {body : Expr} {onParameter : Text → Prop}

theorem isBlockChar_of_isExprChar {c : Char} (h : isExprChar c) : isBlockChar c := by
  simp [isBlockChar, h]

theorem all_isBlockChar (hp : ∀ p ∈ params, IsParameterName p) (hb : body.Plain onParameter) :
    (blockText params body).all isBlockChar := by
  rw [List.all_eq_true]
  intro c hc
  simp only [blockText, Statement.print, List.mem_append, List.mem_cons, List.not_mem_nil,
    or_false] at hc
  obtain ((rfl | hc) | rfl | hc) | rfl := hc
  · decide
  · obtain hc | ⟨p, hm, hc⟩ := mem_join hc
    · cases List.mem_singleton.mp hc
      decide
    · have hleaf := isLeafChar_of_mem (hp p hm).isVariable.chars c hc
      exact isBlockChar_of_isExprChar (isExprChar_of_isLeafChar hleaf)
  · decide
  · exact isBlockChar_of_isExprChar (hb.isExprChar hc)
  · decide

theorem classify?_blockText (hp : ∀ p ∈ params, IsParameterName p) (hb : body.Plain onParameter) :
    Statement.classify? (blockText params body) = some (.block params body.render) := by
  have hfield := Statement.all_isFieldChar_join fun p hm => (hp p hm).isLetter
  have hclear : Clear ';' 0 (blockText params body) :=
    .of_notMem (notMem_of_all (all_isBlockChar hp hb) (by decide)) 0
  have hread := Statement.classify?_block hfield (hb.notMem (by decide)) hclear
  rw [Statement.parameters_join fun p hm => ⟨(hp p hm).nonempty, (hp p hm).isLetter⟩] at hread
  exact hread

def definitionText (callee : Text) (params : List Text) (body : Expr) : Text :=
  Statement.print (.assign callee (blockText params body))

theorem classify?_definitionText {callee : Text} (hc : IsCalleeName callee)
    (hp : ∀ p ∈ params, IsParameterName p) (hb : body.Plain onParameter) :
    Statement.classify? (definitionText callee params body) =
      some (.assign callee (blockText params body)) := by
  have hall := all_isBlockChar hp hb
  have hlast : (blockText params body).getLast? = some ']' := List.getLast?_concat
  have hname : isName callee := isName_iff.mpr ⟨hc.nonempty, List.all_eq_true.mpr fun c hm =>
    Statement.isWord_of_isNameChar (List.all_eq_true.mp hc.chars c hm)⟩
  have hsemicolon : ';' ∉ callee ++ Statement.arrow ++ blockText params body := by
    have hcallee : ';' ∉ callee := notMem_of_all hc.chars (by decide)
    have hblock : ';' ∉ blockText params body := notMem_of_all hall (by decide)
    simp [Statement.arrow, hcallee, hblock]
  have hbreak : '\n' ∉ blockText params body := notMem_of_all hall (by decide)
  exact Statement.classify?_assign_of_getLast? hname hlast (by decide) hbreak
    (.of_notMem hsemicolon 0)

theorem quoteFree_blockText (hp : ∀ p ∈ params, IsParameterName p) (hb : body.Plain onParameter) :
    QuoteFree (blockText params body) :=
  quoteFree_of_all (all_isBlockChar hp hb) (by decide) (by decide)

theorem quoteFree_definitionText {callee : Text} (hc : IsCalleeName callee)
    (hp : ∀ p ∈ params, IsParameterName p) (hb : body.Plain onParameter) :
    QuoteFree (definitionText callee params body) := by
  have hcallee : QuoteFree callee := quoteFree_of_all hc.chars (by decide) (by decide)
  have harrow : QuoteFree Statement.arrow := rfl
  have hhead : (blockText params body).head? ≠ some '\\' := by simp [blockText, Statement.print]
  exact (hcallee.append harrow (by decide)).append (quoteFree_blockText hp hb) hhead

theorem classify?_callText {callee : Text} (hc : IsCalleeName callee) {args : List Expr}
    (ha : ∀ x ∈ args, x.Plain onParameter) :
    Statement.classify? (callText callee args) = some (.call callee (args.map operandText)) :=
  classify?_call hc.nonempty hc.chars ha

theorem quoteFree_callText {callee : Text} (hc : IsCalleeName callee) {args : List Expr}
    (ha : ∀ x ∈ args, x.Plain onParameter) : QuoteFree (callText callee args) := by
  have hall : (callText callee args).all isExprChar := List.all_eq_true.mpr fun _ =>
    isExprChar_of_mem_call hc.chars fun x hx _ => (ha x hx).isExprChar
  exact quoteFree_of_all hall (by decide) (by decide)

end Expr

end LineScript
