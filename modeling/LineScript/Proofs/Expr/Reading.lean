import LineScript.Proofs.Expr.Value
import LineScript.Proofs.Statement.Forms
import LineScript.Proofs.Text.Quotes

namespace LineScript

open Text

def valueTexts : List Text :=
  [['o', 'b', 'j', 'e', 'c', 't'], ['t', 'r', 'u', 'e'], ['f', 'a', 'l', 's', 'e']]

/-- Names that are read as such and that no builtin function has for a parameter. -/
structure IsVariable (name : Text) : Prop where
  chars : name.all Statement.isNameChar
  nonDigit : ∃ c ∈ name, c.isDigit = false
  notValue : name ∉ valueTexts
  parameter : name ∉ [Native.left, Native.right]

namespace Expr

abbrev Plain (onParameter : Text → Prop) (e : Expr) : Prop :=
  e.Over (fun _ => False) fun name => IsVariable name ∧ onParameter name

def isLeafChar (c : Char) : Bool :=
  Statement.isNameChar c || c == '-'

def isExprChar (c : Char) : Bool :=
  isLeafChar c || c == ':' || c == ',' || c == '(' || c == ')'

variable {e : Expr} {onParameter : Text → Prop} {function : Native} {operands : List Expr}

theorem isLeafChar_of_isNameChar {c : Char} (h : Statement.isNameChar c) : isLeafChar c := by
  simp [isLeafChar, h]

theorem isLeafChar_of_mem_ofInt {n : Int} {c : Char} (h : c ∈ Decimal.ofInt n) : isLeafChar c := by
  obtain rfl | hd := Decimal.mem_ofInt h
  · decide
  · exact isLeafChar_of_isNameChar (by simp [Statement.isNameChar, Char.isAlphanum, hd])

theorem isLeafChar_of_mem {name : Text} (h : name.all Statement.isNameChar) :
    ∀ c ∈ name, isLeafChar c :=
  fun c hc => isLeafChar_of_isNameChar (List.all_eq_true.mp h c hc)

theorem isExprChar_of_isLeafChar {c : Char} (h : isLeafChar c) : isExprChar c := by
  simp [isExprChar, h]

theorem isBlank_of_isExprChar {c : Char} (h : isExprChar c) : isBlank c = false := by
  simp only [isExprChar, isLeafChar, Statement.isNameChar, Bool.or_eq_true, beq_iff_eq] at h
  rcases h with (((((h | rfl) | rfl) | rfl) | rfl) | rfl) | rfl
  case inl.inl.inl.inl.inl.inl => exact isBlank_of_isAlphanum h
  all_goals decide

theorem all_isNameChar_name (function : Native) : function.name.all Statement.isNameChar := by
  cases function <;> decide

theorem mem_operandText {c : Char} (h : c ∈ e.operandText) : c ∈ e.render ∨ c = '(' ∨ c = ')' := by
  rw [operandText, enclose] at h
  split at h
  · simp only [List.mem_append, List.mem_cons, List.not_mem_nil, or_false] at h
    obtain (h | h) | h := h
    · exact .inr (.inl h)
    · exact .inl h
    · exact .inr (.inr h)
  · exact .inl h

theorem isExprChar_of_mem_call {callee : Text} (hc : callee.all Statement.isNameChar)
    (h : ∀ x ∈ operands, ∀ c ∈ x.render, isExprChar c) {c : Char}
    (hm : c ∈ callee ++ ':' :: join [','] (operands.map operandText)) : isExprChar c := by
  obtain hm | rfl | hm := (List.mem_append.mp hm).imp_right List.mem_cons.mp
  · exact isExprChar_of_isLeafChar (isLeafChar_of_mem hc c hm)
  · decide
  · obtain hm | ⟨part, hp, hm⟩ := mem_join hm
    · cases List.mem_singleton.mp hm
      decide
    · obtain ⟨x, hx, rfl⟩ := List.mem_map.mp hp
      obtain hm | rfl | rfl := mem_operandText hm
      · exact h x hx c hm
      · decide
      · decide

theorem Plain.isExprChar {c : Char} (h : e.Plain onParameter) (hc : c ∈ e.render) :
    isExprChar c := by
  induction e using node_induction generalizing c with
  | number n => exact isExprChar_of_isLeafChar (isLeafChar_of_mem_ofInt hc)
  | string text => exact h.elim
  | parameter name => exact isExprChar_of_isLeafChar (isLeafChar_of_mem h.1.chars c hc)
  | node e function operands hn ih =>
    rw [Plain, over_of_node hn] at h
    rw [render_of_node hn] at hc
    exact isExprChar_of_mem_call (all_isNameChar_name function) (fun x hx _ => ih x hx (h x hx)) hc

theorem Plain.isExprChar_operandText {c : Char} (h : e.Plain onParameter) (hc : c ∈ e.operandText) :
    Expr.isExprChar c := by
  obtain hc | rfl | rfl := mem_operandText hc
  · exact h.isExprChar hc
  · decide
  · decide

theorem Plain.notMem {c : Char} (h : e.Plain onParameter)
    (hc : Expr.isExprChar c = false) : c ∉ e.render :=
  notMem_of_all (List.all_eq_true.mpr fun _ => h.isExprChar) hc

theorem Plain.chars (h : e.Plain onParameter) : ∀ c ∈ e.render, c ≠ '\\' ∧ c ≠ '"' := by
  intro c hc
  constructor
  · rintro rfl
    exact absurd hc (h.notMem (by decide))
  · rintro rfl
    exact absurd hc (h.notMem (by decide))

theorem Plain.quoteFree (h : e.Plain onParameter) : QuoteFree e.render :=
  quoteFree_of_plain h.chars

theorem Plain.quoteFree_enclosed (h : e.Plain onParameter) :
    QuoteFree ('(' :: e.render ++ [')']) := by
  have hclose : QuoteFree [')'] := rfl
  have hrest := h.quoteFree.append hclose (by decide)
  exact (quoteFree_plain_iff (by decide)).mpr ⟨by decide, hrest⟩

theorem render_ne_nil (h : e.Plain onParameter) : e.render ≠ [] := by
  induction e using node_induction with
  | number n => exact Decimal.ofInt_ne_nil n
  | string text => exact h.elim
  | parameter name =>
    obtain ⟨c, hc, -⟩ := h.1.nonDigit
    exact List.ne_nil_of_mem hc
  | node e function operands hn => simp [render_of_node hn]

theorem operandText_ne_nil (h : e.Plain onParameter) : e.operandText ≠ [] := by
  rw [operandText, enclose]
  split
  · simp
  · exact render_ne_nil h

theorem passes_of_leaf {text : Text} (h : ∀ c ∈ text, isLeafChar c) (depth : Nat) :
    Passes ',' depth text :=
  .of_plain (fun c hc => not_bracket_of (h c hc) (by decide)) fun _ hm =>
    absurd (h ',' hm) (by decide)

theorem operandText_of_node (h : e.node? = some (function, operands)) :
    e.operandText = '(' :: e.render ++ [')'] := by
  rw [operandText, enclose, if_pos (isCall_of_node h)]

theorem Plain.passes (h : e.Plain onParameter) (depth : Nat) : Passes ',' depth e.operandText := by
  induction e using node_induction generalizing depth with
  | number n => exact passes_of_leaf (fun c => isLeafChar_of_mem_ofInt) depth
  | string text => exact h.elim
  | parameter name => exact passes_of_leaf (isLeafChar_of_mem h.1.chars) depth
  | node e function operands hn ih =>
    rw [Plain, over_of_node hn] at h
    have hname : Passes ',' (depth + 1) function.name :=
      passes_of_leaf (isLeafChar_of_mem (all_isNameChar_name function)) _
    have hcolon : Passes ',' (depth + 1) [':'] := .singleton (by decide) (by decide) (by simp)
    have hcomma : Passes ',' (depth + 1) [','] := .singleton (by decide) (by decide) (by simp)
    have hjoin : Passes ',' (depth + 1) (join [','] (operands.map operandText)) := by
      refine .join hcomma fun part hp => ?_
      obtain ⟨x, hx, rfl⟩ := List.mem_map.mp hp
      exact ih x hx (h x hx) (depth + 1)
    rw [operandText_of_node hn, render_of_node hn]
    exact .parentheses (hname.append (hcolon.append hjoin))

theorem arguments_of_plain (h : ∀ x ∈ operands, x.Plain onParameter) :
    arguments (join [','] (operands.map operandText)) = operands.map operandText := by
  refine arguments_join (by simp) (fun he => ?_) (fun part hp => ?_) fun part hp => ?_
  · have hm : [] ∈ operands.map operandText := he ▸ List.mem_cons_self
    obtain ⟨x, hx, hn⟩ := List.mem_map.mp hm
    exact operandText_ne_nil (h x hx) hn
  all_goals obtain ⟨x, hx, rfl⟩ := List.mem_map.mp hp
  · exact trim_of_noBlank fun c hc => isBlank_of_isExprChar ((h x hx).isExprChar_operandText hc)
  · exact (h x hx).passes 0

theorem classify?_call {callee : Text} (hne : callee ≠ []) (hc : callee.all Statement.isNameChar)
    (h : ∀ x ∈ operands, x.Plain onParameter) :
    Statement.classify? (callee ++ ':' :: join [','] (operands.map operandText)) =
      some (.call callee (operands.map operandText)) := by
  have hchars : (callee ++ ':' :: join [','] (operands.map operandText)).all isExprChar :=
    List.all_eq_true.mpr fun _ =>
      isExprChar_of_mem_call hc fun x hx _ => (h x hx).isExprChar
  rw [Statement.classify?_call hne (Statement.all_isCalleeChar hc)
    (.of_notMem (notMem_of_all hchars (by decide)) 0), arguments_of_plain h]

theorem Plain.classify?_enclosed (h : e.Plain onParameter) :
    Statement.classify? ('(' :: e.render ++ [')']) = some (.parenthesized e.render) :=
  Statement.classify?_parenthesized (.of_notMem (h.notMem (by decide)) 1)

theorem Plain.classify?_node (h : e.Plain onParameter) (hn : e.node? = some (function, operands)) :
    Statement.classify? e.render = some (.call function.name (operands.map operandText)) := by
  rw [Plain, over_of_node hn] at h
  rw [render_of_node hn]
  exact classify?_call (by cases function <;> decide) (all_isNameChar_name function) h

theorem classify?_variable {name : Text} (h : IsVariable name) :
    Statement.classify? name = some (.identifier name) := by
  obtain ⟨c, hc, hd⟩ := h.nonDigit
  have hr := h.notValue
  simp only [valueTexts, List.mem_cons, List.not_mem_nil, or_false, not_or] at hr
  exact Statement.classify?_identifier h.chars hc hd hr.1 hr.2.1 hr.2.2

end Expr

end LineScript
