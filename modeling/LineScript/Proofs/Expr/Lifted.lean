import LineScript.Proofs.Evaluation.Lifting
import LineScript.Proofs.Expr.Reading
import LineScript.Proofs.Session.Undisturbed
import LineScript.Proofs.Text.Literals

namespace LineScript

open Text
open LineScript.Expr (Value)

/-- A text with its literals, and what is left of it when these get names with numbers above `n`. -/
inductive Lifts : Nat → Text → List Text → Text → Prop where
  | nil (n : Nat) : Lifts n [] [] []
  | plain {n : Nat} {c : Char} {text lifted : Text} {found : List Text} : c ≠ '\\' → c ≠ '"' →
    Lifts n text found lifted → Lifts n (c :: text) found (c :: lifted)
  | literal {n : Nat} {literal text lifted : Text} {found : List Text} : '\\' ∉ literal →
    Lifts (n + 1) text found lifted →
    Lifts n (quote literal ++ text) (literal :: found) (Session.literalName (n + 1) ++ lifted)

namespace Lifts

variable {n : Nat} {text lifted : Text} {found : List Text}

theorem literals_eq (h : Lifts n text found lifted) :
    (literals text).closed = true ∧ (literals text).quoted.map Prod.fst = found ∧
      (literals text).lead ++ (namedPieces n (literals text).quoted).flatten = lifted := by
  induction h with
  | nil n => exact ⟨rfl, rfl, rfl⟩
  | plain hb hq _ ih =>
    rw [literals_cons hb hq]
    exact ⟨ih.1, ih.2.1, congrArg _ ih.2.2⟩
  | literal hl _ ih =>
    rw [literals_quote (.of_notMem hl)]
    refine ⟨ih.1, congrArg _ ih.2.1, ?_⟩
    simp only [List.nil_append, namedPieces, List.flatten_cons, List.append_assoc, ih.2.2]

theorem extractLiterals_apply {s : Session} (h : Lifts s.literals text found lifted) :
    extractLiterals bindLiteral text s = .value (some lifted) (s.withLiterals found) := by
  obtain ⟨hc, hq, hl⟩ := h.literals_eq
  rw [LineScript.extractLiterals_apply, if_pos hc, hq, hl]

theorem of_plain (h : ∀ c ∈ text, c ≠ '\\' ∧ c ≠ '"') (n : Nat) : Lifts n text [] text := by
  induction text with
  | nil => exact .nil n
  | cons c text ih =>
    obtain ⟨hb, hq⟩ := h c List.mem_cons_self
    exact .plain hb hq (ih fun d hd => h d (List.mem_cons_of_mem c hd))

theorem append {back lifted' : Text} {found' : List Text} (h : Lifts n text found lifted)
    (hb : Lifts (n + found.length) back found' lifted') :
    Lifts n (text ++ back) (found ++ found') (lifted ++ lifted') := by
  induction h with
  | nil n => exact hb
  | plain hc hq _ ih => exact .plain hc hq (ih hb)
  | literal hl _ ih =>
    rw [List.append_assoc, List.append_assoc]
    rw [List.length_cons, Nat.add_comm _ 1, ← Nat.add_assoc] at hb
    exact .literal hl (ih hb)

end Lifts

namespace Expr

def strings : Expr → List Text
  | string text => [text]
  | add left right | sub left right => left.strings ++ right.strings
  | inc operand => operand.strings
  | _ => []

/-- An expression with names in the place of its strings, with numbers above `n`. -/
def lifted (n : Nat) : Expr → Expr
  | string _ => parameter (Session.literalName (n + 1))
  | add left right => add (left.lifted n) (right.lifted (n + left.strings.length))
  | sub left right => sub (left.lifted n) (right.lifted (n + left.strings.length))
  | inc operand => inc (operand.lifted n)
  | e => e

/-- Expressions with strings but without parameters, no string having a backslash. -/
abbrev Closed (e : Expr) : Prop :=
  e.Over (fun text => '\\' ∉ text) fun _ => False

theorem isCall_lifted (n : Nat) (e : Expr) : (e.lifted n).isCall = e.isCall := by
  cases e <;> rfl

theorem lifts_operandText {n : Nat} {e : Expr}
    (h : Lifts n e.render e.strings (e.lifted n).render) :
    Lifts n e.operandText e.strings (e.lifted n).operandText := by
  rw [operandText, operandText, enclose, enclose, isCall_lifted]
  split
  · have hclose : Lifts (n + e.strings.length) [')'] [] [')'] := .of_plain (by simp) _
    have hinner := h.append hclose
    rw [List.append_nil] at hinner
    exact .plain (by decide) (by decide) hinner
  · exact h

theorem lifts_front {n : Nat} {text lifted : Text} {found : List Text} (front : Text)
    (hf : ∀ c ∈ front, c ≠ '\\' ∧ c ≠ '"') (h : Lifts n text found lifted) :
    Lifts n (front ++ text) found (front ++ lifted) :=
  (Lifts.of_plain hf n).append h

theorem lifts_operands {n : Nat} {left right : Expr}
    (hl : Lifts n left.render left.strings (left.lifted n).render)
    (hr : Lifts (n + left.strings.length) right.render right.strings
      (right.lifted (n + left.strings.length)).render) :
    Lifts n (left.operandText ++ ',' :: right.operandText) (left.strings ++ right.strings)
      ((left.lifted n).operandText ++
        ',' :: (right.lifted (n + left.strings.length)).operandText) :=
  (lifts_operandText hl).append (.plain (by decide) (by decide) (lifts_operandText hr))

theorem Closed.lifts {e : Expr} (h : e.Closed) (n : Nat) :
    Lifts n e.render e.strings (e.lifted n).render := by
  induction e generalizing n with
  | number m =>
    have hp : (number m).Plain fun _ => True := h
    exact .of_plain hp.chars n
  | string text =>
    have hq := Lifts.literal (n := n) h (.nil (n + 1))
    rw [List.append_nil, List.append_nil] at hq
    exact hq
  | parameter name => exact h.elim
  | add left right ihl ihr =>
    have ho := lifts_operands (ihl h.1 n) (ihr h.2 _)
    exact lifts_front ['a', 'd', 'd', ':'] (by simp) ho
  | sub left right ihl ihr =>
    have ho := lifts_operands (ihl h.1 n) (ihr h.2 _)
    exact lifts_front ['s', 'u', 'b', ':'] (by simp) ho
  | inc operand ih =>
    exact lifts_front ['i', 'n', 'c', ':'] (by simp) (lifts_operandText (ih h n))

theorem isVariable_literalName (n : Nat) : IsVariable (Session.literalName n) where
  chars := by
    rw [List.all_eq_true]
    intro c hc
    simp only [Session.literalName, List.mem_cons] at hc
    obtain rfl | rfl | rfl | hc := hc
    · decide
    · decide
    · decide
    · simp [Statement.isNameChar, Char.isAlphanum, Decimal.isDigit_of_mem_ofNat hc]
  nonDigit := ⟨'_', List.mem_cons_self, by decide⟩
  notValue := by simp [valueTexts, Session.literalName]
  parameter := by simp [Session.literalName, Native.left, Native.right]

end Expr

namespace Session

def IsLiteralAbove (n : Nat) (name : Text) : Prop :=
  ∃ k, n < k ∧ name = literalName k

theorem withLiteral_undisturbed {n : Nat} {s : Session} (h : n ≤ s.literals) (literal : Text) :
    UndisturbedBut (IsLiteralAbove n) s (s.withLiteral literal) := by
  have hname : IsLiteralAbove n (literalName (s.literals + 1)) :=
    ⟨s.literals + 1, Nat.lt_succ_of_le h, rfl⟩
  have halloc : UndisturbedBut (IsLiteralAbove n) s
      { s with store := (s.store.alloc ⟨.string literal, []⟩).2 } := .onStore (.alloc _)
  have hbind := halloc.trans (.bindTemporary hname ⟨s.store.size⟩)
  exact ⟨hbind.store, hbind.lookup_eq⟩

theorem withLiterals_undisturbed {n : Nat} {s : Session} (h : n ≤ s.literals) (found : List Text) :
    UndisturbedBut (IsLiteralAbove n) s (s.withLiterals found) := by
  induction found generalizing s with
  | nil => exact .rfl
  | cons literal found ih =>
    have others := ih (s := s.withLiteral literal) (Nat.le_succ_of_le h)
    exact (withLiteral_undisturbed h literal).trans others

theorem withLiteral_means (s : Session) (literal : Text) :
    (s.withLiteral literal).Means (literalName (s.literals + 1)) (.string literal) := by
  refine ⟨⟨s.store.size⟩, ?_, ?_⟩
  · exact (Scopes.lookup?_bindTemporary s.scopes _ _ _).trans (if_pos rfl)
  · have ho := s.store.object_alloc_self ⟨.string literal, []⟩
    exact congrArg (fun o : Object => o.kind.value?) ho

def Names (s : Session) (n : Nat) (found : List Text) : Prop :=
  ∀ i literal, found[i]? = some literal → s.Means (literalName (n + i + 1)) (.string literal)

theorem Names.left {s : Session} {n : Nat} {first second : List Text}
    (h : s.Names n (first ++ second)) : s.Names n first := by
  intro i literal hi
  have hlt : i < first.length := (List.getElem?_eq_some_iff.mp hi).1
  exact h i literal ((List.getElem?_append_left hlt).trans hi)

theorem Names.right {s : Session} {n : Nat} {first second : List Text}
    (h : s.Names n (first ++ second)) : s.Names (n + first.length) second := by
  intro i literal hi
  have ha : (first ++ second)[first.length + i]? = second[first.length + i - first.length]? :=
    List.getElem?_append_right (Nat.le_add_right first.length i)
  rw [Nat.add_sub_cancel_left] at ha
  have hm := h (first.length + i) literal (ha.trans hi)
  rwa [← Nat.add_assoc] at hm

theorem withLiterals_names (s : Session) (found : List Text) :
    (s.withLiterals found).Names s.literals found := by
  induction found generalizing s with
  | nil => exact fun i literal h => nomatch h
  | cons first found ih =>
    intro i literal h
    cases i with
    | zero =>
      obtain rfl : first = literal := Option.some.inj h
      have others := withLiterals_undisturbed (Nat.le_refl (s.withLiteral first).literals) found
      refine others.means ?_ (s.withLiteral_means first)
      rintro ⟨k, hk, he⟩
      cases literalName_injective he
      exact absurd hk (Nat.lt_irrefl _)
    | succ i =>
      have hi := ih (s.withLiteral first) i literal h
      rw [withLiteral_literals, Nat.add_assoc s.literals 1 i, Nat.add_comm 1 i] at hi
      exact hi

def given (s : Session) (name : Text) : Value :=
  ((s.scopes.lookup? name).bind fun ref => (s.store.kind ref).value?).getD (.number 0)

theorem Means.given_eq {s : Session} {name : Text} {v : Value} (h : s.Means name v) :
    s.given name = v := by
  obtain ⟨ref, hl, hv⟩ := h
  rw [Kind.Holds] at hv
  rw [given, hl, Option.bind_some, hv, Option.getD_some]

end Session

/-- Where names mean the strings of an expression, the expression with these names has its value. -/
theorem Expr.Closed.lifted {e : Expr} (h : e.Closed) {n : Nat} {t : Session}
    (hm : t.Names n e.strings) (given : Text → Value) :
    (e.lifted n).Plain (fun name => t.Means name (t.given name)) ∧
      (e.lifted n).value t.given = e.value given := by
  induction e generalizing n with
  | number m => exact ⟨h, rfl⟩
  | string text =>
    have hs : t.Means (Session.literalName (n + 1)) (.string text) := hm 0 text rfl
    have hg : t.Means _ (t.given (Session.literalName (n + 1))) := hs.given_eq.symm ▸ hs
    exact ⟨⟨isVariable_literalName (n + 1), hg⟩, congrArg Except.ok hs.given_eq⟩
  | parameter name => exact h.elim
  | add left right ihl ihr =>
    obtain ⟨hl, hlv⟩ := ihl h.1 hm.left
    obtain ⟨hr, hrv⟩ := ihr h.2 hm.right
    exact ⟨⟨hl, hr⟩, by simp only [Expr.lifted, value, hlv, hrv]⟩
  | sub left right ihl ihr =>
    obtain ⟨hl, hlv⟩ := ihl h.1 hm.left
    obtain ⟨hr, hrv⟩ := ihr h.2 hm.right
    exact ⟨⟨hl, hr⟩, by simp only [Expr.lifted, value, hlv, hrv]⟩
  | inc operand ih =>
    obtain ⟨ho, hov⟩ := ih h hm
    exact ⟨ho, by simp only [Expr.lifted, value, hov]⟩

end LineScript
