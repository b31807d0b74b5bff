import LineScript.Proofs.Decimal.Numeral
import LineScript.Proofs.Evaluation.Alike
import LineScript.Proofs.Text.Literals

namespace LineScript

open Text Eval

namespace Session

def withLiteral (s : Session) (literal : Text) : Session :=
  (bindLiteral literal s).session

def withLiterals (s : Session) (literals : List Text) : Session :=
  literals.foldl withLiteral s

theorem withLiteral_literals (s : Session) (literal : Text) :
    (s.withLiteral literal).literals = s.literals + 1 := rfl

theorem withLiterals_literals (s : Session) (ls : List Text) :
    (s.withLiterals ls).literals = s.literals + ls.length := by
  induction ls generalizing s with
  | nil => rfl
  | cons l ls ih =>
    rw [withLiterals, List.foldl_cons, ← withLiterals, ih, withLiteral_literals, List.length_cons]
    omega

theorem withLiterals_temporary {s : Session} {ls : List Text} {name : Text}
    (h : ∀ n, s.literals < n → n ≤ s.literals + ls.length → name ≠ literalName n) :
    (s.withLiterals ls).scopes.temporary.get? name = s.scopes.temporary.get? name := by
  induction ls generalizing s with
  | nil => rfl
  | cons l ls ih =>
    have hfirst : name ≠ literalName (s.literals + 1) := h _ (by omega) (by simp)
    have hl : (s.withLiteral l).scopes.temporary.get? name = s.scopes.temporary.get? name :=
      (Bindings.get?_insert _ _ _ _).trans (if_neg hfirst)
    refine (ih fun n hlo hhi => h n ?_ ?_).trans hl
    · rw [withLiteral_literals] at hlo
      omega
    · rw [withLiteral_literals] at hhi
      rw [List.length_cons]
      omega

theorem literalName_plain (n : Nat) : ∀ c ∈ literalName n, c ≠ '\\' ∧ c ≠ '"' := by
  intro c h
  simp only [literalName, List.mem_cons] at h
  rcases h with rfl | rfl | rfl | h
  · decide
  · decide
  · decide
  · have hd := Decimal.isDigit_of_mem_ofNat h
    constructor
    · rintro rfl
      exact absurd hd (by decide)
    · rintro rfl
      exact absurd hd (by decide)

theorem literalName_injective {m n : Nat} (h : literalName m = literalName n) : m = n := by
  simp only [literalName, List.cons.injEq, true_and] at h
  exact Decimal.ofNat_injective h

end Session

/-- The texts from each literal up to the next one when the literals have names for them, with
numbers above `n`. -/
def namedPieces : Nat → List (Text × Text) → List Text
  | _, [] => []
  | n, (_, after) :: rest => (Session.literalName (n + 1) ++ after) :: namedPieces (n + 1) rest

theorem mapM_bindLiteral (quoted : List (Text × Text)) (s : Session) :
    (quoted.mapM fun (literal, after) => do
      let name ← bindLiteral literal
      pure (name ++ after) : Eval (List Text)) s =
      .value (namedPieces s.literals quoted) (s.withLiterals (quoted.map Prod.fst)) := by
  induction quoted generalizing s with
  | nil => rfl
  | cons pair rest ih =>
    rw [List.mapM_cons, bind_apply]
    change (rest.mapM _ >>= fun names => pure (_ :: names) : Eval (List Text))
      (s.withLiteral pair.1) = _
    rw [bind_apply, ih]
    rfl

theorem extractLiterals_apply (text : Text) (s : Session) :
    extractLiterals bindLiteral text s =
      .value (if (literals text).closed then
          some ((literals text).lead ++ (namedPieces s.literals (literals text).quoted).flatten)
        else none)
        (s.withLiterals ((literals text).quoted.map Prod.fst)) := by
  rw [extractLiterals, bind_apply, mapM_bindLiteral]
  rfl

/-- What is left of a text without its literals. -/
def Session.lifted? (s : Session) (text : Text) : Option Text :=
  match extractLiterals bindLiteral text s with
  | .value found _ => found
  | _ => none

namespace Session

theorem lifted?_eq (s : Session) (text : Text) : s.lifted? text =
    if (Text.literals text).closed then
      some ((Text.literals text).lead ++
        (namedPieces s.literals (Text.literals text).quoted).flatten)
    else none := by
  rw [lifted?, extractLiterals_apply]

/-- What stands in front of all literals is left as it is. -/
theorem lifted?_append {segment : Text} (h : Segment segment) (s : Session) (text : Text) :
    s.lifted? (segment ++ text) = (s.lifted? text).map (segment ++ ·) := by
  rw [lifted?_eq, lifted?_eq, h.literals_append]
  by_cases hc : (Text.literals text).closed
  · simp only [hc, if_true, Option.map_some, List.append_assoc]
  · simp only [hc, if_false, Option.map_none, Bool.false_eq_true]

theorem lifted?_record (s : Session) (e : Event) (text : Text) :
    (s.record e).lifted? text = s.lifted? text := by
  rw [lifted?_eq, lifted?_eq]
  rfl

end Session

section

variable {c : Char}

theorem flatten_namedPieces_append_singleton (n : Nat) (earlier : List (Text × Text))
    (literal after : Text) : (namedPieces n (earlier ++ [(literal, after ++ [c])])).flatten =
      (namedPieces n (earlier ++ [(literal, after)])).flatten ++ [c] := by
  induction earlier generalizing n with
  | nil => simp [namedPieces]
  | cons pair earlier ih => simp [namedPieces, ih]

theorem quoted_append_singleton (hb : c ≠ '\\') (hq : c ≠ '"') (text : Text) :
    (literals (text ++ [c])).quoted.map Prod.fst = (literals text).quoted.map Prod.fst := by
  obtain ⟨-, hl⟩ | ⟨lead, hl, hl'⟩ | ⟨lead, earlier, literal, after, hl, hl'⟩ :=
    literals_append_singleton hb hq text
  · rw [hl]
  · rw [hl, hl']
  · rw [hl, hl', List.map_append, List.map_append]
    rfl

theorem Session.lifted?_append_singleton (hb : c ≠ '\\') (hq : c ≠ '"') (s : Session)
    (text : Text) : s.lifted? (text ++ [c]) = (s.lifted? text).map (· ++ [c]) := by
  rw [lifted?_eq, lifted?_eq]
  obtain ⟨hopen, hl⟩ | ⟨lead, hl, hl'⟩ | ⟨lead, earlier, literal, after, hl, hl'⟩ :=
    literals_append_singleton hb hq text
  · rw [hl, hopen]
    rfl
  · simp [hl, hl', namedPieces]
  · simp only [hl, hl', if_true, Option.map_some, flatten_namedPieces_append_singleton,
      List.append_assoc]

end

theorem Unseen.withLiterals {related : Session → Session → Prop} (unseen : Unseen related)
    {s t : Session} (h : related s t) (ls : List Text) :
    related (s.withLiterals ls) (t.withLiterals ls) := by
  induction ls generalizing s t with
  | nil => exact h
  | cons l ls ih => exact ih (unseen.bindLiteral l h).session

theorem extractLiterals_of_quoteFree {text : Text} (h : QuoteFree text) (s : Session) :
    extractLiterals bindLiteral text s = .value (some text) s := by
  rw [extractLiterals_apply, literals_of_quoteFree h]
  simp only [namedPieces, List.flatten_nil, List.append_nil, if_true, List.map_nil]
  rfl

theorem head?_flatten_namedPieces (n : Nat) (quoted : List (Text × Text)) :
    (namedPieces n quoted).flatten.head? ≠ some '\\' := by
  cases quoted with
  | nil => simp [namedPieces]
  | cons pair rest => simp [namedPieces, Session.literalName]

theorem quoteFree_namedPieces (n : Nat) {quoted : List (Text × Text)}
    (h : ∀ pair ∈ quoted, QuoteFree pair.2) : QuoteFree (namedPieces n quoted).flatten := by
  induction quoted generalizing n with
  | nil => exact quoteFree_nil
  | cons pair rest ih =>
    have hrest := ih (n + 1) fun other ho => h other (List.mem_cons_of_mem pair ho)
    have hafter := (h pair List.mem_cons_self).append hrest (head?_flatten_namedPieces _ _)
    have hname := Session.literalName_plain (n + 1)
    have hsettled : Settled (Session.literalName (n + 1)) := fun hl =>
      (hname _ (List.mem_of_getLast? hl)).1 rfl
    rw [namedPieces, List.flatten_cons, List.append_assoc, QuoteFree,
      unescapedQuotes_append hsettled, quoteFree_of_plain hname, hafter]

theorem quoteFree_lifted {text lifted : Text} {s t : Session}
    (h : extractLiterals bindLiteral text s = .value (some lifted) t) : QuoteFree lifted := by
  rw [extractLiterals_apply] at h
  split at h
  · cases h
    exact (quoteFree_lead text).append
      (quoteFree_namedPieces _ fun pair hp => quoteFree_after hp) (head?_flatten_namedPieces _ _)
  · cases h

theorem Session.quoteFree_of_lifted? {s : Session} {text lifted : Text}
    (h : s.lifted? text = some lifted) : QuoteFree lifted := by
  have hl := extractLiterals_apply text s
  rw [← lifted?_eq, h] at hl
  exact quoteFree_lifted hl

section

variable {evaluate : Text → Nat → Eval Ref} {text lifted : Text} {s : Session}

theorem performLifted_of_lifted? (h : s.lifted? text = some lifted) (depth : Nat) :
    performLifted evaluate text depth s =
      performText evaluate lifted depth (s.withLiterals ((literals text).quoted.map Prod.fst)) := by
  rw [performLifted, bind_of_value (extractLiterals_apply text s), ← s.lifted?_eq, h]

theorem performLifted_of_lifted?_eq_none (h : s.lifted? text = none) (depth : Nat) :
    performLifted evaluate text depth s = .failure (.fault .unbalancedQuotes)
      (s.withLiterals ((literals text).quoted.map Prod.fst)) := by
  rw [performLifted, bind_of_value (extractLiterals_apply text s), ← s.lifted?_eq, h]
  rfl

end

theorem evaluate_of_lifted? {text lifted : Text} {s : Session} (h : s.lifted? text = some lifted)
    (fuel depth : Nat) : evaluate (fuel + 1) text depth s = performText (evaluate fuel) lifted depth
      ((s.record (.evaluating s.tracing depth text)).withLiterals
        ((literals text).quoted.map Prod.fst)) :=
  performLifted_of_lifted? ((s.lifted?_record _ text).trans h) depth

theorem evaluate_of_lifted?_eq_none {text : Text} {s : Session} (h : s.lifted? text = none)
    (fuel depth : Nat) : evaluate (fuel + 1) text depth s = .failure (.fault .unbalancedQuotes)
      ((s.record (.evaluating s.tracing depth text)).withLiterals
        ((literals text).quoted.map Prod.fst)) :=
  performLifted_of_lifted?_eq_none ((s.lifted?_record _ text).trans h) depth

theorem performText_of_classify? {evaluate : Text → Nat → Eval Ref} {text : Text}
    {statement : Statement} (hc : Statement.classify? text = some statement) (depth : Nat)
    (s : Session) : performText evaluate text depth s =
      perform evaluate statement depth (s.record (.classified statement)) := by
  rw [performText, hc]
  rfl

theorem evaluate_of_quoteFree {text : Text} (h : QuoteFree text) (fuel depth : Nat)
    (s : Session) : evaluate (fuel + 1) text depth s =
      performText (evaluate fuel) text depth (s.record (.evaluating s.tracing depth text)) := by
  rw [evaluate_succ, evaluateWith_apply, performLifted, bind_apply,
    extractLiterals_of_quoteFree h]

theorem evaluate_of_classify? {text : Text} {form : Statement} (hq : QuoteFree text)
    (hc : Statement.classify? text = some form) (fuel depth : Nat) (s : Session) :
    evaluate (fuel + 1) text depth s = perform (evaluate fuel) form depth
      ((s.record (.evaluating s.tracing depth text)).record (.classified form)) := by
  rw [evaluate_of_quoteFree hq, performText_of_classify? hc]

theorem evaluate_of_classify?_eq_none {text : Text} (hq : QuoteFree text)
    (hc : Statement.classify? text = none) (fuel depth : Nat) (s : Session) :
    evaluate (fuel + 1) text depth s = .failure (.fault (.unrecognised text))
      (s.record (.evaluating s.tracing depth text)) := by
  rw [evaluate_of_quoteFree hq, performText, hc]
  rfl

end LineScript
