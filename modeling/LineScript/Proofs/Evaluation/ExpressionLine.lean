import LineScript.Proofs.Evaluation.Depth
import LineScript.Proofs.Evaluation.Expressions
import LineScript.Proofs.Expr.Lifted

namespace LineScript

open Eval
open LineScript.Expr (Value)

namespace Expr

theorem nesting_lifted (n : Nat) (e : Expr) : (e.lifted n).nesting = e.nesting := by
  induction e generalizing n with
  | add left right ihl ihr | sub left right ihl ihr => simp only [lifted, nesting, ihl, ihr]
  | inc operand ih => simp only [lifted, nesting, ih]
  | _ => rfl

theorem exists_of_mapM_error {given : Text → Value} {operands : List Expr} {cause : Fault}
    (h : operands.mapM (value given) = .error cause) :
    ∃ x ∈ operands, x.value given = .error cause := by
  induction operands with
  | nil => cases h
  | cons x operands ih =>
    rw [List.mapM_cons] at h
    cases hx : x.value given with
    | error first =>
      rw [hx] at h
      cases h
      exact ⟨x, List.mem_cons_self, hx⟩
    | ok v =>
      cases hr : operands.mapM (value given) with
      | error later =>
        rw [hx, hr] at h
        cases h
        obtain ⟨y, hy, hv⟩ := ih hr
        exact ⟨y, List.mem_cons_of_mem x hy, hv⟩
      | ok values =>
        rw [hx, hr] at h
        cases h

theorem eq_mismatch_of_combine {function : Native} {operands : List Value} {cause : Fault}
    (h : function.combine operands = .error cause) : cause = mismatch function.name operands := by
  unfold Native.combine at h
  split at h <;> cases h
  rfl

theorem category_of_value_error {e : Expr} {given : Text → Value} {cause : Fault}
    (h : e.value given = .error cause) : cause.category = .typeError := by
  induction e using node_induction with
  | number | string | parameter => cases h
  | node e function operands hn ih =>
    rw [value_of_node hn] at h
    cases hm : operands.mapM (value given) with
    | error first =>
      rw [hm] at h
      cases h
      obtain ⟨x, hx, hv⟩ := exists_of_mapM_error hm
      exact ih x hx hv
    | ok values =>
      rw [hm] at h
      rw [eq_mismatch_of_combine h]
      rfl

end Expr

theorem Expr.Closed.performLifted {e : Expr} (h : e.Closed) {s : Session} (hs : s.OffersBuiltins)
    (given : Text → Value) {fuel : Nat} (hf : e.nesting ≤ fuel + 1) (depth : Nat) :
    ∃ t, (LineScript.performLifted (evaluate fuel) e.render (depth + 1) s).Gives Session.Holds t
      (e.value given) := by
  let t := s.withLiterals e.strings
  obtain ⟨hp, hv⟩ := h.lifted (s.withLiterals_names e.strings) given
  have ht : t.OffersBuiltins := by
    refine (Session.withLiterals_undisturbed (Nat.le_refl _) e.strings).offersBuiltins ?_ hs
    rintro function ⟨k, -, hk⟩
    cases function <;> simp [Native.name, Session.literalName] at hk
  refine ⟨t, ?_⟩
  rw [LineScript.performLifted, bind_apply, (h.lifts s.literals).extractLiterals_apply, ← hv]
  exact Expr.computes t.given _ t fuel depth ⟨ht, hp⟩ ((e.nesting_lifted s.literals).symm ▸ hf)

theorem Session.offersBuiltins_new (store : Store) : (Session.new store).OffersBuiltins := by
  let first := (store.alloc ⟨.nothing, []⟩).2
  let add := first.allocCallable Native.add.params (.native .add)
  let sub := add.2.allocCallable Native.sub.params (.native .sub)
  let inc := sub.2.allocCallable Native.inc.params (.native .inc)
  have hadd : add.2.IsCallable add.1 _ _ := first.isCallable_allocCallable _ _
  have hsub : sub.2.IsCallable sub.1 _ _ := add.2.isCallable_allocCallable _ _
  have hinc : inc.2.IsCallable inc.1 _ _ := sub.2.isCallable_allocCallable _ _
  have hlater : sub.2.Extends inc.2 := .allocCallable _ _
  intro function
  cases function with
  | add =>
    have hearlier : add.2.Extends sub.2 := .allocCallable _ _
    exact ⟨add.1, rfl, (hearlier.trans hlater).isCallable hadd⟩
  | sub => exact ⟨sub.1, rfl, hlater.isCallable hsub⟩
  | inc => exact ⟨inc.1, rfl, hinc⟩

theorem Session.endingIf_store (calls : Bool) (s : Session) :
    (Session.endingIf calls s).store = s.store := by
  cases calls <;> rfl

/-- The text of an expression without parameters evaluates to the value of the expression, or fails
with its fault, which is always one of types. -/
theorem evalSource_render {s : Session} (hs : s.OffersBuiltins) {e : Expr} (he : e.Closed)
    (given : Text → Value) {fuel : Nat} (hf : e.nesting ≤ fuel) :
    (∀ v, e.value given = .ok v →
      ∃ ref t, evalSource fuel e.render s = .value ref t ∧ (t.store.kind ref).value? = some v) ∧
    ∀ cause, e.value given = .error cause → cause.category = .typeError ∧
      ∃ t, evalSource fuel e.render s = .failure (.fault cause) t := by
  cases fuel with
  | zero => exact absurd hf (Nat.not_le.mpr e.nesting_pos)
  | succ fuel =>
    -- At depth one nothing is forgotten, and at depth zero the objects are the same.
    have alike := evaluateWith_zero_alike (evaluate_alike Session.SameButLog.unseen fuel) e.render s
    have hrecord : (s.record (.evaluating s.tracing 1 e.render)).OffersBuiltins :=
      (Session.UndisturbedBut.record _).offersBuiltins Native.name_notMem hs
    obtain ⟨t, gives⟩ := he.performLifted hrecord given hf 0
    rw [evaluateWith_apply (evaluate fuel) e.render 1] at alike
    change (evalSource (fuel + 1) e.render s).Alike _ _ at alike
    generalize evalSource (fuel + 1) e.render s = o at alike ⊢
    generalize performLifted (evaluate fuel) e.render 1 _ = o' at alike gives
    refine ⟨fun v hv => ?_, fun cause hc => ⟨e.category_of_value_error hc, ?_⟩⟩
    · rw [hv] at gives
      cases gives with
      | value _ hk =>
        cases alike with
        | value _ hu =>
          refine ⟨_, _, rfl, ?_⟩
          rw [hu.store_eq, Session.endingIf_store]
          exact hk
    · rw [hc] at gives
      cases gives with
      | failure =>
        cases alike with
        | failure _ _ => exact ⟨_, rfl⟩

theorem evalSource_render_nested : ∃ ref t, evalSource 5
      (Expr.render (.add (.inc (.number 0x7FFFFFFFFFFFFFFF)) (.sub (.number 5) (.number (-2)))))
      Session.new = .value ref t ∧
    (t.store.kind ref).value? = some (.number (-0x7FFFFFFFFFFFFFF9)) :=
  (evalSource_render (Session.offersBuiltins_new {}) (by simp [Expr.Closed, Expr.Over]; decide)
    (fun _ => .number 0) (by decide)).1 _ (by decide)

end LineScript
