import LineScript.Proofs.Evaluation.Definition
import LineScript.Proofs.Evaluation.ExpressionLine
import LineScript.Proofs.Expr.Definition

namespace LineScript

open Eval
open LineScript.Expr (Value)

variable {callee : Text} {params : List Text} {body : Expr} {args : List Expr}

theorem evalSource_definition (hc : IsCalleeName callee) (hp : ∀ p ∈ params, IsParameterName p)
    {onParameter : Text → Prop} (hb : body.Plain onParameter) (fuel : Nat) {s : Session}
    (hs : s.scopes.temporary = []) :
    ∃ answer t, evalSource (fuel + 2) (Expr.definitionText callee params body) s = .value answer t ∧
      Session.UndisturbedBut (· = callee) s t ∧
      ∃ ref, t.Offers callee params (.block body.render) ref := by
  obtain ⟨answer, ref, t, hdefine, -, hstore, hscopes, hcallable⟩ :=
    evalSource_define (Expr.quoteFree_definitionText hc hp hb)
      (Expr.classify?_definitionText hc hp hb) (Expr.quoteFree_blockText hp hb)
      (Expr.classify?_blockText hp hb) fuel s
  have hassign : Session.UndisturbedBut (· = callee) s (s.assign callee ref) :=
    .assign (by rfl) ref
  refine ⟨answer, t, hdefine, ⟨hstore, fun name hn => ?_⟩, ref, ?_, hcallable⟩
  · rw [hscopes]
    exact hassign.lookup_eq name hn
  · rw [hscopes, Scopes.assign, Scopes.lookup?, hs, Bindings.get?_insert, if_pos rfl]
    rfl

theorem means_bindAll {s : Session} {refs : List Ref} {values : List Value}
    {given : Text → Value} (hd : params.Nodup) (hl : params.length = refs.length)
    (hv : List.Forall₂ s.Holds refs values) (hg : params.map given = values) :
    ∀ p ∈ params, (s.bindAll (params.zip refs)).Means p (given p) := by
  intro p hp
  obtain ⟨i, hi, rfl⟩ := List.getElem_of_mem hp
  have hr : i < refs.length := hl ▸ hi
  have hvalues : i < values.length := hv.length_eq ▸ hr
  have hbound : (s.bindAll (params.zip refs)).scopes.temporary.get? params[i] = some refs[i] := by
    have hall := congrArg (·[i]?) (Scopes.temporary_bindAll hd hl s.scopes)
    rw [Session.bindAll]
    simpa [hi, hr] using hall
  have hgiven : given params[i] = values[i] := by
    have hall := congrArg (·[i]?) hg
    simpa [hi, hvalues] using hall
  have hholds : s.Holds refs[i] values[i] := hv.get hr hvalues
  refine ⟨refs[i], ?_, hgiven ▸ hholds⟩
  rw [Scopes.lookup?, hbound]
  rfl

theorem mapM_value_eq_wrap {given : Text → Value}
    (ha : ∀ x ∈ args, x.Over (fun _ => False) fun _ => False) (env : Text → Int) :
    args.mapM (Expr.value given) =
      .ok ((args.map (Expr.integer env)).map fun n => .number (Expr.wrap n)) := by
  induction args with
  | nil => rfl
  | cons x args ih =>
    have hx : x.value given = _ := Expr.value_eq_wrap env (ha x List.mem_cons_self) nofun
    rw [List.mapM_cons, hx, ih fun y hy => ha y (List.mem_cons_of_mem x hy)]
    rfl

theorem Kind.Holds.eq_integer {kind : Kind} {n : Int} (h : kind.Holds (.number (Expr.wrap n))) :
    kind = .integer (Int64.ofInt n) := by
  obtain ⟨x, rfl, hx⟩ | ⟨text, -, ht⟩ := h.cases
  · have hn : (Int64.ofInt n).toInt = x.toInt := Int64.toInt_ofInt.trans (Value.number.inj hx)
    rw [Int64.toInt_inj.mp hn]
  · cases ht

def Expr.integers (args : List Expr) : List Int :=
  args.map (integer fun _ => 0)

/-- The body of a block, performed with its parameters bound to objects that stand for values. -/
theorem invoke_gives {s : Session} {callable : Ref} {refs : List Ref} {values : List Value}
    {given : Text → Value} (hs : s.OffersBuiltins)
    (hk : s.store.kind callable = .callable (.block body.render))
    (hd : params.Nodup) (hp : ∀ p ∈ params, IsParameterName p)
    (hb : body.Over (fun _ => False) (· ∈ params)) (hv : List.Forall₂ s.Holds refs values)
    (hl : params.length = refs.length) (hg : params.map given = values) {fuel : Nat}
    (hf : body.nesting ≤ fuel) (depth : Nat) :
    (invoke (evaluate fuel) callable depth (s.bindAll (params.zip refs))).Gives Session.Holds
      (s.bindAll (params.zip refs)) (body.value given) := by
  have hbound : Session.UndisturbedBut (· ∈ params) s (s.bindAll (params.zip refs)) := by
    refine .bindAll fun name hn => ?_
    rw [List.map_fst_zip (Nat.le_of_eq hl)] at hn
    exact hn
  have ready : (s.bindAll (params.zip refs)).Ready given body := by
    refine ⟨hbound.offersBuiltins (fun function hm => (hp _ hm).own function rfl) hs, ?_⟩
    exact hb.imp (fun _ => id) fun name hm =>
      ⟨(hp name hm).isVariable, means_bindAll hd hl hv hg name hm⟩
  have hk' : (s.bindAll (params.zip refs)).store.kind callable = .callable (.block body.render) :=
    hk
  rw [invoke_of_kind hk']
  exact (body.computes given).evaluate ready hf depth

theorem evalSource_callText {s : Session} {callable : Ref} (hs : s.OffersBuiltins)
    (ho : s.Offers callee params (.block body.render) callable) (hc : IsCalleeName callee)
    (hd : params.Nodup) (hp : ∀ p ∈ params, IsParameterName p)
    (hb : body.Over (fun _ => False) (· ∈ params))
    (ha : ∀ x ∈ args, x.Over (fun _ => False) fun _ => False) (hl : args.length = params.length)
    {fuel : Nat} (hbody : body.nesting ≤ fuel) (hargs : ∀ x ∈ args, x.nesting < fuel) :
    ∃ ref t, evalSource (fuel + 1) (Expr.callText callee args) s = .value ref t ∧
      t.store.kind ref = .integer
        (Int64.ofInt (body.integer (Expr.environment params (Expr.integers args)))) ∧
      t.scopes.temporary = [] := by
  let env := Expr.environment params (Expr.integers args)
  let given : Text → Value := fun name => .number (Expr.wrap (env name))
  have plain : ∀ t : Session, ∀ x ∈ args, x.Plain fun name => t.Means name (given name) :=
    fun _ x hx => (ha x hx).imp (fun _ => id) fun _ => False.elim
  have hvalue : body.value given = .ok (.number (Expr.wrap (body.integer env))) :=
    Expr.value_eq_wrap env hb fun _ _ => rfl
  have hg : params.map given = (Expr.integers args).map fun n => .number (Expr.wrap n) := by
    have henv : params.map env = Expr.integers args :=
      Expr.map_environment hd (by rw [Expr.integers, List.length_map, hl])
    rw [← henv, List.map_map]
    rfl
  let entered := (s.record (.evaluating s.tracing 0 (Expr.callText callee args))).record
    (.classified (.call callee (args.map Expr.operandText)))
  have hentered : s.Undisturbed entered :=
    (Session.UndisturbedBut.record _).trans (.record _)
  have hbuiltins := hentered.offersBuiltins Native.name_notMem hs
  have hoffers : entered.Offers callee params (.block body.render) callable :=
    ⟨ho.lookup, hentered.store.isCallable ho.callable⟩
  have operands : ((args.map Expr.operandText).mapM (fun arg => evaluate fuel arg (0 + 1))
      entered).Gives (Session.HoldAll args.length) entered (args.mapM (Expr.value given)) :=
    mapM_gives (fun x hx t ht => (x.computes given).evaluate_operand ht (hargs x hx) 0)
      fun x hx => ⟨hbuiltins, plain entered x hx⟩
  rw [mapM_value_eq_wrap ha fun _ => 0] at operands
  rw [evalSource, evaluate_of_quoteFree (Expr.quoteFree_callText hc (plain s)),
    performText_of_classify? (Expr.classify?_callText hc (plain s)), perform,
    performCall_of_offers hoffers, apply, if_pos rfl, afterwards_apply,
    bindArguments_bind_invoke hoffers (by rw [List.length_map, hl]), bind_apply]
  generalize (args.map Expr.operandText).mapM (fun arg => evaluate fuel arg (0 + 1)) entered = o
    at operands ⊢
  -- Integers never fail, so the operands have values.
  cases operands with
  | @value refs _ t ht hall =>
    have hlength : params.length = refs.length := by
      rw [hall.1.length_eq, hall.2, hl]
    have hinvoke := invoke_gives (ht.offersBuiltins Native.name_notMem hbuiltins)
      (ht.store.isCallable hoffers.callable).kind hd hp hb hall.1 hlength hg hbody 0
    rw [hvalue] at hinvoke
    simp only [change_bind_apply]
    generalize invoke (evaluate fuel) callable 0 (t.bindAll (params.zip refs)) = o at hinvoke ⊢
    cases hinvoke with
    | value _ hk => exact ⟨_, _, rfl, hk.eq_integer, rfl⟩

/-- Defining a block in a new session and then calling it gives the integer of its body, modulo
`2 ^ 64`, where each parameter stands for the integer of its argument; no temporary bindings are
left. -/
theorem block_call_computes (store : Store) (hc : IsCalleeName callee) (hd : params.Nodup)
    (hp : ∀ p ∈ params, IsParameterName p) (hb : body.Over (fun _ => False) (· ∈ params))
    (ha : ∀ x ∈ args, x.Over (fun _ => False) fun _ => False) (hl : args.length = params.length)
    {fuel : Nat} (hbody : body.nesting < fuel) (hargs : ∀ x ∈ args, x.nesting + 1 < fuel) :
    ∃ answer s, evalSource fuel (Expr.definitionText callee params body) (Session.new store) =
        .value answer s ∧
      ∃ ref t, evalSource fuel (Expr.callText callee args) s = .value ref t ∧
        t.store.kind ref = .integer
          (Int64.ofInt (body.integer (Expr.environment params (Expr.integers args)))) ∧
        t.scopes.temporary = [] := by
  obtain ⟨fuel, rfl⟩ : ∃ n, fuel = n + 2 := ⟨fuel - 2, by have := body.nesting_pos; omega⟩
  have plain : body.Plain (· ∈ params) :=
    hb.imp (fun _ => id) fun name hm => ⟨(hp name hm).isVariable, hm⟩
  obtain ⟨answer, s, hdefine, hs, callable, hoffers⟩ :=
    evalSource_definition hc hp plain fuel (s := Session.new store) rfl
  have hbuiltins : s.OffersBuiltins :=
    hs.offersBuiltins (fun function he => hc.own function he.symm)
      (Session.offersBuiltins_new store)
  refine ⟨answer, s, hdefine, evalSource_callText hbuiltins hoffers hc hd hp hb ha hl ?_ ?_⟩
  · omega
  · intro x hx
    have hx' := hargs x hx
    omega

theorem block_call_computes_two : ∃ answer s,
    evalSource 6 (Expr.definitionText ['f'] [['x'], ['y']]
      (.sub (.parameter ['x']) (.inc (.parameter ['y'])))) Session.new = .value answer s ∧
    ∃ ref t, evalSource 6 (Expr.callText ['f'] [.add (.number 1) (.number 2), .number 7]) s =
        .value ref t ∧ t.store.kind ref = .integer (-5) ∧ t.scopes.temporary = [] := by
  refine block_call_computes {} ⟨by decide, by decide, by intro f; cases f <;> decide⟩ (by decide)
    ?_ ?_ ?_ rfl (by decide) (by decide)
  · intro p hp
    simp only [List.mem_cons, List.not_mem_nil, or_false] at hp
    obtain rfl | rfl := hp
    all_goals
      refine ⟨by decide, fun c hc => ?_, by decide, by decide, by intro f; cases f <;> decide⟩
      cases List.mem_singleton.mp hc
      decide
  · exact ⟨List.mem_cons_self, List.mem_cons_of_mem _ List.mem_cons_self⟩
  · simp [Expr.Over]; decide

end LineScript
