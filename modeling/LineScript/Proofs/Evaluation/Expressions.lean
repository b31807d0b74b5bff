import LineScript.Evaluation
import LineScript.Proofs.Evaluation.Lifting
import LineScript.Proofs.Expr.Reading
import LineScript.Proofs.Session.Undisturbed

namespace LineScript

open Eval
open LineScript.Expr (Value)

def Session.Holds (s : Session) (ref : Ref) (v : Value) : Prop :=
  (s.store.kind ref).Holds v

def Session.HoldAll (count : Nat) (s : Session) (refs : List Ref) (values : List Value) : Prop :=
  List.Forall₂ s.Holds refs values ∧ values.length = count

/-- An outcome that is as the reference has it: with its fault, or with a result that stands for its
value in a session in which only things were added. -/
inductive Outcome.Gives {α β : Type} (stands : Session → α → β → Prop) (s : Session) :
    Except Fault β → Outcome α → Prop where
  | value {a : α} {b : β} {t : Session} : s.Undisturbed t → stands t a b →
    Gives stands s (.ok b) (.value a t)
  | failure (cause : Fault) (t : Session) :
    Gives stands s (.error cause) (.failure (.fault cause) t)

namespace Outcome.Gives

variable {α β γ δ : Type} {stands : Session → α → β → Prop} {stands' : Session → γ → δ → Prop}
variable {s t : Session}

theorem later {result : Except Fault β} {o : Outcome α} (hs : s.Undisturbed t)
    (h : o.Gives stands t result) : o.Gives stands s result := by
  cases h with
  | value hu ha => exact .value (hs.trans hu) ha
  | failure cause u => exact .failure cause u

theorem bind {result : Except Fault β} {next : β → Except Fault δ} {m : Eval α} {f : α → Eval γ}
    (hm : (m s).Gives stands s result)
    (hf : ∀ a b t, s.Undisturbed t → stands t a b → (f a t).Gives stands' t (next b)) :
    ((m >>= f) s).Gives stands' s (result >>= next) := by
  rw [bind_apply]
  generalize m s = o at hm
  cases hm with
  | value hu ha => exact (hf _ _ _ hu ha).later hu
  | failure cause u => exact .failure cause u

end Outcome.Gives

/-- The parameters of an expression without strings denote what `given` says, and the builtin
functions are there to be called. -/
def Session.Ready (s : Session) (given : Text → Value) (e : Expr) : Prop :=
  s.OffersBuiltins ∧ e.Plain fun name => s.Means name (given name)

theorem Session.Undisturbed.ready {s t : Session} (h : s.Undisturbed t) {given : Text → Value}
    {e : Expr} (hr : s.Ready given e) : t.Ready given e := by
  obtain ⟨hs, he⟩ := hr
  refine ⟨h.offersBuiltins Native.name_notMem hs, ?_⟩
  exact he.imp (fun _ => id) fun _ hp => ⟨hp.1, h.means hp.1.parameter hp.2⟩

variable {given : Text → Value} {s : Session}

/-- Operands evaluated from left to right. What the earlier ones gave is still there at the end. -/
theorem mapM_gives {evaluate : Text → Eval Ref} {operands : List Expr}
    (h : ∀ x ∈ operands, ∀ s : Session, s.Ready given x →
      (evaluate x.operandText s).Gives Session.Holds s (x.value given))
    (hr : ∀ x ∈ operands, s.Ready given x) :
    ((operands.map Expr.operandText).mapM evaluate s).Gives (Session.HoldAll operands.length) s
      (operands.mapM (Expr.value given)) := by
  induction operands generalizing s with
  | nil => exact .value .rfl ⟨.nil, rfl⟩
  | cons x operands ih =>
    rw [List.map_cons, List.mapM_cons, List.mapM_cons]
    refine .bind (h x List.mem_cons_self s (hr x List.mem_cons_self)) fun ref v t ht hv => ?_
    have others := ih (s := t) (fun y hy => h y (List.mem_cons_of_mem x hy)) fun y hy =>
      ht.ready (hr y (List.mem_cons_of_mem x hy))
    refine others.bind fun refs vs u hu hvs => .value .rfl ?_
    exact ⟨.cons (hu.holds hv) hvs.1, congrArg Nat.succ hvs.2⟩

theorem mapM_operand (function : Native) {params : List Text} {refs : List Ref}
    (h : params.map s.scopes.temporary.get? = refs.map some) :
    params.mapM function.operand s = .value (refs.map s.store.kind) s := by
  induction params generalizing refs with
  | nil =>
    cases refs with
    | nil => rfl
    | cons ref refs => cases h
  | cons param params ih =>
    cases refs with
    | nil => cases h
    | cons ref refs =>
      obtain ⟨hp, h⟩ := List.cons.inj h
      have ho : function.operand param s = .value (s.store.kind ref) s := by
        simp only [Native.operand, bind_apply, look_apply, hp, Option.map_some, pure_apply]
      rw [List.mapM_cons, bind_apply, ho]
      simp only [bind_apply, ih h]
      rfl

theorem bindAll_undisturbed (function : Native) (s : Session) (refs : List Ref) :
    s.Undisturbed (s.bindAll (function.params.zip refs)) := by
  refine .bindAll fun name hn => ?_
  obtain ⟨pair, hp, rfl⟩ := List.mem_map.mp hn
  have hm : pair.1 ∈ function.params := (List.of_mem_zip hp).1
  cases function with
  | inc => exact List.mem_cons.mpr (.inl (List.mem_singleton.mp hm))
  | _ => exact hm

theorem create_gives {kind : Kind} {v : Value} (h : kind.Holds v) (s : Session) :
    (Eval.create kind s).Gives Session.Holds s (.ok v) := by
  refine .value (.onStore (.alloc _)) ?_
  have hk : (s.store.alloc ⟨kind, []⟩).2.kind (s.store.alloc ⟨kind, []⟩).1 = kind :=
    congrArg Object.kind (s.store.object_alloc_self _)
  change ((s.store.alloc ⟨kind, []⟩).2.kind (s.store.alloc ⟨kind, []⟩).1).Holds v
  rw [hk]
  exact h

theorem run_of_result? (function : Native) {refs : List Ref}
    (h : function.params.map s.scopes.temporary.get? = refs.map some) {kind : Kind}
    (hr : function.result? (refs.map s.store.kind) = some kind) :
    function.run s = Eval.create kind s := by
  rw [Native.run, bind_apply, mapM_operand function h]
  simp only [hr]

theorem run_of_result?_eq_none (function : Native) {refs : List Ref}
    (h : function.params.map s.scopes.temporary.get? = refs.map some)
    (hr : function.result? (refs.map s.store.kind) = none) :
    function.run s = .failure (.fault (.operandMismatch function.name
      ((refs.map s.store.kind).map Kind.typeName))) s := by
  rw [Native.run, bind_apply, mapM_operand function h]
  simp only [hr]
  rfl

theorem run_gives (function : Native) {refs : List Ref} {values : List Value}
    (h : s.HoldAll function.params.length refs values) :
    (function.run (s.bindAll (function.params.zip refs))).Gives Session.Holds s
      (function.combine values) := by
  obtain ⟨h, hl⟩ := h
  have hlr : function.params.length = refs.length := hl.symm.trans h.length_eq.symm
  have hbound : function.params.map (s.bindAll (function.params.zip refs)).scopes.temporary.get? =
      refs.map some :=
    Scopes.temporary_bindAll (by cases function <;> decide) hlr s.scopes
  have hkinds : List.Forall₂ Kind.Holds (refs.map s.store.kind) values := by
    rw [List.forall₂_map_left_iff]
    exact h
  have agree := function.result?_agree hkinds hl
  refine .later (bindAll_undisturbed function s refs) ?_
  generalize function.combine values = expected at agree
  cases hr : function.result? (refs.map s.store.kind) with
  | some kind =>
    rw [run_of_result? function hbound hr]
    rw [hr] at agree
    cases agree with
    | ok hv => exact create_gives hv _
  | none =>
    rw [run_of_result?_eq_none function hbound hr]
    rw [hr] at agree
    cases agree
    exact .failure _ _

section

variable {evaluate : Text → Nat → Eval Ref} {callee : Text} {params : List Text} {code : Callable}
variable {callable : Ref} {args : List Text}

theorem performCall_of_offers (ho : s.Offers callee params code callable) (depth : Nat) :
    performCall evaluate callee args depth s = apply evaluate callable args depth s := by
  have hc : (s.store.kind callable).callable? = some code := by
    rw [ho.callable.kind]
    rfl
  simp only [performCall, bind_apply, resolve_apply, look_apply, ho.lookup, hc]

theorem bindArguments_of_length (hl : (s.store.parameters callable).length = args.length)
    (depth : Nat) :
    bindArguments evaluate callable args depth s =
      ((args.mapM fun arg => evaluate arg (depth + 1)) >>= fun values =>
        Eval.change fun t => t.bindAll ((s.store.parameters callable).zip values)) s := by
  rw [bindArguments, bind_apply, look_apply]
  simp only [hl, Nat.lt_irrefl, if_false]

/-- A call evaluates the arguments, binds the parameters to them and performs what is called. -/
theorem bindArguments_bind_invoke (ho : s.Offers callee params code callable)
    (hl : args.length = params.length) (depth : Nat) :
    (bindArguments evaluate callable args depth >>= fun _ => invoke evaluate callable depth) s =
      ((args.mapM fun arg => evaluate arg (depth + 1)) >>= fun values =>
        (Eval.change fun s => s.bindAll (params.zip values)) >>= fun _ =>
          invoke evaluate callable depth) s := by
  have hp := ho.callable.parameters_eq
  rw [bind_apply, bindArguments_of_length (by rw [hp, hl]), ← bind_apply, bind_assoc, hp]

theorem invoke_of_kind (hk : s.store.kind callable = .callable code) (depth : Nat) :
    invoke evaluate callable depth s =
      (match code with
        | .native function => function.run
        | .block body => evaluate body (depth + 1)) s := by
  rw [invoke, bind_apply, look_apply, hk]
  cases code <;> rfl

end

theorem performCall_gives {evaluate : Text → Nat → Eval Ref} {function : Native}
    {operands : List Expr} (depth : Nat) (hl : operands.length = function.params.length)
    (ho : s.OffersBuiltins)
    (h : ((operands.map Expr.operandText).mapM (fun arg => evaluate arg (depth + 2)) s).Gives
      (Session.HoldAll operands.length) s (operands.mapM (Expr.value given))) :
    (performCall evaluate function.name (operands.map Expr.operandText) (depth + 1) s).Gives
      Session.Holds s (operands.mapM (Expr.value given) >>= function.combine) := by
  obtain ⟨callable, hc⟩ := ho function
  have hn := Native.name_notMem function
  rw [performCall_of_offers hc, apply, if_neg (Nat.succ_ne_zero depth),
    bindArguments_bind_invoke hc (by rw [List.length_map, hl])]
  apply h.bind
  intro refs values t ht hv
  have hk : (t.bindAll (function.params.zip refs)).store.kind callable =
      .callable (.native function) := (ht.offers hn hc).callable.kind
  rw [change_bind_apply, invoke_of_kind hk]
  exact run_gives function (hl ▸ hv)

def Expr.nesting : Expr → Nat
  | add left right | sub left right => max left.nesting right.nesting + 2
  | inc operand => operand.nesting + 2
  | _ => 1

theorem Expr.nesting_pos (e : Expr) : 0 < e.nesting := by
  cases e <;> simp [nesting]

theorem Expr.nesting_of_node {e : Expr} {function : Native} {operands : List Expr}
    (h : e.node? = some (function, operands)) : ∀ x ∈ operands, x.nesting + 2 ≤ e.nesting := by
  cases e with
  | add left right | sub left right =>
    cases h
    simp only [List.mem_cons, List.not_mem_nil, or_false, forall_eq_or_imp, forall_eq, nesting]
    omega
  | inc operand =>
    cases h
    simp [nesting]
  | _ => cases h

theorem performInteger_gives {n : Int} (hlo : Int64.minValue.toInt ≤ n)
    (hhi : n ≤ Int64.maxValue.toInt) (s : Session) :
    (performInteger (Decimal.ofInt n) s).Gives Session.Holds s (.ok (.number n)) := by
  have hn : (Int64.ofInt n).toInt = n :=
    Int64.toInt_ofInt_of_le hlo (Int.lt_of_le_of_lt hhi (by decide))
  rw [performInteger, Decimal.intOf_ofInt, if_neg (Int.not_lt.mpr hlo), if_neg (Int.not_lt.mpr hhi)]
  have hk : (Kind.integer (Int64.ofInt n)).Holds (.number n) := congrArg (some ∘ Value.number) hn
  exact create_gives hk s

theorem Session.Ready.record {e : Expr} (hr : s.Ready given e) (event : Event) :
    (s.record event).Ready given e :=
  Undisturbed.ready (.record event) hr

def Expr.Computes (given : Text → Value) (e : Expr) : Prop :=
  ∀ (s : Session) (fuel depth : Nat), s.Ready given e → e.nesting ≤ fuel + 1 →
    (performText (evaluate fuel) e.render (depth + 1) s).Gives Session.Holds s (e.value given)

namespace Expr.Computes

variable {e : Expr} {fuel : Nat}

theorem evaluate (h : e.Computes given) (hr : s.Ready given e) (hf : e.nesting ≤ fuel)
    (depth : Nat) :
    (LineScript.evaluate fuel e.render (depth + 1) s).Gives Session.Holds s (e.value given) := by
  cases fuel with
  | zero => exact absurd hf (Nat.not_le.mpr e.nesting_pos)
  | succ fuel =>
    rw [evaluate_of_quoteFree hr.2.quoteFree]
    exact (h _ fuel depth (hr.record _) hf).later (.record _)

theorem evaluate_operand (h : e.Computes given) (hr : s.Ready given e) (hf : e.nesting < fuel)
    (depth : Nat) :
    (LineScript.evaluate fuel e.operandText (depth + 1) s).Gives Session.Holds s
      (e.value given) := by
  rw [Expr.operandText, Expr.enclose]
  split
  · cases fuel with
    | zero => exact absurd hf (Nat.not_lt_zero _)
    | succ fuel =>
      rw [evaluate_of_quoteFree hr.2.quoteFree_enclosed,
        performText_of_classify? hr.2.classify?_enclosed]
      have inner (t : Session) (ht : s.Undisturbed t) :
          (LineScript.evaluate fuel e.render (depth + 2) t).Gives Session.Holds s (e.value given) :=
        (h.evaluate (ht.ready hr) (Nat.lt_succ_iff.mp hf) (depth + 1)).later ht
      exact inner _ ((Session.UndisturbedBut.record _).trans (.record _))
  · exact h.evaluate hr (Nat.le_of_lt hf) depth

end Expr.Computes

theorem Expr.computes (given : Text → Value) (e : Expr) : e.Computes given := by
  induction e using node_induction with
  | string text => exact fun _ _ _ hr => hr.2.elim
  | number n =>
    intro s fuel depth hr hf
    have hc := Statement.classify?_integer (Decimal.isInteger_ofInt n)
    rw [render, performText_of_classify? hc]
    exact (performInteger_gives hr.2.1 hr.2.2 _).later (.record _)
  | parameter name =>
    intro s fuel depth hr hf
    have hc := classify?_variable hr.2.1
    obtain ⟨ref, hl, hv⟩ := (hr.record (.classified (.identifier name))).2.2
    rw [render, performText_of_classify? hc, perform, resolve_apply, hl]
    exact .value (.record _) hv
  | node e function operands hn ih =>
    intro s fuel depth hr hf
    rw [performText_of_classify? (hr.2.classify?_node hn), value_of_node hn]
    have hr := hr.record (.classified (.call function.name (operands.map operandText)))
    have ready : ∀ x ∈ operands, Session.Ready _ given x := fun x hx =>
      ⟨hr.1, (over_of_node hn).mp hr.2 x hx⟩
    refine .later (.record _) (performCall_gives depth (params_length_of_node hn) hr.1 ?_)
    refine mapM_gives (fun x hx s hs => ?_) ready
    have hx' := nesting_of_node hn x hx
    exact (ih x hx).evaluate_operand hs (by omega) (depth + 1)

end LineScript
