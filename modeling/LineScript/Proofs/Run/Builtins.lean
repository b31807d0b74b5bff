import LineScript.Proofs.Evaluation.ExpressionLine
import LineScript.Proofs.Run.Layers
import LineScript.Proofs.Run.Sharing

namespace LineScript

open Text Eval

variable {s t : Session} {object : Ref} {function : Native} {args : List Text}

theorem length_of_mapM {α β : Type} {f : α → Eval β} {xs : List α} {ys : List β}
    (h : xs.mapM f s = .value ys t) : ys.length = xs.length := by
  induction xs generalizing s ys with
  | nil =>
    cases h
    rfl
  | cons x xs ih =>
    rw [List.mapM_cons] at h
    obtain ⟨y, u, -, h⟩ := exists_of_bind_eq_value h
    obtain ⟨others, v, ho, h⟩ := exists_of_bind_eq_value h
    cases h
    exact congrArg Nat.succ (ih ho)

namespace Native

def combined (function : Native) (values : List Ref) : Eval Ref := do
  let kinds ← Eval.look fun s => values.map s.store.kind
  match function.result? kinds with
  | some kind => Eval.create kind
  | none => Eval.fault (.operandMismatch function.name (kinds.map Kind.typeName))

section

variable (evaluate : Text → Nat → Eval Ref)

/-- What is done when a function is called: its own parameters say how many arguments there have to
be, and these are evaluated, bound and combined. -/
def called (function : Native) (args : List Text) (depth : Nat) : Eval Ref :=
  if function.params.length < args.length then
    Eval.fault (.tooManyArguments function.params.length args.length)
  else if args.length < function.params.length then
    Eval.fault (.tooFewArguments function.params.length args.length)
  else do
    let values ← args.mapM fun arg => evaluate arg (depth + 1)
    Eval.change fun s => s.bindAll (function.params.zip values)
    function.combined values

/-- A call of a function by itself, whatever object it is the code of. -/
def applied (function : Native) (args : List Text) (depth : Nat) : Eval Ref :=
  if depth = 0 then (function.called evaluate args depth).afterwards endCall
  else function.called evaluate args depth

end

theorem run_of_bound (function : Native) {values : List Ref}
    (h : function.params.map s.scopes.temporary.get? = values.map some) :
    function.run s = function.combined values s := by
  rw [combined, bind_apply, look_apply]
  cases hr : function.result? (values.map s.store.kind) with
  | some kind =>
    rw [run_of_result? function h hr]
    simp only [hr]
  | none =>
    rw [run_of_result?_eq_none function h hr]
    simp only [hr]
    rfl

end Native

section

variable {fuel depth : Nat} (hk : s.store.kind object = .callable (.native function))
variable (hp : s.store.parameters object = function.params)
include hk hp

/-- The arguments may store into what is called: its parameters were read before that, and its code
stays. -/
theorem calling_of_arguments {values : List Ref} (hl : function.params.length = args.length)
    (hd : args.mapM (fun arg => evaluate fuel arg (depth + 1)) s = .value values t) :
    (bindArguments (evaluate fuel) object args depth >>= fun _ =>
      invoke (evaluate fuel) object depth) s =
        function.combined values (t.bindAll (function.params.zip values)) := by
  let bound := t.bindAll (function.params.zip values)
  have hb : bindArguments (evaluate fuel) object args depth s = .value () bound := by
    rw [bindArguments_of_length (by rw [hp, hl]), bind_of_value hd, hp]
    rfl
  have hstarts : Run.Starts ⟨.call object args depth, fuel, s⟩
      ⟨.invocation object depth, fuel, bound⟩ := .invocation hb
  have hgrows : s.store.Grows bound.store := (Run.Contains.leads (.single hstarts)).grows
  have hkept : bound.store.kind object = .callable (.native function) :=
    (hgrows.kind_eq object (Store.has_of_kind_ne (by rw [hk]; nofun))).trans hk
  have hvalues : function.params.length = values.length := hl.trans (length_of_mapM hd).symm
  have hparams : function.params.map bound.scopes.temporary.get? = values.map some :=
    Scopes.temporary_bindAll (by cases function <;> decide) hvalues t.scopes
  rw [bind_of_value hb, invoke_of_kind hkept]
  exact function.run_of_bound hparams

theorem calling_eq_called : (bindArguments (evaluate fuel) object args depth >>= fun _ =>
    invoke (evaluate fuel) object depth) s = function.called (evaluate fuel) args depth s := by
  rw [Native.called]
  split
  next hmany =>
    simp only [bindArguments, bind_apply, look_apply, hp, if_pos hmany]
    rfl
  next hmany =>
    split
    next hfew =>
      simp only [bindArguments, bind_apply, look_apply, hp, if_neg hmany, if_pos hfew]
      rfl
    next hfew =>
      have hl : function.params.length = args.length := by omega
      cases hd : args.mapM (fun arg => evaluate fuel arg (depth + 1)) s with
      | value values t =>
        rw [calling_of_arguments hk hp hl hd, bind_of_value hd]
        rfl
      | failure why t | exhausted t =>
        rw [bind_apply, bindArguments_of_length (by rw [hp, hl]), bind_apply, bind_apply, hd]

theorem apply_eq_applied :
    apply (evaluate fuel) object args depth s = function.applied (evaluate fuel) args depth s := by
  rw [apply, Native.applied]
  split
  · rw [afterwards_apply, afterwards_apply, calling_eq_called hk hp]
  · exact calling_eq_called hk hp

theorem perform_eq_applied {form : Statement} (ha : form.args? = some args)
    (hc : s.called? form = some object) :
    perform (evaluate fuel) form depth s = function.applied (evaluate fuel) args depth s := by
  obtain ⟨args', ha', hperform⟩ := perform_of_called hc
  cases ha.symm.trans ha'
  rw [hperform]
  exact apply_eq_applied hk hp

end

theorem called?_of_lookup? {callee : Text} {code : Callable}
    (hl : s.scopes.lookup? callee = some object) (hk : s.store.kind object = .callable code)
    (args : List Text) : s.called? (.call callee args) = some object := by
  rw [Session.called?, hl]
  exact Option.filter_eq_some_iff.mpr ⟨rfl, by rw [hk]; rfl⟩

/-- Whatever texts a session evaluates after its creation, at every point of these evaluations its
builtin names are bound to the objects they were bound to at first, and these have their kinds and
all their fields. A field of such an object is not what it was only if a statement inside the
evaluations has stored into it, one that extends this very object, under whatever name. So an object
that was never extended has the fields it had and no others. A builtin function whose parameters
were not replaced so has its own, and to call it, by its name if that is bound to nothing else or in
any other way, is to apply the function. -/
theorem builtins_kept_unless_extended (store : Store) (calls : List (Nat × Text × Nat)) :
    let created := Session.new store
    let runs := created.Performs calls
    created.Leads runs (created.evaluateAll calls) ∧
    (∀ r, runs r → created.Leads runs r.start) ∧
    ∀ s, created.Leads runs s →
      (∀ name object, created.scopes.builtin.get? name = some object →
        s.scopes.builtin.get? name = some object ∧
        s.store.kind object = created.store.kind object ∧
        (created.store.fields object).names <+: (s.store.fields object).names ∧
        (∀ field, s.store.field? object field ≠ created.store.field? object field →
          Session.StoredBetween runs object field created s) ∧
        ((∀ field, ¬Session.StoredBetween runs object field created s) →
          s.store.fields object = created.store.fields object)) ∧
      ∀ function : Native, ∃ object, created.scopes.builtin.get? function.name = some object ∧
        created.store.parameters object = function.params ∧
        s.store.kind object = .callable (.native function) ∧
        (s.scopes.temporary.get? function.name = none →
          s.scopes.persistent.get? function.name = none →
          ∀ args, s.called? (.call function.name args) = some object) ∧
        (¬Session.StoredBetween runs object Store.parametersField created s →
          s.store.parameters object = function.params ∧
          ∀ form args, form.args? = some args → s.called? form = some object → ∀ fuel depth,
            perform (evaluate fuel) form depth s =
              function.applied (evaluate fuel) args depth s) := by
  intro created runs
  refine ⟨created.leads_evaluateAll calls, fun r hr => hr.leads, fun s hl => ?_⟩
  have hkind : ∀ object, created.store.Has object →
      s.store.kind object = created.store.kind object := hl.grows.kind_eq
  refine ⟨fun name object hb => ?_, fun function => ?_⟩
  · have ho : created.store.Has object := (Session.hasAll_builtin_new store).has hb
    refine ⟨by rw [hl.builtin_eq, hb], hkind object ho, hl.grows.names object ho,
      fun field hf => hl.storedBetween ho hf, fun hn => ?_⟩
    by_contra hf
    obtain ⟨field, hs⟩ := hl.exists_storedBetween ho hf
    exact hn field hs
  · obtain ⟨object, hb, hc⟩ := Session.offersBuiltins_new store function
    have hb : created.scopes.builtin.get? function.name = some object := hb
    have ho : created.store.Has object := (Session.hasAll_builtin_new store).has hb
    have hk : s.store.kind object = .callable (.native function) := (hkind object ho).trans hc.kind
    refine ⟨object, hb, hc.parameters_eq, hk, fun ht hp args => ?_, fun hn => ?_⟩
    · refine called?_of_lookup? ?_ hk args
      rw [Scopes.lookup?, ht, hp, hl.builtin_eq, hb]
      rfl
    · have hf : s.store.field? object Store.parametersField =
          created.store.field? object Store.parametersField := by
        by_contra hf
        exact hn (hl.storedBetween ho hf)
      have hparams := (hl.grows.isCallable hf hc).parameters_eq
      exact ⟨hparams, fun _ _ ha hcalled _ _ => perform_eq_applied hk hparams ha hcalled⟩

theorem builtins_kept_unless_extended_none :
    let calls := [(3, "x <- 1 extends none".toList, 0)]
    let created := Session.new {}
    let runs := created.Performs calls
    let s := created.evaluateAll calls
    created.scopes.builtin.get? Native.noneName = some ⟨0⟩ ∧
    s.store.field? ⟨0⟩ ['x'] ≠ created.store.field? ⟨0⟩ ['x'] ∧
    Session.StoredBetween runs ⟨0⟩ ['x'] created s ∧
    created.scopes.builtin.get? Native.add.name = some ⟨1⟩ ∧
    (∀ field, ¬Session.StoredBetween runs ⟨1⟩ field created s) ∧
    s.store.fields ⟨1⟩ = created.store.fields ⟨1⟩ ∧
    s.store.parameters ⟨1⟩ = [Native.left, Native.right] ∧
    ∀ fuel, perform (evaluate fuel) (.call Native.add.name ["2".toList, "3".toList]) 0 s =
      Native.add.applied (evaluate fuel) ["2".toList, "3".toList] 0 s := by
  intro calls created runs s
  obtain ⟨hleads, -, hbuiltins⟩ := builtins_kept_unless_extended {} calls
  obtain ⟨hobjects, hfunctions⟩ := hbuiltins s hleads
  have hnone : created.scopes.builtin.get? Native.noneName = some ⟨0⟩ := by decide +kernel
  have hadd : created.scopes.builtin.get? Native.add.name = some ⟨1⟩ := by decide +kernel
  have hx : s.store.field? ⟨0⟩ ['x'] ≠ created.store.field? ⟨0⟩ ['x'] := by decide +kernel
  have hform : Statement.classify? "x <- 1 extends none".toList =
      some (.extend ['x'] ['1'] Native.noneName) := by decide +kernel
  have hleaf : Statement.classify? ['1'] = some (.integer ['1']) := by decide +kernel
  have hkept : ∀ field, ¬Session.StoredBetween runs ⟨1⟩ field created s := by
    rintro field ⟨r, value, u, v, ⟨done, fuel, text, depth, hd, hc⟩, -, hst, -⟩
    cases done with
    | cons first done => simp [calls] at hd
    | nil =>
      obtain ⟨rfl, rfl, rfl⟩ : fuel = 3 ∧ text = "x <- 1 extends none".toList ∧ depth = 0 := by
        simpa [calls] using hd
      have ho := Run.Contains.lookup?_of_stores hform (by decide +kernel) hleaf (by decide) rfl rfl
        hc hst
      have hl : created.scopes.lookup? Native.noneName = some ⟨0⟩ := by decide +kernel
      cases hl.symm.trans ho
  obtain ⟨object, hb, -, -, hcalled, happlied⟩ := hfunctions .add
  cases hadd.symm.trans hb
  obtain ⟨hparams, hperform⟩ := happlied (hkept _)
  refine ⟨hnone, hx, (hobjects _ _ hnone).2.2.2.1 _ hx, hadd, hkept,
    (hobjects _ _ hadd).2.2.2.2 hkept, hparams, fun fuel => ?_⟩
  exact hperform _ _ rfl (hcalled (by decide +kernel) (by decide +kernel) _) fuel 0

/-- A line stores a number where a builtin function has its parameters. No name is bound by it, and
still the function takes no arguments any more. -/
theorem builtin_parameters_overwritten :
    let s := (evalSource 3 "_args <- 1 extends add".toList Session.new).session
    s.Reachable ∧ s.scopes.temporary = [] ∧ s.scopes.persistent = [] ∧
    s.scopes.builtin.get? Native.add.name = some ⟨1⟩ ∧
    s.store.field? ⟨1⟩ Store.parametersField ≠
      Session.new.store.field? ⟨1⟩ Store.parametersField ∧
    Session.new.store.parameters ⟨1⟩ = [Native.left, Native.right] ∧
    s.store.parameters ⟨1⟩ = [] ∧
    (evalSource 3 "add:1,2".toList Session.new).value? = some ⟨9⟩ ∧
    (evalSource 3 "add:1,2".toList Session.new).session.store.text ⟨9⟩ = ['3'] ∧
    (evalSource 3 "add:1,2".toList s).failure? = some (.fault (.tooManyArguments 0 2)) := by
  have answered : (evalSource 3 "_args <- 1 extends add".toList Session.new).value? = some ⟨8⟩ := by
    decide +kernel
  refine ⟨.line_of_value? .new answered, ?_⟩
  decide +kernel

end LineScript
