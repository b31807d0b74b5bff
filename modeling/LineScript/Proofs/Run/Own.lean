import Mathlib.Data.List.Induction
import LineScript.Proofs.Evaluation.Course
import LineScript.Proofs.Evaluation.Expressions
import LineScript.Proofs.Run.Basic

namespace LineScript

open Text Eval

namespace Run

/-- A step of the run by itself, the runs that it starts apart. -/
inductive Own : Run → Session → Session → Prop where
  | evaluating {text : Text} {depth fuel : Nat} {s : Session} :
    Own ⟨.evaluation text depth, fuel, s⟩ s (s.record (.evaluating s.tracing depth text))
  | literal {text literal after : Text} {depth fuel : Nat} {start s : Session} :
    (literal, after) ∈ (literals text).quoted →
    Own ⟨.evaluation text depth, fuel, start⟩ s (s.withLiteral literal)
  | classified {text : Text} {form : Statement} {depth fuel : Nat} {start s : Session} :
    Own ⟨.evaluation text depth, fuel, start⟩ s (s.record (.classified form))
  | create {r : Run} {s : Session} {kind : Kind} :
    kind.IsData → Own r s { s with store := (s.store.alloc ⟨kind, []⟩).2 }
  | copy {source : Text} {depth fuel : Nat} {s : Session} {object : Ref} :
    s.scopes.lookup? source = some object →
    Own ⟨.statement (.copy source) depth, fuel, s⟩ s { s with store := (s.store.copy object).2 }
  | block {params : List Text} {body : Text} {depth fuel : Nat} {s : Session} :
    Own ⟨.statement (.block params body) depth, fuel, s⟩ s
      { s with store := (s.store.allocCallable params (.block body)).2 }
  | assign {name expr : Text} {depth fuel : Nat} {start s : Session} {value : Ref} :
    evaluate fuel expr (depth + 1) start = .value value s →
    Own ⟨.statement (.assign name expr) depth, fuel, start⟩ s (s.assign name value)
  | setField {field expr target : Text} {depth fuel : Nat} {start s : Session}
    {object value : Ref} :
    start.scopes.lookup? target = some object →
    evaluate fuel expr (depth + 1) start = .value value s →
    Own ⟨.statement (.extend field expr target) depth, fuel, start⟩ s
      (s.setField object field value)
  | bindAll {callable : Ref} {args : List Text} {depth fuel : Nat} {start s : Session}
    {values : List Ref} :
    (start.store.parameters callable).length = args.length →
    args.mapM (fun arg => evaluate fuel arg (depth + 1)) start = .value values s →
    Own ⟨.call callable args depth, fuel, start⟩ s
      (s.bindAll ((start.store.parameters callable).zip values))
  | endCall {callable : Ref} {args : List Text} {fuel : Nat} {start s : Session} :
    Own ⟨.call callable args 0, fuel, start⟩ s (endCall s)
  | directive {name rest : Text} {fuel : Nat} {s : Session} :
    Own ⟨.directive name rest, fuel, s⟩ s (s.record (.directive name rest))
  | trace {name rest : Text} {fuel : Nat} {start s : Session} (on : Bool) :
    Own ⟨.directive name rest, fuel, start⟩ s { s with tracing := on }

/-- A step that the run does on its own, or a run inside it. -/
def Moves (r : Run) (s t : Session) : Prop :=
  ∃ inner, r.Contains inner ∧ inner.Own s t

end Run

def Outcome.ReachedBy {α : Type} (step : Session → Session → Prop) (s : Session) (o : Outcome α) :
    Prop :=
  Relation.ReflTransGen step s o.session

namespace Outcome.ReachedBy

variable {α β : Type} {step : Session → Session → Prop} {s : Session}

theorem here {o : Outcome α} (h : o.session = s) : o.ReachedBy step s := by
  rw [ReachedBy, h]

theorem head {t : Session} {o : Outcome α} (h : step s t) (ho : o.ReachedBy step t) :
    o.ReachedBy step s :=
  Relation.ReflTransGen.head h ho

theorem bind {m : Eval α} {f : α → Eval β} (hm : (m s).ReachedBy step s)
    (hf : ∀ a t, m s = .value a t → (f a t).ReachedBy step t) :
    ((m >>= f) s).ReachedBy step s := by
  rw [bind_apply]
  cases ho : m s with
  | value a t =>
    rw [ho] at hm
    exact Relation.ReflTransGen.trans hm (hf a t ho)
  | failure why t =>
    rw [ho] at hm
    exact hm
  | exhausted t =>
    rw [ho] at hm
    exact hm

theorem look_bind {f : Session → α} {g : α → Eval β} (h : (g (f s) s).ReachedBy step s) :
    ((look f >>= g) s).ReachedBy step s :=
  h

theorem afterwards {m : Eval α} {f : Session → Session} (hm : (m s).ReachedBy step s)
    (hf : ∀ t, step t (f t)) : ((m.afterwards f) s).ReachedBy step s := by
  rw [afterwards_apply, ReachedBy, session_mapSession]
  exact hm.tail (hf _)

theorem mapM {f : α → Eval β} {xs : List α}
    (h : ∀ done x rest, xs = done ++ x :: rest → ∀ values t, done.mapM f s = .value values t →
      (f x t).ReachedBy step t) : (xs.mapM f s).ReachedBy step s := by
  induction xs using List.reverseRecOn with
  | nil => exact here rfl
  | append_singleton xs x ih =>
    rw [List.mapM_append]
    refine bind (ih fun done y rest he values t hd => ?_) fun values t hd => ?_
    · exact h done y (rest ++ [x]) (by rw [he, List.append_assoc, List.cons_append]) values t hd
    · refine bind ?_ fun _ _ _ => here rfl
      rw [List.mapM_cons]
      exact bind (h xs x [] rfl values t hd) fun _ _ _ => here rfl

theorem foldlM {f : β → α → Eval β} {xs : List α} {start : β}
    (h : ∀ done x rest, xs = done ++ x :: rest → ∀ b t, done.foldlM f start s = .value b t →
      (f b x t).ReachedBy step t) : (xs.foldlM f start s).ReachedBy step s := by
  induction xs using List.reverseRecOn with
  | nil => exact here rfl
  | append_singleton xs x ih =>
    rw [List.foldlM_append]
    refine bind (ih fun done y rest he b t hd => ?_) fun b t hd => ?_
    · exact h done y (rest ++ [x]) (by rw [he, List.append_assoc, List.cons_append]) b t hd
    · rw [List.foldlM_cons]
      exact bind (h xs x [] rfl b t hd) fun _ _ _ => here rfl

theorem resolve_bind {name : Text} {f : Ref → Eval α}
    (h : ∀ ref, s.scopes.lookup? name = some ref → (f ref s).ReachedBy step s) :
    ((resolve name >>= f) s).ReachedBy step s := by
  rw [bind_apply, resolve_apply]
  cases hl : s.scopes.lookup? name with
  | none => exact here rfl
  | some ref => exact h ref hl

theorem argument_bind {name rest : Text} {f : Text → Eval α}
    (h : (trim rest).isEmpty = false → (f (trim rest) s).ReachedBy step s) :
    ((Directive.argument name rest >>= f) s).ReachedBy step s := by
  rw [Directive.argument]
  split
  next => exact here rfl
  next ht => exact h (Bool.eq_false_iff.mpr ht)

section

variable (creates : ∀ text t, (Eval.create (.string text) t).ReachedBy step t)
include creates

theorem reflectTarget (target : Text) : (Directive.reflectTarget target s).ReachedBy step s := by
  rw [Directive.reflectTarget, bind_apply, look_apply]
  cases s.scopes.persistent.get? target with
  | none => exact here rfl
  | some ref =>
    refine look_bind ?_
    cases s.store.kind ref with
    | callable code =>
      cases code with
      | native function => exact here rfl
      | block body => exact creates body s
    | _ => exact here rfl

variable {evaluate : Text → Nat → Eval Ref}

theorem inspectTarget {target : Text}
    (evaluated : s.scopes.persistent.get? target = none →
      (evaluate target 0 s).ReachedBy step s) :
    (Directive.inspectTarget evaluate target s).ReachedBy step s := by
  rw [Directive.inspectTarget, bind_apply, look_apply]
  cases hp : s.scopes.persistent.get? target with
  | some ref => exact look_bind (creates _ s)
  | none => exact bind (evaluated hp) fun ref t _ => look_bind (creates _ t)

theorem expand {name rest : Text} (begins : step s (s.record (.directive name rest)))
    (inspected : Directive.table.lookup name = some .inspect → (trim rest).isEmpty = false →
      s.scopes.persistent.get? (trim rest) = none →
      (evaluate (trim rest) 0 (s.record (.directive name rest))).ReachedBy step
        (s.record (.directive name rest)))
    (traced : Directive.table.lookup name = some .trace →
      (Directive.traced evaluate rest (s.record (.directive name rest))).ReachedBy step
        (s.record (.directive name rest))) :
    (Directive.expand evaluate name rest s).ReachedBy step s := by
  rw [Directive.expand, record, change_bind_apply]
  refine head begins ?_
  cases hn : Directive.table.lookup name with
  | none => exact here rfl
  | some directive =>
    cases directive with
    | inspect =>
      exact argument_bind fun ht => inspectTarget creates fun hp => inspected hn ht hp
    | panic | exit => exact here rfl
    | reflect => exact argument_bind fun _ => reflectTarget creates _
    | trace => exact traced hn
    | scope => exact look_bind (creates _ _)
    | version => exact creates _ _

end

end Outcome.ReachedBy

theorem performSequence_append (evaluate : Text → Nat → Eval Ref) (done rest : List Text)
    (depth : Nat) : performSequence evaluate (done ++ rest) depth =
      performSequence evaluate done depth >>= fun last =>
        rest.foldlM (fun _ part => evaluate part (depth + 1)) last := by
  simp only [performSequence, List.foldlM_append, bind_assoc]

namespace Run

open Outcome.ReachedBy

/-- The steps take in those that the run does on its own, and lead through all runs that it
starts. -/
structure Covers (step : Session → Session → Prop) (r : Run) : Prop where
  own {s t : Session} : r.Own s t → step s t
  nested {r' : Run} : r.Starts r' → r'.outcome.ReachedBy step r'.start

theorem operand_session (function : Native) (param : Text) (s : Session) :
    (function.operand param s).session = s := by
  rw [Native.operand, bind_apply, look_apply]
  cases (s.scopes.temporary.get? param).map s.store.kind <;> rfl

namespace Covers

variable {step : Session → Session → Prop} {r r' : Run} {s : Session}

theorem create (h : Covers step r) {kind : Kind} (hk : kind.IsData) :
    (Eval.create kind s).ReachedBy step s :=
  .single (h.own (.create hk))

theorem answerText (h : Covers step r) (value : Ref) :
    (LineScript.answerText value s).ReachedBy step s :=
  look_bind (h.create trivial)

theorem native (h : Covers step r) (function : Native) : (function.run s).ReachedBy step s := by
  refine bind (mapM fun _ param _ _ _ t _ => here (operand_session function param t)) ?_
  intro operands t _
  cases hr : function.result? operands with
  | none => exact here rfl
  | some kind => exact h.create (Native.isData_of_result? hr)

section

variable {text name rest : Text} {form : Statement} {callable : Ref} {args : List Text}
variable {depth fuel : Nat} {start : Session}

theorem withLiterals (h : Covers step ⟨.evaluation text depth, fuel, start⟩)
    {quoted : List (Text × Text)} (hq : ∀ pair ∈ quoted, pair ∈ (literals text).quoted) :
    Relation.ReflTransGen step s (s.withLiterals (quoted.map Prod.fst)) := by
  induction quoted generalizing s with
  | nil => exact .refl
  | cons pair rest ih =>
    have hp : step s (s.withLiteral pair.1) := h.own (.literal (hq pair List.mem_cons_self))
    exact .head hp (ih fun other ho => hq other (List.mem_cons_of_mem pair ho))

theorem lifting (h : Covers step ⟨.evaluation text depth, fuel, s⟩) :
    (extractLiterals bindLiteral text (s.record (.evaluating s.tracing depth text))).ReachedBy
      step s := by
  refine head (h.own .evaluating) ?_
  rw [extractLiterals_apply]
  exact h.withLiterals fun _ hp => hp

theorem sequence {front parts : List Text}
    (h : Covers step ⟨.statement (.sequence parts) depth, fuel, s⟩) (hf : front <+: parts) :
    (performSequence (evaluate fuel) front depth s).ReachedBy step s := by
  obtain ⟨later, rfl⟩ := hf
  refine bind (h.create trivial) fun start t ht => ?_
  refine foldlM fun done part rest he last u hd => ?_
  subst he
  have hb : performSequence (evaluate fuel) done depth s = .value last u :=
    (bind_of_value ht _).trans hd
  rw [List.append_assoc, List.cons_append] at h
  exact h.nested (.part hb)

theorem arguments {front : List Text} (h : Covers step ⟨.call callable args depth, fuel, s⟩)
    (hf : front <+: args) (hl : (s.store.parameters callable).length = args.length) :
    ((front.mapM fun arg => evaluate fuel arg (depth + 1)) s).ReachedBy step s := by
  obtain ⟨later, rfl⟩ := hf
  refine mapM fun done arg rest he values t hd => ?_
  subst he
  rw [List.append_assoc, List.cons_append] at h hl
  exact h.nested (.argument hl hd)

theorem binding (h : Covers step ⟨.call callable args depth, fuel, s⟩) :
    (bindArguments (evaluate fuel) callable args depth s).ReachedBy step s := by
  refine look_bind ?_
  split
  · exact here rfl
  · split
    · exact here rfl
    · have hl : (s.store.parameters callable).length = args.length := by omega
      exact bind (h.arguments (List.prefix_refl args) hl) fun values t hd =>
        .single (h.own (.bindAll hl hd))

theorem evaluation (h : Covers step ⟨.evaluation text depth, fuel, s⟩) :
    (evaluate fuel text depth s).ReachedBy step s := by
  cases fuel with
  | zero => exact here rfl
  | succ fuel =>
    rw [evaluate_succ, evaluateWith_apply, performLifted, bind_apply]
    have hlift := h.lifting
    cases hl : extractLiterals bindLiteral text (s.record (.evaluating s.tracing depth text)) with
    | failure why t | exhausted t =>
      rw [hl] at hlift
      exact hlift
    | value found t =>
      rw [hl] at hlift
      refine Relation.ReflTransGen.trans hlift ?_
      cases found with
      | none => exact .refl
      | some lifted =>
        change (performText (evaluate fuel) lifted depth t).ReachedBy step t
        cases hc : Statement.classify? lifted with
        | none =>
          rw [performText, hc]
          exact here rfl
        | some form =>
          rw [performText_of_classify? hc]
          exact head (h.own .classified) (h.nested (.statement hl hc))

theorem calling (h : Covers step ⟨.statement form depth, fuel, s⟩) (ha : form.args? = some args) :
    (perform (evaluate fuel) form depth s).ReachedBy step s := by
  cases hc : s.called? form with
  | none =>
    obtain ⟨o, hs, ho⟩ := perform_of_not_called hc ha
    rw [ho]
    exact here hs
  | some callable =>
    obtain ⟨args', ha', hp⟩ := perform_of_called hc
    cases ha.symm.trans ha'
    rw [hp]
    exact h.nested (.call hc ha)

theorem statement (h : Covers step ⟨.statement form depth, fuel, s⟩) :
    (perform (evaluate fuel) form depth s).ReachedBy step s := by
  cases form with
  | comment | empty | object | float | boolean => exact h.create trivial
  | sequence parts => exact h.sequence (List.prefix_refl parts)
  | assign name expr =>
    refine bind (h.nested .assigned) fun value t hv => ?_
    exact head (h.own (.assign hv)) (h.answerText value)
  | extend field expr target =>
    refine resolve_bind fun object ho => bind (h.nested (.stored ho)) fun value t hv => ?_
    exact head (h.own (.setField ho hv)) (h.answerText value)
  | fieldCall | call => exact h.calling rfl
  | copy source =>
    exact resolve_bind fun object ho => .single (h.own (.copy ho))
  | block params body => exact .single (h.own .block)
  | integer numeral =>
    change (performInteger numeral s).ReachedBy step s
    rw [performInteger]
    split
    · exact here rfl
    · split
      · exact here rfl
      · exact h.create trivial
  | directive name rest => exact h.nested .directive
  | identifier name =>
    change (resolve name s).ReachedBy step s
    rw [resolve_apply]
    split <;> exact here rfl
  | parenthesized inner => exact h.nested .inner

theorem call (h : Covers step ⟨.call callable args depth, fuel, s⟩) :
    (apply (evaluate fuel) callable args depth s).ReachedBy step s := by
  have called : ((bindArguments (evaluate fuel) callable args depth >>= fun _ =>
      invoke (evaluate fuel) callable depth) s).ReachedBy step s :=
    bind h.binding fun _ t hb => h.nested (.invocation hb)
  rw [apply]
  split
  · subst depth
    exact afterwards called fun t => h.own .endCall
  · exact called

theorem invocation (h : Covers step ⟨.invocation callable depth, fuel, s⟩) :
    (invoke (evaluate fuel) callable depth s).ReachedBy step s := by
  cases hk : s.store.kind callable with
  | callable code =>
    rw [invoke_of_kind hk]
    cases code with
    | native function => exact h.nested (.native hk)
    | block body => exact h.nested (.body hk)
  | _ =>
    rw [invoke, bind_apply, look_apply, hk]
    exact here rfl

theorem directive (h : Covers step ⟨.directive name rest, fuel, s⟩) :
    (Directive.expand (evaluate fuel) name rest s).ReachedBy step s := by
  refine expand (fun _ _ => h.create trivial) (h.own .directive)
    (fun hn ht hp => h.nested (.inspected hn ht hp)) fun hn => ?_
  refine head (h.own (.trace true)) (afterwards ?_ fun t => h.own (.trace false))
  exact h.nested (.traced hn)

end

theorem outcome (h : Covers step r) : r.outcome.ReachedBy step r.start := by
  obtain ⟨activity, fuel, s⟩ := r
  cases activity with
  | evaluation text depth => exact h.evaluation
  | statement form depth => exact h.statement
  | call callable args depth => exact h.call
  | invocation callable depth => exact h.invocation
  | native function => exact h.native function
  | directive name rest => exact h.directive

theorem start (h : Covers step r) (hs : r.Starts r') :
    Relation.ReflTransGen step r.start r'.start := by
  cases hs with
  | statement hl hc =>
    have hlift := h.lifting
    rw [Outcome.ReachedBy, hl] at hlift
    exact hlift.tail (h.own .classified)
  | part hd =>
    have hdone := h.sequence (List.prefix_append _ _)
    rw [Outcome.ReachedBy, hd] at hdone
    exact hdone
  | assigned | stored | call | directive | inner | native | body => exact .refl
  | argument hl hd =>
    have hdone := h.arguments (List.prefix_append _ _) hl
    rw [Outcome.ReachedBy, hd] at hdone
    exact hdone
  | invocation hb =>
    have hbound := h.binding
    rw [Outcome.ReachedBy, hb] at hbound
    exact hbound
  | inspected => exact .single (h.own .directive)
  | traced => exact (Relation.ReflTransGen.single (h.own .directive)).tail (h.own (.trace true))

end Covers

variable {r r' : Run} {s t : Session}

theorem Own.moves (h : r.Own s t) : r.Moves s t :=
  ⟨r, .refl, h⟩

theorem Moves.inside (h : r'.Moves s t) (hs : r.Starts r') : r.Moves s t := by
  obtain ⟨inner, hc, ho⟩ := h
  exact ⟨inner, .head hs hc, ho⟩

def ByMoves (r : Run) : Prop :=
  r.outcome.ReachedBy r.Moves r.start

theorem ByMoves.inside (h : r'.ByMoves) (hs : r.Starts r') :
    r'.outcome.ReachedBy r.Moves r'.start :=
  Relation.ReflTransGen.mono (fun _ _ hm => hm.inside hs) _ _ h

theorem covers_moves (nested : ∀ r', r.Starts r' → r'.ByMoves) : Covers r.Moves r :=
  ⟨Own.moves, fun hs => (nested _ hs).inside hs⟩

theorem byMoves (r : Run) : r.ByMoves := by
  induction r using Run.induction with
  | step r nested => exact (covers_moves nested).outcome

/-- All that a run does is a chain of steps, each done by it or by a run inside it. -/
theorem moves (r : Run) : Relation.ReflTransGen r.Moves r.start r.outcome.session :=
  r.byMoves

theorem Contains.moves (h : r.Contains r') : Relation.ReflTransGen r.Moves r.start r'.start := by
  induction h using Relation.ReflTransGen.head_induction_on with
  | refl => exact .refl
  | head hs _ ih =>
    have hbefore := (covers_moves fun r' _ => r'.byMoves).start hs
    exact hbefore.trans (Relation.ReflTransGen.mono (fun _ _ hm => hm.inside hs) _ _ ih)

inductive Records : Run → Session → Event → Prop where
  | evaluating {text : Text} {depth fuel : Nat} {s : Session} :
    Records ⟨.evaluation text depth, fuel, s⟩ s (.evaluating s.tracing depth text)
  | classified {text : Text} {form : Statement} {depth fuel : Nat} {start s : Session} :
    Records ⟨.evaluation text depth, fuel, start⟩ s (.classified form)
  | clearing {callable : Ref} {args : List Text} {entries fuel : Nat} {start s : Session} :
    Records ⟨.call callable args 0, fuel, start⟩ s (.clearing entries)
  | directive {name rest : Text} {fuel : Nat} {s : Session} :
    Records ⟨.directive name rest, fuel, s⟩ s (.directive name rest)

theorem Own.log_cases (h : r.Own s t) :
    t.log = s.log ∨ ∃ e, t.log = e :: s.log ∧ r.Records s e := by
  cases h with
  | evaluating => exact .inr ⟨_, rfl, .evaluating⟩
  | classified => exact .inr ⟨_, rfl, .classified⟩
  | endCall => exact .inr ⟨_, rfl, .clearing⟩
  | directive => exact .inr ⟨_, rfl, .directive⟩
  | _ => exact .inl rfl

/-- Steps only add to the log, and each event is recorded by one of the runs when the log has come
so far. -/
theorem exists_records (h : Relation.ReflTransGen r.Moves s t) :
    ∃ events, t.log = events ++ s.log ∧
      ∀ later e earlier, events = later ++ e :: earlier →
        ∃ inner u, r.Contains inner ∧ inner.Records u e ∧ u.log = earlier ++ s.log := by
  induction h with
  | refl => exact ⟨[], rfl, by simp⟩
  | @tail u v _ hm ih =>
    obtain ⟨events, hl, hevents⟩ := ih
    obtain ⟨inner, hc, ho⟩ := hm
    obtain he | ⟨e, he, hr⟩ := ho.log_cases
    · exact ⟨events, he.trans hl, hevents⟩
    · refine ⟨e :: events, by rw [he, hl, List.cons_append], fun later e' earlier hsplit => ?_⟩
      cases later with
      | nil =>
        cases hsplit
        exact ⟨inner, u, hc, hr, hl⟩
      | cons _ later =>
        cases hsplit
        exact hevents later e' earlier rfl

end Run

end LineScript
