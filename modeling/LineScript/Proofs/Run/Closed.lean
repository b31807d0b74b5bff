import LineScript.Proofs.Run.Heap
import LineScript.Proofs.Session.Closed

namespace LineScript

open Text Eval

def Outcome.Grounded (o : Outcome Ref) : Prop :=
  ∀ value t, o = .value value t → t.store.Has value

namespace Outcome.Grounded

variable {α : Type} {s : Session}

theorem value {ref : Ref} (h : s.store.Has ref) : (Outcome.value ref s).Grounded := by
  rintro _ _ he
  cases he
  exact h

theorem fail (why : Failure) : (Eval.fail why s).Grounded :=
  nofun

theorem bind {m : Eval α} {f : α → Eval Ref} (h : ∀ a t, m s = .value a t → (f a t).Grounded) :
    ((m >>= f) s).Grounded := by
  intro ref u hu
  obtain ⟨a, t, hm, hf⟩ := exists_of_bind_eq_value hu
  exact h a t hm ref u hf

theorem look_bind {f : Session → α} {g : α → Eval Ref} (h : (g (f s) s).Grounded) :
    ((look f >>= g) s).Grounded :=
  h

theorem resolve_bind {name : Text} {f : Ref → Eval Ref}
    (h : ∀ ref, s.scopes.lookup? name = some ref → (f ref s).Grounded) :
    ((resolve name >>= f) s).Grounded := by
  rw [bind_apply, resolve_apply]
  cases hl : s.scopes.lookup? name with
  | none => exact fail _
  | some ref => exact h ref hl

theorem create (kind : Kind) : (Eval.create kind s).Grounded :=
  value (s.store.has_alloc _)

theorem answerText (ref : Ref) : (LineScript.answerText ref s).Grounded :=
  look_bind (create _)

theorem afterwards {m : Eval Ref} {f : Session → Session} (hm : (m s).Grounded)
    (hf : ∀ t, (f t).store = t.store) : ((m.afterwards f) s).Grounded := by
  rw [afterwards_apply]
  cases ho : m s with
  | value ref t =>
    refine value ?_
    rw [hf]
    exact hm ref t ho
  | _ => nofun

theorem argument (name rest : Text) {f : Text → Eval Ref} (h : (f (trim rest) s).Grounded) :
    ((Directive.argument name rest >>= f) s).Grounded := by
  rw [Directive.argument]
  split
  · exact fail _
  · exact h

theorem reflectTarget (target : Text) : (Directive.reflectTarget target s).Grounded := by
  refine look_bind ?_
  cases s.scopes.persistent.get? target with
  | none => exact fail _
  | some ref =>
    refine look_bind ?_
    cases s.store.kind ref with
    | callable code =>
      cases code with
      | native function => exact fail _
      | block body => exact create _
    | _ => exact fail _

end Outcome.Grounded

namespace Run

/-- What the run leaves behind is closed, and its value is there. -/
structure Sound (r : Run) : Prop where
  closed : r.outcome.session.Closed
  grounded : r.outcome.Grounded

section

variable {text name rest : Text} {form : Statement} {callable : Ref} {args : List Text}
variable {depth fuel : Nat} {s : Session}

theorem grounded_native (function : Native) : (function.run s).Grounded := by
  refine .bind fun operands t _ => ?_
  cases function.result? operands with
  | none => exact .fail _
  | some kind => exact .create kind

theorem grounded_evaluation
    (nested : ∀ r', Starts ⟨.evaluation text depth, fuel, s⟩ r' → r'.Sound) :
    (evaluate fuel text depth s).Grounded := by
  cases fuel with
  | zero => nofun
  | succ fuel =>
    rw [evaluate_succ, evaluateWith_apply, performLifted]
    refine .bind fun found t hl => ?_
    cases found with
    | none => exact .fail _
    | some lifted =>
      change (performText (evaluate fuel) lifted depth t).Grounded
      cases hc : Statement.classify? lifted with
      | none =>
        rw [performText, hc]
        exact .fail _
      | some form =>
        rw [performText_of_classify? hc]
        exact (nested _ (.statement hl hc)).grounded

theorem grounded_sequence {parts : List Text}
    (nested : ∀ r', Starts ⟨.statement (.sequence parts) depth, fuel, s⟩ r' → r'.Sound) :
    (performSequence (evaluate fuel) parts depth s).Grounded := by
  cases parts using List.reverseRecOn with
  | nil =>
    exact .bind fun start t hc => .value (Outcome.Grounded.create .nothing start t hc)
  | append_singleton done part =>
    rw [performSequence_append]
    refine .bind fun last t hd => ?_
    rw [List.foldlM_cons]
    exact .bind fun value u hv => .value ((nested _ (.part hd)).grounded value u hv)

theorem grounded_fieldCall {receiver field : Text} (hs : s.Closed)
    (nested : ∀ r', Starts ⟨.statement (.fieldCall receiver field args) depth, fuel, s⟩ r' →
      r'.Sound) :
    (performFieldCall (evaluate fuel) receiver field args depth s).Grounded := by
  refine .resolve_bind fun object ho => .look_bind ?_
  cases hm : s.store.field? object field with
  | none => exact .look_bind (.fail _)
  | some member =>
    refine .look_bind ?_
    cases hc : (s.store.kind member).callable? with
    | none => exact .value (hs.has_of_field? hm)
    | some code =>
      have hcalled : s.called? (.fieldCall receiver field args) = some member := by
        simp [Session.called?, Session.callable?, ho, hm, hc]
      exact (nested _ (.call hcalled rfl)).grounded

theorem grounded_call {callee : Text}
    (nested : ∀ r', Starts ⟨.statement (.call callee args) depth, fuel, s⟩ r' → r'.Sound) :
    (performCall (evaluate fuel) callee args depth s).Grounded := by
  refine .resolve_bind fun callable ho => .look_bind ?_
  cases hc : (s.store.kind callable).callable? with
  | none => exact .fail _
  | some code =>
    have hcalled : s.called? (.call callee args) = some callable := by
      simp [Session.called?, Session.callable?, ho, hc]
    exact (nested _ (.call hcalled rfl)).grounded

theorem grounded_statement (hs : s.Closed)
    (nested : ∀ r', Starts ⟨.statement form depth, fuel, s⟩ r' → r'.Sound) :
    (perform (evaluate fuel) form depth s).Grounded := by
  cases form with
  | comment | empty | object | float | boolean => exact .create _
  | sequence parts => exact grounded_sequence nested
  | assign name expr => exact .bind fun value _ _ => .bind fun _ _ _ => .answerText value
  | extend field expr target =>
    exact .bind fun _ _ _ => .bind fun value _ _ => .bind fun _ _ _ => .answerText value
  | fieldCall receiver field args => exact grounded_fieldCall hs nested
  | call callee args => exact grounded_call nested
  | copy source => exact .bind fun object t _ => .value (t.store.has_alloc _)
  | block params body => exact .value (s.store.has_allocCallable _ _)
  | integer numeral =>
    change (performInteger numeral s).Grounded
    rw [performInteger]
    split
    · exact .fail _
    · split
      · exact .fail _
      · exact .create _
  | directive name rest => exact (nested _ .directive).grounded
  | identifier name =>
    change (resolve name s).Grounded
    rw [← bind_pure (resolve name)]
    exact .resolve_bind fun ref hl => .value (hs.has_of_lookup? hl)
  | parenthesized inner => exact (nested _ .inner).grounded

theorem grounded_apply
    (nested : ∀ r', Starts ⟨.call callable args depth, fuel, s⟩ r' → r'.Sound) :
    (apply (evaluate fuel) callable args depth s).Grounded := by
  have called : ((bindArguments (evaluate fuel) callable args depth >>= fun _ =>
      invoke (evaluate fuel) callable depth) s).Grounded :=
    .bind fun _ t hb => (nested _ (.invocation hb)).grounded
  rw [apply]
  split
  · exact .afterwards called fun _ => rfl
  · exact called

theorem grounded_invocation
    (nested : ∀ r', Starts ⟨.invocation callable depth, fuel, s⟩ r' → r'.Sound) :
    (invoke (evaluate fuel) callable depth s).Grounded := by
  cases hk : s.store.kind callable with
  | callable code =>
    rw [invoke_of_kind hk]
    cases code with
    | native function => exact grounded_native function
    | block body => exact (nested _ (.body hk)).grounded
  | _ =>
    rw [invoke, bind_apply, look_apply, hk]
    exact .fail _

theorem grounded_directive
    (nested : ∀ r', Starts ⟨.directive name rest, fuel, s⟩ r' → r'.Sound) :
    (Directive.expand (evaluate fuel) name rest s).Grounded := by
  rw [Directive.expand, record, change_bind_apply]
  cases hn : Directive.table.lookup name with
  | none => exact .fail _
  | some directive =>
    cases directive with
    | inspect =>
      refine .argument name rest (.look_bind ?_)
      cases (s.record (.directive name rest)).scopes.persistent.get? (trim rest) with
      | some ref => exact .look_bind (.create _)
      | none => exact .bind fun _ _ _ => .look_bind (.create _)
    | panic | exit => exact .fail _
    | reflect => exact .argument name rest (.reflectTarget _)
    | trace => exact .afterwards (nested _ (.traced hn)).grounded fun _ => rfl
    | scope => exact .look_bind (.create _)
    | version => exact .create _

end

variable {r r' : Run} {s t : Session}

theorem grounded (hr : r.start.Closed) (nested : ∀ r', r.Starts r' → r'.Sound) :
    r.outcome.Grounded := by
  obtain ⟨activity, fuel, s⟩ := r
  cases activity with
  | evaluation text depth => exact grounded_evaluation nested
  | statement form depth => exact grounded_statement hr nested
  | call callable args depth => exact grounded_apply nested
  | invocation callable depth => exact grounded_invocation nested
  | native function => exact grounded_native function
  | directive name rest => exact grounded_directive nested

theorem grows_outcome (r : Run) : r.start.store.Grows r.outcome.session.store :=
  r.leads.grows

theorem Sound.of_value (h : r.Sound) {value : Ref} (ho : r.outcome = .value value t) :
    t.Closed ∧ t.store.Has value ∧ r.start.store.Grows t.store := by
  have hc := h.closed
  have hg := r.grows_outcome
  rw [ho] at hc hg
  exact ⟨hc, h.grounded value t ho, hg⟩

theorem hasAll_of_arguments {callable : Ref} {args front : List Text} {depth fuel : Nat}
    {values : List Ref} (hs : s.Closed)
    (nested : ∀ r', Starts ⟨.call callable args depth, fuel, s⟩ r' → r'.start.Closed → r'.Sound)
    (hl : (s.store.parameters callable).length = args.length) (hf : front <+: args)
    (hd : front.mapM (fun arg => evaluate fuel arg (depth + 1)) s = .value values t) :
    t.Closed ∧ ∀ value ∈ values, t.store.Has value := by
  induction front using List.reverseRecOn generalizing values t with
  | nil =>
    cases hd
    exact ⟨hs, nofun⟩
  | append_singleton done arg ih =>
    rw [List.mapM_append] at hd
    obtain ⟨before, u, hb, hd⟩ := exists_of_bind_eq_value hd
    obtain ⟨last, v, hlast, hd⟩ := exists_of_bind_eq_value hd
    rw [List.mapM_cons] at hlast
    obtain ⟨value, w, hv, hn⟩ := exists_of_bind_eq_value hlast
    cases hn
    cases hd
    obtain ⟨hu, hbefore⟩ := ih ((List.prefix_append _ _).trans hf) hb
    obtain ⟨later, rfl⟩ := hf
    rw [List.append_assoc, List.singleton_append] at nested hl
    obtain ⟨ht, hvalue, hg⟩ := (nested _ (.argument hl hb) hu).of_value hv
    refine ⟨ht, fun other ho => ?_⟩
    obtain ho | ho := List.mem_append.mp ho
    · exact hg.has (hbefore other ho)
    · cases List.mem_singleton.mp ho
      exact hvalue

/-- No step of a run that begins in a closed session breaks it. -/
theorem Own.closed (hr : r.start.Closed)
    (nested : ∀ r', r.Starts r' → r'.start.Closed → r'.Sound) (h : r.Own s t) (hs : s.Closed) :
    t.Closed := by
  cases h with
  | evaluating | classified | directive | trace =>
    exact ⟨hs.store, hs.temporary, hs.persistent, hs.builtin⟩
  | @literal _ literal => exact hs.withLiteral literal
  | @create _ _ kind => exact hs.create kind
  | @copy source _ _ s object =>
    exact hs.onStore (s.store.grows_alloc _) (hs.store.alloc (hs.store object))
  | @block params body =>
    exact hs.onStore (s.store.grows_allocCallable _ _) (hs.store.allocCallable params _)
  | @assign name expr depth fuel start s value hv =>
    have hvalue := ((nested _ .assigned hr).of_value hv).2.1
    exact ⟨hs.store, hs.temporary, hs.persistent.insert hvalue name, hs.builtin⟩
  | @setField field expr target depth fuel start s object value ho hv =>
    have hvalue := ((nested _ (.stored ho) hr).of_value hv).2.1
    exact hs.onStore (.setField _ object field value) (hs.store.setField hvalue object field)
  | @bindAll callable args depth fuel start s values hl hd =>
    have hvalues := (hasAll_of_arguments hr nested hl (List.prefix_refl args) hd).2
    exact hs.bindAll fun entry hm => hvalues _ (List.of_mem_zip hm).2
  | endCall => exact ⟨hs.store, Store.hasAll_nil, hs.persistent, hs.builtin⟩

theorem covers_closed (hr : r.start.Closed)
    (nested : ∀ r', r.Starts r' → r'.start.Closed → r'.Sound) :
    Covers (fun s t => s.Closed → t.Closed) r where
  own ho := ho.closed hr nested
  nested hs := .single fun hc => (nested _ hs hc).closed

theorem closed_of_chain (h : Relation.ReflTransGen (fun s t => s.Closed → t.Closed) s t)
    (hs : s.Closed) : t.Closed := by
  induction h with
  | refl => exact hs
  | tail _ hm ih => exact hm ih

theorem Starts.closed_of_sound (hr : r.start.Closed)
    (nested : ∀ r', r.Starts r' → r'.start.Closed → r'.Sound) (hs : r.Starts r') :
    r'.start.Closed :=
  closed_of_chain ((covers_closed hr nested).start hs) hr

theorem sound (r : Run) (hr : r.start.Closed) : r.Sound := by
  induction r using Run.induction with
  | step r nested =>
    refine ⟨closed_of_chain (covers_closed hr nested).outcome hr, grounded hr fun r' hs => ?_⟩
    exact nested r' hs (hs.closed_of_sound hr nested)

theorem Contains.closed (h : r.Contains r') (hr : r.start.Closed) : r'.start.Closed := by
  induction h with
  | refl => exact hr
  | tail _ hs ih => exact hs.closed_of_sound ih fun r' _ hc => r'.sound hc

end Run

namespace Session

variable {s : Session}

theorem Evaluated.closed (h : s.Evaluated) : s.Closed := by
  induction h with
  | new => exact .new .empty
  | another _ ih => exact .new ih.store
  | @evaluate s fuel text depth _ ih =>
    exact (Run.sound ⟨.evaluation text depth, fuel, s⟩ ih).closed

end Session

theorem Run.Arises.closed {r : Run} (h : r.Arises) : r.start.Closed := by
  obtain ⟨_, _, _, s, hs, h⟩ := h
  exact h.closed hs.closed

theorem Session.Visited.closed {s : Session} (h : s.Visited) : s.Closed :=
  h.invariant (.new .empty) (fun _ hs => .new hs.store) fun _ _ _ hr ho hs =>
    ho.closed hr.closed (fun r' _ hc => r'.sound hc) hs

end LineScript
