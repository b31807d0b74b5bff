import LineScript.Proofs.Run.Own
import LineScript.Proofs.Session.Reachable

namespace LineScript

open Text Eval

/-- From the first session to the second only temporary bindings were forgotten and tracing was
turned off. -/
structure Session.UnwoundTo (s t : Session) : Prop where
  store_eq : t.store = s.store
  persistent_eq : t.scopes.persistent = s.scopes.persistent
  builtin_eq : t.scopes.builtin = s.scopes.builtin
  temporary : t.scopes.temporary = s.scopes.temporary ∨ t.scopes.temporary = []
  tracing : t.tracing = s.tracing ∨ t.tracing = false
  literals_eq : t.literals = s.literals
  log : ∃ entries : List Nat, t.log = entries.map .clearing ++ s.log

namespace Session.UnwoundTo

variable {s t u : Session}

theorem rfl : s.UnwoundTo s :=
  ⟨Eq.refl _, Eq.refl _, Eq.refl _, .inl (Eq.refl _), .inl (Eq.refl _), Eq.refl _, [], Eq.refl _⟩

theorem trans (h : s.UnwoundTo t) (h' : t.UnwoundTo u) : s.UnwoundTo u where
  store_eq := h'.store_eq.trans h.store_eq
  persistent_eq := h'.persistent_eq.trans h.persistent_eq
  builtin_eq := h'.builtin_eq.trans h.builtin_eq
  temporary := by
    obtain he | he := h'.temporary
    · rw [he]
      exact h.temporary
    · exact .inr he
  tracing := by
    obtain he | he := h'.tracing
    · rw [he]
      exact h.tracing
    · exact .inr he
  literals_eq := h'.literals_eq.trans h.literals_eq
  log := by
    obtain ⟨earlier, he⟩ := h.log
    obtain ⟨later, hl⟩ := h'.log
    exact ⟨later ++ earlier, by rw [hl, he, List.map_append, List.append_assoc]⟩

theorem endCall (s : Session) : s.UnwoundTo (endCall s) :=
  ⟨Eq.refl _, Eq.refl _, Eq.refl _, .inr (Eq.refl _), .inl (Eq.refl _), Eq.refl _, [_], Eq.refl _⟩

theorem untraced (s : Session) : s.UnwoundTo { s with tracing := false } :=
  ⟨Eq.refl _, Eq.refl _, Eq.refl _, .inl (Eq.refl _), .inr (Eq.refl _), Eq.refl _, [], Eq.refl _⟩

end Session.UnwoundTo

section

variable {α β : Type} {s t : Session} {why : Failure}

theorem mapM_of_failure {f : α → Eval β} {done rest : List α} {a : α} {values : List β}
    {u : Session} (hd : done.mapM f s = .value values t) (ha : f a t = .failure why u) :
    (done ++ a :: rest).mapM f s = .failure why u := by
  rw [List.mapM_append, bind_of_value hd, List.mapM_cons]
  exact bind_of_failure (bind_of_failure ha _) _

theorem inspectTarget_of_failure {evaluate : Text → Nat → Eval Ref} {target : Text}
    (hp : s.scopes.persistent.get? target = none) (hf : evaluate target 0 s = .failure why t) :
    Directive.inspectTarget evaluate target s = .failure why t := by
  rw [Directive.inspectTarget, bind_apply, look_apply]
  simp only [hp]
  exact bind_of_failure hf _

theorem apply_of_failure {evaluate : Text → Nat → Eval Ref} {callable : Ref} {args : List Text}
    {depth : Nat} (h : (bindArguments evaluate callable args depth >>= fun _ =>
      invoke evaluate callable depth) s = .failure why t) :
    ∃ u, apply evaluate callable args depth s = .failure why u ∧ t.UnwoundTo u := by
  rw [apply]
  split
  · exact ⟨endCall t, by rw [afterwards_apply, h]; rfl, .endCall t⟩
  · exact ⟨t, h, .rfl⟩

end

namespace Run

variable {r r' : Run} {why : Failure} {u : Session}

theorem Starts.failure (h : r.Starts r') (hf : r'.outcome = .failure why u) :
    ∃ v, r.outcome = .failure why v ∧ u.UnwoundTo v := by
  -- Only a call at depth zero and a directive that traces do something on the way out.
  cases h with
  | @statement text lifted form depth fuel s t hl hc =>
    refine ⟨u, ?_, .rfl⟩
    change evaluate (fuel + 1) text depth s = _
    rw [evaluate_succ, evaluateWith_apply, performLifted, bind_of_value hl]
    exact (performText_of_classify? hc depth t).trans hf
  | @part done rest part depth fuel s t last hd =>
    refine ⟨u, ?_, .rfl⟩
    change performSequence (evaluate fuel) (done ++ part :: rest) depth s = _
    rw [performSequence_append, bind_of_value hd, List.foldlM_cons]
    exact bind_of_failure hf _
  | assigned => exact ⟨u, bind_of_failure hf _, .rfl⟩
  | stored ho =>
    exact ⟨u, (bind_of_value (resolve_of_lookup? ho) _).trans (bind_of_failure hf _), .rfl⟩
  | @call form args depth fuel s callable hc ha =>
    obtain ⟨args', ha', hp⟩ := perform_of_called hc
    cases ha.symm.trans ha'
    exact ⟨u, (hp (evaluate fuel) depth).trans hf, .rfl⟩
  | directive => exact ⟨u, hf, .rfl⟩
  | inner => exact ⟨u, hf, .rfl⟩
  | @argument callable done rest arg depth fuel s t values hn hd =>
    refine apply_of_failure (bind_of_failure ?_ _)
    rw [bindArguments_of_length hn]
    exact bind_of_failure (mapM_of_failure hd hf) _
  | invocation hb => exact apply_of_failure ((bind_of_value hb _).trans hf)
  | native hk | body hk => exact ⟨u, (invoke_of_kind hk _).trans hf, .rfl⟩
  | @inspected name rest fuel s hn ht hp =>
    refine ⟨u, (expand_inspect hn).trans ?_, .rfl⟩
    have ha : Directive.argument name rest = pure (trim rest) := by
      rw [Directive.argument, ht]
      rfl
    rw [ha, pure_bind]
    exact inspectTarget_of_failure hp hf
  | @traced name rest fuel s hn =>
    refine ⟨{ u with tracing := false }, (expand_trace hn).trans ?_, .untraced u⟩
    rw [Directive.traced, change_bind_apply, afterwards_apply]
    exact congrArg (Outcome.mapSession _) hf

/-- A failure inside a run ends the run with the same failure. -/
theorem Contains.failure (h : r.Contains r') (hf : r'.outcome = .failure why u) :
    ∃ v, r.outcome = .failure why v ∧ u.UnwoundTo v := by
  induction h using Relation.ReflTransGen.head_induction_on with
  | refl => exact ⟨u, hf, .rfl⟩
  | head hs _ ih =>
    obtain ⟨v, hv, hu⟩ := ih
    obtain ⟨w, hw, hvw⟩ := hs.failure hv
    exact ⟨w, hw, hu.trans hvw⟩

end Run

def Event.begins? : Event → Option Activity
  | evaluating _ depth text => some (.evaluation text depth)
  | directive name rest => some (.directive name rest)
  | _ => none

namespace Run

variable {r : Run}

theorem Records.activity_eq {s : Session} {e : Event} {activity : Activity} (h : r.Records s e)
    (hb : e.begins? = some activity) : r.activity = activity := by
  cases h with
  | evaluating | directive =>
    cases hb
    rfl
  | _ => cases hb

/-- Whatever the log says was begun while a run was under way is a run inside it. -/
theorem log (r : Run) : ∃ events, r.outcome.session.log = events ++ r.start.log ∧
    ∀ e ∈ events, ∀ activity, e.begins? = some activity →
      ∃ inner, r.Contains inner ∧ inner.activity = activity := by
  obtain ⟨events, hl, hevents⟩ := exists_records r.moves
  refine ⟨events, hl, fun e hm activity hb => ?_⟩
  obtain ⟨later, earlier, hsplit⟩ := List.append_of_mem hm
  obtain ⟨inner, u, hc, hr, -⟩ := hevents later e earlier hsplit
  exact ⟨inner, hc, hr.activity_eq hb⟩

end Run

/-- Whatever fails while a line is evaluated, at whatever nesting, ends the line with the very same
failure, and from then on temporary bindings are forgotten and tracing is turned off, but nothing
else is done. The runs inside a line include all that the log says was begun. -/
theorem failure_ends_line (fuel : Nat) (line : Text) (s : Session) :
    (∀ r why u, (Run.ofLine fuel line s).Contains r → r.outcome = .failure why u →
      ∃ v, evalSource fuel line s = .failure why v ∧ u.UnwoundTo v) ∧
    ∃ events, (evalSource fuel line s).session.log = events ++ s.log ∧
      ∀ e ∈ events, ∀ activity, e.begins? = some activity →
        ∃ r, (Run.ofLine fuel line s).Contains r ∧ r.activity = activity :=
  ⟨fun _ _ _ hc hf => hc.failure hf, (Run.ofLine fuel line s).log⟩

theorem failure_ends_line_traced : ∃ r u,
    (Run.ofLine 5 "a <- 1; !trace b".toList Session.new).Contains r ∧
    r.outcome = .failure (.fault (.unboundName ['b'])) u ∧ u.tracing = true ∧
    ∃ v, evalSource 5 "a <- 1; !trace b".toList Session.new =
      .failure (.fault (.unboundName ['b'])) v ∧ u.UnwoundTo v := by
  let parts := ["a <- 1".toList, "!trace b".toList]
  let entered := (Session.new.record (.evaluating false 0 "a <- 1; !trace b".toList)).record
    (.classified (.sequence parts))
  let assigned := (performSequence (evaluate 4) ["a <- 1".toList] 0 entered).session
  let directed := (assigned.record (.evaluating assigned.tracing 1 "!trace b".toList)).record
    (.classified (.directive "trace".toList ['b']))
  let traced : Session := { directed.record (.directive "trace".toList ['b']) with tracing := true }
  have hfirst : performSequence (evaluate 4) ["a <- 1".toList] 0 entered = .value ⟨9⟩ assigned :=
    Outcome.eq_of_value? (by decide +kernel)
  have hline : (Run.ofLine 5 "a <- 1; !trace b".toList Session.new).Starts
      ⟨.statement (.sequence parts) 0, 4, entered⟩ :=
    .of_quoteFree (by decide +kernel) (by decide +kernel) 0 4 Session.new
  have hpart : Run.Starts ⟨.evaluation "!trace b".toList 1, 4, assigned⟩
      ⟨.statement (.directive "trace".toList ['b']) 1, 3, directed⟩ :=
    .of_quoteFree (by decide +kernel) (by decide +kernel) 1 3 assigned
  have htrace : Run.Starts ⟨.directive "trace".toList ['b'], 3, directed⟩
      ⟨.evaluation ['b'] 0, 3, traced⟩ :=
    .traced (by decide +kernel)
  have hc : (Run.ofLine 5 "a <- 1; !trace b".toList Session.new).Contains
      ⟨.evaluation ['b'] 0, 3, traced⟩ :=
    Relation.ReflTransGen.refl |>.tail hline |>.tail (.part hfirst) |>.tail hpart
      |>.tail .directive |>.tail htrace
  have hf : Run.outcome ⟨.evaluation ['b'] 0, 3, traced⟩ =
      .failure (.fault (.unboundName ['b'])) (evaluate 3 ['b'] 0 traced).session :=
    Outcome.eq_of_failure? (by decide +kernel)
  exact ⟨_, _, hc, hf, by decide +kernel, (failure_ends_line 5 _ _).1 _ _ _ hc hf⟩

end LineScript
