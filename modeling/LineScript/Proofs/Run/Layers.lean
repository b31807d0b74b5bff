import LineScript.Proofs.Run.Heap

namespace LineScript

open Eval

variable {s t : Session} {name : Text}

namespace Run

/-- The run assigns a value to a name. It is the assignment of an expression, whose evaluation gave
the value. -/
inductive Assigns : Run → Text → Ref → Session → Session → Prop where
  | assign {name expr : Text} {depth fuel : Nat} {start s : Session} {value : Ref} :
    evaluate fuel expr (depth + 1) start = .value value s →
    Assigns ⟨.statement (.assign name expr) depth, fuel, start⟩ name value s (s.assign name value)

variable {r : Run} {value : Ref}

theorem Own.builtin_eq (h : r.Own s t) : t.scopes.builtin = s.scopes.builtin := by
  cases h with
  | bindAll => exact Scopes.builtin_bindAll _ _
  | _ => rfl

/-- No step but an assignment touches the persistent layer. -/
theorem Own.persistent_cases (h : r.Own s t) :
    t.scopes.persistent = s.scopes.persistent ∨
      ∃ name value, r.Assigns name value s t ∧
        t.scopes.persistent = s.scopes.persistent.insert name value := by
  cases h with
  | assign hv => exact .inr ⟨_, _, .assign hv, rfl⟩
  | bindAll => exact .inl (Scopes.persistent_bindAll _ _)
  | _ => exact .inl rfl

theorem Own.persistent_names (h : r.Own s t) :
    s.scopes.persistent.names <+: t.scopes.persistent.names := by
  obtain he | ⟨name, value, -, he⟩ := h.persistent_cases
  · exact he ▸ List.prefix_refl _
  · rw [he]
    exact Bindings.names_insert_prefix _ name value

theorem Own.exists_assigns (h : r.Own s t)
    (hn : t.scopes.persistent.get? name ≠ s.scopes.persistent.get? name) :
    ∃ value, r.Assigns name value s t := by
  obtain he | ⟨other, value, ha, he⟩ := h.persistent_cases
  · exact absurd (by rw [he]) hn
  · rw [he, Bindings.get?_insert] at hn
    split at hn
    next heq => exact ⟨value, heq ▸ ha⟩
    next => exact absurd rfl hn

end Run

namespace Session

def AssignedBetween (runs : Run → Prop) (name : Text) (s t : Session) : Prop :=
  ∃ r value u v, runs r ∧ s.Leads runs u ∧ r.Assigns name value u v ∧ v.Leads runs t

namespace Leads

variable {runs : Run → Prop}

theorem builtin_eq (h : s.Leads runs t) : t.scopes.builtin = s.scopes.builtin :=
  h.invariant (I := fun u => u.scopes.builtin = s.scopes.builtin)
    (fun _ _ _ _ ho hu => ho.builtin_eq.trans hu) rfl

theorem persistent_names (h : s.Leads runs t) :
    s.scopes.persistent.names <+: t.scopes.persistent.names :=
  h.invariant (I := fun u => s.scopes.persistent.names <+: u.scopes.persistent.names)
    (fun _ _ _ _ ho hu => hu.trans ho.persistent_names) (List.prefix_refl _)

theorem assignedBetween (h : s.Leads runs t)
    (hn : t.scopes.persistent.get? name ≠ s.scopes.persistent.get? name) :
    AssignedBetween runs name s t := by
  obtain ⟨r, u, v, hr, hb, ho, hne, ha⟩ := h.exists_step (·.scopes.persistent.get? name) hn
  obtain ⟨value, hv⟩ := ho.exists_assigns hne
  exact ⟨r, value, u, v, hr, hb, hv, ha⟩

end Leads

/-- The session after texts were evaluated one after the other, each at its depth and nesting as
deep as it may, whatever each ends in. -/
def evaluateAll (s : Session) (calls : List (Nat × Text × Nat)) : Session :=
  calls.foldl (fun s (fuel, text, depth) => (evaluate fuel text depth s).session) s

theorem evaluateAll_append_singleton (s : Session) (calls : List (Nat × Text × Nat)) (fuel : Nat)
    (text : Text) (depth : Nat) : s.evaluateAll (calls ++ [(fuel, text, depth)]) =
      (evaluate fuel text depth (s.evaluateAll calls)).session := by
  rw [evaluateAll, List.foldl_append]
  rfl

def Performs (s : Session) (calls : List (Nat × Text × Nat)) (r : Run) : Prop :=
  ∃ done fuel text depth, done ++ [(fuel, text, depth)] <+: calls ∧
    Run.Contains ⟨.evaluation text depth, fuel, s.evaluateAll done⟩ r

theorem Performs.mono {earlier calls : List (Nat × Text × Nat)} {r : Run}
    (hp : earlier <+: calls) (h : s.Performs earlier r) : s.Performs calls r := by
  obtain ⟨done, fuel, text, depth, hd, hc⟩ := h
  exact ⟨done, fuel, text, depth, hd.trans hp, hc⟩

theorem leads_evaluateAll (s : Session) (calls : List (Nat × Text × Nat)) :
    s.Leads (s.Performs calls) (s.evaluateAll calls) := by
  induction calls using List.reverseRecOn with
  | nil => exact .refl
  | append_singleton calls call ih =>
    obtain ⟨fuel, text, depth⟩ := call
    have before : s.Leads (s.Performs (calls ++ [(fuel, text, depth)])) (s.evaluateAll calls) :=
      ih.mono fun _ hr => hr.mono (List.prefix_append _ _)
    have last := Run.leads ⟨.evaluation text depth, fuel, s.evaluateAll calls⟩
    rw [evaluateAll_append_singleton]
    exact before.trans (last.mono fun r hc => ⟨calls, fuel, text, depth, List.prefix_refl _, hc⟩)

theorem Performs.leads {calls : List (Nat × Text × Nat)} {r : Run} (h : s.Performs calls r) :
    s.Leads (s.Performs calls) r.start := by
  obtain ⟨done, fuel, text, depth, hd, hc⟩ := h
  have before : s.Leads (s.Performs calls) (s.evaluateAll done) :=
    (s.leads_evaluateAll done).mono fun _ hr => hr.mono ((List.prefix_append _ _).trans hd)
  exact before.trans (hc.leads.mono fun _ hr => ⟨done, fuel, text, depth, hd, hr⟩)

end Session

/-- Whatever texts a session evaluates after its creation, and whether they succeed or fail, the
builtin layer binds its four names, in their order, to the objects that it bound them to at first.
The names that were bound persistently before an evaluation lead the list of those bound after it.
In an evaluation, which goes by steps of the runs inside it, no step but an assignment touches the
persistent layer, and such a step binds the name it assigns to, in its place if it has one. So a
name that is bound to something else afterwards was assigned to in between. -/
theorem binding_layers_kept (store : Store) (calls : List (Nat × Text × Nat)) :
    let created := Session.new store
    let s := created.evaluateAll calls
    s.scopes.builtin.names = [Native.noneName, Native.add.name, Native.sub.name, Native.inc.name] ∧
    s.scopes.builtin = created.scopes.builtin ∧
    ∀ fuel text depth,
      let whole : Run := ⟨.evaluation text depth, fuel, s⟩
      let t := (evaluate fuel text depth s).session
      s.scopes.persistent.names <+: t.scopes.persistent.names ∧
      s.Leads whole.Contains t ∧
      (∀ r u v, s.Leads whole.Contains u → whole.Contains r → r.Own u v →
        v.scopes.builtin = u.scopes.builtin ∧
        (v.scopes.persistent = u.scopes.persistent ∨
          ∃ name value, r.Assigns name value u v ∧
            v.scopes.persistent = u.scopes.persistent.insert name value)) ∧
      ∀ name, t.scopes.persistent.get? name ≠ s.scopes.persistent.get? name →
        Session.AssignedBetween whole.Contains name s t := by
  intro created s
  have hb : s.scopes.builtin = created.scopes.builtin :=
    (created.leads_evaluateAll calls).builtin_eq
  refine ⟨by rw [hb]; rfl, hb, fun fuel text depth => ?_⟩
  intro whole t
  have hl : s.Leads whole.Contains t := whole.leads
  exact ⟨hl.persistent_names, hl, fun r u v _ _ ho => ⟨ho.builtin_eq, ho.persistent_cases⟩,
    fun name hn => hl.assignedBetween hn⟩

theorem binding_layers_kept_failing :
    let s := (Session.new {}).evaluateAll [(4, "a <- 1".toList, 0)]
    let t := (evaluate 4 "b <- 3; a <- 2; c".toList 0 s).session
    (evaluate 4 "b <- 3; a <- 2; c".toList 0 s).failure? = some (.fault (.unboundName ['c'])) ∧
    s.scopes.persistent.names = [['a']] ∧ t.scopes.persistent.names = [['a'], ['b']] ∧
    s.scopes.persistent.names <+: t.scopes.persistent.names ∧
    Session.AssignedBetween (Run.Contains ⟨.evaluation "b <- 3; a <- 2; c".toList 0, 4, s⟩) ['a']
      s t := by
  obtain ⟨-, -, h⟩ := binding_layers_kept {} [(4, "a <- 1".toList, 0)]
  obtain ⟨hnames, -, -, hassigned⟩ := h 4 "b <- 3; a <- 2; c".toList 0
  refine ⟨by decide +kernel, by decide +kernel, by decide +kernel, hnames, hassigned ['a'] ?_⟩
  decide +kernel

end LineScript
