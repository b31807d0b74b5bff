import LineScript.Proofs.Comparison.Sessions
import LineScript.Proofs.Evaluation.LiftedOnce

namespace LineScript

variable {α β γ δ ι : Type} {c : Comparison} {V : α → β → Prop} {W : γ → δ → Prop}

def Event.Inspects : Event → Prop
  | directive name _ => Directive.table.lookup name = some .inspect
  | _ => False

instance : DecidablePred Event.Inspects := fun e =>
  match e with
  | .directive name _ => inferInstanceAs (Decidable (Directive.table.lookup name = some .inspect))
  | .evaluating .. | .classified _ | .clearing _ | .failed .. => isFalse id

def Session.Inspected (s : Session) : Prop :=
  ∃ e ∈ s.log, e.Inspects

instance (s : Session) : Decidable s.Inspected :=
  inferInstanceAs (Decidable (∃ e ∈ s.log, e.Inspects))

theorem Session.Inspected.mono {s t : Session} (h : s.Inspected) (hl : s.log ⊆ t.log) :
    t.Inspected := by
  obtain ⟨e, hm, he⟩ := h
  exact ⟨e, hl hm, he⟩

def Comparison.Diagonal (c : Comparison) : Prop :=
  ∀ ⦃a b⦄, c.pairs a b → a = b

namespace Outcome

inductive InStep (c : Comparison) (V : α → β → Prop) : Outcome α → Outcome β → Prop where
  | value {a : α} {b : β} {s t : Session} :
    V a b → c.SessionsAgree s t → InStep c V (.value a s) (.value b t)
  | failure (why : Failure) {s t : Session} :
    c.SessionsAgree s t → InStep c V (.failure why s) (.failure why t)
  | exhausted {s t : Session} :
    c.Exhaustible → c.SessionsAgree s t → InStep c V (.exhausted s) (.exhausted t)

/-- In step, unless a number was shown that may be another one on the other side. -/
def Follows (c : Comparison) (V : α → β → Prop) (o : Outcome α) (o' : Outcome β) : Prop :=
  o.InStep c V o' ∨ ¬c.Diagonal ∧ o.session.Inspected

variable {o : Outcome α} {o' : Outcome β}

theorem InStep.mapSession {f f' : Session → Session} (h : o.InStep c V o')
    (hf : ∀ ⦃s t⦄, c.SessionsAgree s t → c.SessionsAgree (f s) (f' t)) :
    (o.mapSession f).InStep c V (o'.mapSession f') := by
  cases h with
  | value hv hs => exact .value hv (hf hs)
  | failure why hs => exact .failure why (hf hs)
  | exhausted he hs => exact .exhausted he (hf hs)

theorem Follows.mapSession {f f' : Session → Session} (h : o.Follows c V o')
    (hf : ∀ ⦃s t⦄, c.SessionsAgree s t → c.SessionsAgree (f s) (f' t))
    (hl : ∀ s, s.log ⊆ (f s).log) : (o.mapSession f).Follows c V (o'.mapSession f') := by
  obtain h | ⟨hd, hi⟩ := h
  · exact .inl (h.mapSession hf)
  · refine .inr ⟨hd, ?_⟩
    rw [session_mapSession]
    exact hi.mono (hl _)

end Outcome

namespace Eval

def InStep (c : Comparison) (V : α → β → Prop) (m : Eval α) (m' : Eval β) : Prop :=
  ∀ ⦃s t⦄, c.SessionsAgree s t → (m s).InStep c V (m' t)

def Follows (c : Comparison) (V : α → β → Prop) (m : Eval α) (m' : Eval β) : Prop :=
  ∀ ⦃s t⦄, c.SessionsAgree s t → (m s).Follows c V (m' t)

abbrev KeepsLog (m : Eval α) : Prop :=
  Course (fun _ => True) m

theorem KeepsLog.log {m : Eval α} (h : KeepsLog m) (s : Session) : s.log ⊆ (m s).session.log := by
  obtain ⟨events, he, -⟩ := (h s fun _ _ _ => trivial).changes.log
  rw [he]
  exact List.subset_append_right _ _

variable {m : Eval α} {m' : Eval β} {f : α → Eval γ} {f' : β → Eval δ}

/-- Once the first parts are in step, the wholes are related by whatever takes in the outcomes that
are in step and relates what the values lead to. -/
theorem bind_of_inStep {R : Outcome γ → Outcome δ → Prop} {s t : Session}
    (h : (m s).InStep c V (m' t)) (stopped : ∀ ⦃o o'⦄, o.InStep c W o' → R o o')
    (next : ∀ ⦃a b⦄, V a b → ∀ ⦃u v⦄, c.SessionsAgree u v → R (f a u) (f' b v)) :
    R ((m >>= f) s) ((m' >>= f') t) := by
  rw [bind_apply, bind_apply]
  generalize m s = o at h
  generalize m' t = o' at h
  cases h with
  | value hv hu => exact next hv hu
  | failure why hu => exact stopped (.failure why hu)
  | exhausted he hu => exact stopped (.exhausted he hu)

namespace InStep

theorem pure {a : α} {b : β} (h : V a b) : InStep c V (Pure.pure a) (Pure.pure b) :=
  fun _ _ hs => .value h hs

theorem fail (why : Failure) : InStep c V (fail why) (fail why) :=
  fun _ _ hs => .failure why hs

theorem fault (cause : Fault) : InStep c V (fault cause) (fault cause) :=
  fail (.fault cause)

theorem look {g : Session → α} {g' : Session → β}
    (h : ∀ ⦃s t⦄, c.SessionsAgree s t → V (g s) (g' t)) : InStep c V (look g) (look g') :=
  fun _ _ hs => .value (h hs) hs

theorem change {g g' : Session → Session}
    (h : ∀ ⦃s t⦄, c.SessionsAgree s t → c.SessionsAgree (g s) (g' t)) :
    InStep c Eq (change g) (change g') :=
  fun _ _ hs => .value rfl (h hs)

theorem bind (hm : InStep c V m m') (hf : ∀ ⦃a b⦄, V a b → InStep c W (f a) (f' b)) :
    InStep c W (m >>= f) (m' >>= f') :=
  fun _ _ hs => bind_of_inStep (hm hs) (fun _ _ h => h) hf

theorem mapM {f : ι → Eval α} {f' : ι → Eval β} (hf : ∀ x, InStep c V (f x) (f' x))
    (xs : List ι) : InStep c (List.Forall₂ V) (xs.mapM f) (xs.mapM f') := by
  induction xs with
  | nil => exact pure .nil
  | cons x xs ih =>
    rw [List.mapM_cons, List.mapM_cons]
    exact bind (hf x) fun _ _ hv => bind ih fun _ _ hvs => pure (.cons hv hvs)

theorem onStore {g g' : Store → Ref × Store} (h : ∀ ⦃store store'⦄, c.StoresAgree store store' →
      c.pairs (g store).1 (g' store').1 ∧ c.StoresAgree (g store).2 (g' store').2) :
    InStep c c.pairs (onStore g) (onStore g') := by
  intro s t hs
  obtain ⟨hp, hstores⟩ := h hs.stores
  exact .value hp (hs.onStore hstores)

theorem create {kind : Kind} (h : kind.IsData) : InStep c c.pairs (create kind) (create kind) := by
  refine onStore fun store store' hs => hs.alloc (.of_kind kind) fun body he => ?_
  have he : kind = .callable (.block body) := he
  rw [he] at h
  exact h.elim

theorem resolve (name : Text) : InStep c c.pairs (resolve name) (resolve name) := by
  refine bind (look (V := Option.Rel c.pairs) fun _ _ hs => hs.scopes.lookup? name) ?_
  intro found found' hf
  cases hf with
  | none => exact fault _
  | some hp => exact pure hp

end InStep

namespace Follows

theorem of_inStep (h : InStep c V m m') : Follows c V m m' :=
  fun _ _ hs => .inl (h hs)

theorem behind (hm : InStep c V m m') (hf : ∀ ⦃a b⦄, V a b → Follows c W (f a) (f' b)) :
    Follows c W (m >>= f) (m' >>= f') :=
  fun _ _ hs => bind_of_inStep (hm hs) (fun _ _ h => .inl h) hf

theorem bind (hm : Follows c V m m') (hl : ∀ a, KeepsLog (f a))
    (hf : ∀ ⦃a b⦄, V a b → Follows c W (f a) (f' b)) : Follows c W (m >>= f) (m' >>= f') := by
  intro s t hs
  obtain h | ⟨hd, hi⟩ := hm hs
  · exact bind_of_inStep h (fun _ _ h => .inl h) hf
  · refine .inr ⟨hd, ?_⟩
    rw [bind_apply]
    generalize m s = o at hi
    cases o with
    | value a u => exact hi.mono ((hl a).log u)
    | _ => exact hi

theorem afterwards {g g' : Session → Session} (hm : Follows c V m m')
    (hg : ∀ ⦃s t⦄, c.SessionsAgree s t → c.SessionsAgree (g s) (g' t))
    (hl : ∀ s, s.log ⊆ (g s).log) : Follows c V (m.afterwards g) (m'.afterwards g') :=
  fun _ _ hs => (hm hs).mapSession hg hl

theorem mapM {f : ι → Eval α} {f' : ι → Eval β} {xs : List ι}
    (hf : ∀ x ∈ xs, Follows c V (f x) (f' x)) (hl : ∀ x, KeepsLog (f x)) :
    Follows c (List.Forall₂ V) (xs.mapM f) (xs.mapM f') := by
  induction xs with
  | nil => exact of_inStep (.pure .nil)
  | cons x xs ih =>
    rw [List.mapM_cons, List.mapM_cons]
    refine bind (hf x List.mem_cons_self) (fun a => ?_) fun a b hv => ?_
    · exact .bind (.mapM fun y _ => hl y) fun _ => .pure _
    · exact bind (ih fun y hy => hf y (List.mem_cons_of_mem x hy)) (fun _ => .pure _)
        fun _ _ hvs => of_inStep (.pure (.cons hv hvs))

theorem foldlM {f : α → ι → Eval α} {f' : β → ι → Eval β} {xs : List ι}
    (hf : ∀ x ∈ xs, ∀ ⦃a b⦄, V a b → Follows c V (f a x) (f' b x))
    (hl : ∀ a x, KeepsLog (f a x)) {a : α} {b : β} (hv : V a b) :
    Follows c V (xs.foldlM f a) (xs.foldlM f' b) := by
  induction xs generalizing a b with
  | nil => exact of_inStep (.pure hv)
  | cons x xs ih =>
    rw [List.foldlM_cons, List.foldlM_cons]
    refine bind (hf x List.mem_cons_self hv) (fun a => .foldlM (fun a y _ => hl a y) a) ?_
    exact fun _ _ hv => ih (fun y hy => hf y (List.mem_cons_of_mem x hy)) hv

end Follows

end Eval

end LineScript
