import LineScript.Evaluation

namespace LineScript

variable {α β : Type} {related : Session → Session → Prop}

inductive Outcome.Alike (related : Session → Session → Prop) : Outcome α → Outcome α → Prop where
  | value (a : α) {s t : Session} : related s t → Alike related (.value a s) (.value a t)
  | failure (why : Failure) {s t : Session} :
    related s t → Alike related (.failure why s) (.failure why t)
  | exhausted {s t : Session} : related s t → Alike related (.exhausted s) (.exhausted t)

theorem Outcome.Alike.mapSession {f f' : Session → Session} {o o' : Outcome α}
    (h : o.Alike related o') (hf : ∀ ⦃s t⦄, related s t → related (f s) (f' t)) :
    (o.mapSession f).Alike related (o'.mapSession f') := by
  cases h with
  | value a hu => exact .value a (hf hu)
  | failure why hu => exact .failure why (hf hu)
  | exhausted hu => exact .exhausted (hf hu)

theorem Outcome.Alike.session {o o' : Outcome α} (h : o.Alike related o') :
    related o.session o'.session := by
  cases h <;> assumption

def Eval.Alike (related : Session → Session → Prop) (m m' : Eval α) : Prop :=
  ∀ ⦃s t : Session⦄, related s t → (m s).Alike related (m' t)

/-- Relations of sessions that have their objects, bindings and literal count in common, and that
stay related whatever both do alike. -/
structure Unseen (related : Session → Session → Prop) : Prop where
  store_eq {s t : Session} : related s t → s.store = t.store
  scopes_eq {s t : Session} : related s t → s.scopes = t.scopes
  literals_eq {s t : Session} : related s t → s.literals = t.literals
  record {s t : Session} (e e' : Event) : related s t → related (s.record e) (t.record e')
  tracing {s t : Session} (b : Bool) :
    related s t → related { s with tracing := b } { t with tracing := b }
  hold {s t : Session} (store : Store) (scopes : Scopes) (literals : Nat) :
    related s t → related { s with store, scopes, literals } { t with store, scopes, literals }

namespace Eval.Alike

theorem pure (a : α) : Alike related (Pure.pure a) (Pure.pure a) :=
  fun _ _ h => .value a h

theorem fail (why : Failure) : Alike related (fail why : Eval α) (fail why) :=
  fun _ _ h => .failure why h

theorem fault (cause : Fault) : Alike related (fault cause : Eval α) (fault cause) :=
  fail (.fault cause)

theorem look {f : Session → α} (hf : ∀ ⦃s t⦄, related s t → f s = f t) :
    Alike related (look f) (look f) := by
  intro s t h
  rw [look_apply, look_apply, hf h]
  exact .value _ h

theorem change {f f' : Session → Session} (hf : ∀ ⦃s t⦄, related s t → related (f s) (f' t)) :
    Alike related (change f) (change f') :=
  fun _ _ h => .value () (hf h)

theorem bind {m m' : Eval α} {f f' : α → Eval β} (hm : Alike related m m')
    (hf : ∀ a, Alike related (f a) (f' a)) : Alike related (m >>= f) (m' >>= f') := by
  intro s t h
  rw [bind_apply, bind_apply]
  have h := hm h
  generalize m s = o at h
  generalize m' t = o' at h
  cases h with
  | value a hu => exact hf a hu
  | failure why hu => exact .failure why hu
  | exhausted hu => exact .exhausted hu

theorem afterwards {m m' : Eval α} {f f' : Session → Session} (hm : Alike related m m')
    (hf : ∀ ⦃s t⦄, related s t → related (f s) (f' t)) :
    Alike related (m.afterwards f) (m'.afterwards f') :=
  fun _ _ h => (hm h).mapSession hf

theorem mapM {f f' : α → Eval β} (hf : ∀ x, Alike related (f x) (f' x)) (xs : List α) :
    Alike related (xs.mapM f) (xs.mapM f') := by
  induction xs with
  | nil => exact pure []
  | cons x xs ih =>
    rw [List.mapM_cons, List.mapM_cons]
    exact bind (hf x) fun _ => bind ih fun _ => pure _

theorem foldlM {f f' : β → α → Eval β} (hf : ∀ b x, Alike related (f b x) (f' b x))
    (start : β) (xs : List α) : Alike related (xs.foldlM f start) (xs.foldlM f' start) := by
  induction xs generalizing start with
  | nil => exact pure start
  | cons x xs ih =>
    rw [List.foldlM_cons, List.foldlM_cons]
    exact bind (hf start x) fun b => ih b

end Eval.Alike

namespace Unseen

open Eval

variable (unseen : Unseen related)
include unseen

theorem seeing (f : Store → Scopes → Nat → α × Store × Scopes × Nat) :
    Alike related
      (fun s => match f s.store s.scopes s.literals with
        | (a, store, scopes, literals) => .value a { s with store, scopes, literals })
      (fun s => match f s.store s.scopes s.literals with
        | (a, store, scopes, literals) => .value a { s with store, scopes, literals }) := by
  intro s t h
  simp only [unseen.store_eq h, unseen.scopes_eq h, unseen.literals_eq h]
  exact .value _ (unseen.hold _ _ _ h)

theorem onStore (f : Store → Ref × Store) : Alike related (onStore f) (onStore f) :=
  unseen.seeing fun store scopes literals => ((f store).1, (f store).2, scopes, literals)

theorem create (kind : Kind) : Alike related (create kind) (create kind) :=
  unseen.onStore _

theorem assign (name : Text) (value : Ref) :
    Alike related (change fun s => s.assign name value) (change fun s => s.assign name value) :=
  unseen.seeing fun store scopes literals => ((), store, scopes.assign name value, literals)

theorem setField (ref : Ref) (name : Text) (value : Ref) :
    Alike related (change fun s => s.setField ref name value)
      (change fun s => s.setField ref name value) :=
  unseen.seeing fun store scopes literals => ((), store.setField ref name value, scopes, literals)

theorem bindAll (bound : List (Text × Ref)) :
    Alike related (change fun s => s.bindAll bound) (change fun s => s.bindAll bound) :=
  unseen.seeing fun store scopes literals => ((), store, scopes.bindAll bound, literals)

theorem clearTemporary {s t : Session} (h : related s t) :
    related s.clearTemporary t.clearTemporary := by
  have hc := unseen.hold s.store s.scopes.clearTemporary s.literals h
  simpa only [Session.clearTemporary, unseen.store_eq h, unseen.scopes_eq h,
    unseen.literals_eq h] using hc

theorem bindLiteral (literal : Text) :
    Alike related (LineScript.bindLiteral literal) (LineScript.bindLiteral literal) :=
  unseen.seeing fun store scopes literals =>
    let name := Session.literalName (literals + 1)
    let made := store.alloc ⟨.string literal, []⟩
    (name, made.2, scopes.bindTemporary name made.1, literals + 1)

theorem look {f : Session → α} (hf : ∀ s, f s = f { s with tracing := false, log := [] }) :
    Alike related (look f) (look f) := by
  refine .look fun s t h => ?_
  rw [hf s, hf t, unseen.store_eq h, unseen.scopes_eq h, unseen.literals_eq h]

theorem resolve (name : Text) : Alike related (resolve name) (resolve name) := by
  refine .bind (unseen.look fun _ => rfl) fun found => ?_
  cases found with
  | none => exact .fault _
  | some ref => exact .pure ref

end Unseen

end LineScript
