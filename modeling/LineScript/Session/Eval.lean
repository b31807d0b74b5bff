import LineScript.Session.Basic
import LineScript.Fault

namespace LineScript

/-- The end of a computation on a session: a value, a failure, or no answer because the nesting it
was allowed is used up. -/
inductive Outcome (α : Type) where
  | value (a : α) (session : Session)
  | failure (why : Failure) (session : Session)
  | exhausted (session : Session)

namespace Outcome

variable {α : Type}

def session : Outcome α → Session
  | value _ s | failure _ s | exhausted s => s

def mapSession (f : Session → Session) : Outcome α → Outcome α
  | value a s => value a (f s)
  | failure why s => failure why (f s)
  | exhausted s => exhausted (f s)

theorem mapSession_id (o : Outcome α) : o.mapSession id = o := by
  cases o <;> rfl

theorem session_mapSession (o : Outcome α) (f : Session → Session) :
    (o.mapSession f).session = f o.session := by
  cases o <;> rfl

end Outcome

def Eval (α : Type) := Session → Outcome α

namespace Eval

variable {α β : Type}

protected def pure (a : α) : Eval α :=
  fun s => .value a s

protected def bind (m : Eval α) (f : α → Eval β) : Eval β := fun s =>
  match m s with
  | .value a s => f a s
  | .failure why s => .failure why s
  | .exhausted s => .exhausted s

instance : Monad Eval where
  pure := Eval.pure
  bind := Eval.bind

theorem pure_apply (a : α) (s : Session) : (pure a : Eval α) s = .value a s := rfl

theorem bind_apply (m : Eval α) (f : α → Eval β) (s : Session) :
    (m >>= f) s =
      match m s with
      | .value a s => f a s
      | .failure why s => .failure why s
      | .exhausted s => .exhausted s := rfl

instance : LawfulMonad Eval := LawfulMonad.mk' Eval
  (fun m => by
    funext s
    change Eval.bind m Eval.pure s = m s
    unfold Eval.bind Eval.pure
    cases m s <;> rfl)
  (fun _ _ => rfl)
  (fun m f g => by
    funext s
    change Eval.bind (Eval.bind m f) g s = Eval.bind m (fun a => Eval.bind (f a) g) s
    unfold Eval.bind
    cases m s <;> rfl)

def look (f : Session → α) : Eval α :=
  fun s => .value (f s) s

def change (f : Session → Session) : Eval Unit :=
  fun s => .value () (f s)

def record (event : Event) : Eval Unit :=
  change fun s => s.record event

def fail (why : Failure) : Eval α :=
  fun s => .failure why s

def fault (cause : Fault) : Eval α :=
  fail (.fault cause)

def exhausted : Eval α :=
  fun s => .exhausted s

/-- Changes the session behind a computation, however that has ended. -/
def afterwards (m : Eval α) (f : Session → Session) : Eval α :=
  fun s => (m s).mapSession f

def onStore (f : Store → Ref × Store) : Eval Ref := fun s =>
  let (ref, store) := f s.store
  .value ref { s with store }

def create (kind : Kind) : Eval Ref :=
  onStore fun store => store.alloc ⟨kind, []⟩

def resolve (name : Text) : Eval Ref := do
  match ← look fun s => s.scopes.lookup? name with
  | some ref => pure ref
  | none => fault (.unboundName name)

theorem bind_of_value {m : Eval α} {a : α} {s t : Session} (h : m s = .value a t)
    (f : α → Eval β) : (m >>= f) s = f a t := by
  rw [bind_apply, h]

theorem bind_of_failure {m : Eval α} {why : Failure} {s t : Session} (h : m s = .failure why t)
    (f : α → Eval β) : (m >>= f) s = .failure why t := by
  rw [bind_apply, h]

theorem exists_of_bind_eq_value {m : Eval α} {f : α → Eval β} {b : β} {s u : Session}
    (h : (m >>= f) s = .value b u) : ∃ a t, m s = .value a t ∧ f a t = .value b u := by
  rw [bind_apply] at h
  cases hm : m s with
  | value a t =>
    rw [hm] at h
    exact ⟨a, t, rfl, h⟩
  | _ =>
    rw [hm] at h
    cases h

theorem look_apply (f : Session → α) (s : Session) : look f s = .value (f s) s := rfl

theorem change_bind_apply (f : Session → Session) (next : Unit → Eval α) (s : Session) :
    (change f >>= next) s = next () (f s) := rfl

theorem afterwards_apply (m : Eval α) (f : Session → Session) (s : Session) :
    m.afterwards f s = (m s).mapSession f := rfl

theorem resolve_apply (name : Text) (s : Session) :
    resolve name s =
      match s.scopes.lookup? name with
      | some ref => .value ref s
      | none => .failure (.fault (.unboundName name)) s := by
  change (match s.scopes.lookup? name with
    | some ref => pure ref
    | none => fault (.unboundName name) : Eval Ref) s = _
  cases s.scopes.lookup? name <;> rfl

theorem resolve_of_lookup? {name : Text} {ref : Ref} {s : Session}
    (h : s.scopes.lookup? name = some ref) : resolve name s = .value ref s := by
  rw [resolve_apply, h]

theorem lookup?_of_resolve {name : Text} {ref : Ref} {s t : Session}
    (h : resolve name s = .value ref t) : s.scopes.lookup? name = some ref ∧ t = s := by
  rw [resolve_apply] at h
  cases hl : s.scopes.lookup? name with
  | none =>
    rw [hl] at h
    cases h
  | some found =>
    rw [hl] at h
    cases h
    exact ⟨rfl, rfl⟩

end Eval

end LineScript
