import Mathlib.Logic.Relation
import LineScript.Proofs.Evaluation.Lifting
import LineScript.Proofs.Object.Extends
import LineScript.Proofs.Statement.Inner

namespace LineScript

variable {α β : Type} {P : Text → Prop}

def Kind.IsData : Kind → Prop
  | callable _ | parameterNames _ => False
  | _ => True

def Store.Bodies (P : Text → Prop) (store : Store) : Prop :=
  ∀ ref body, store.kind ref = .callable (.block body) → P body

/-- What evaluation can do to a session at once. All texts that are evaluated have the property, and
so have the bodies of the blocks that are made. -/
inductive Change (P : Text → Prop) : Session → Session → Prop where
  | evaluating {s : Session} (depth : Nat) {text : Text} :
    P text → Change P s (s.record (.evaluating s.tracing depth text))
  | classified {s : Session} (statement : Statement) : Change P s (s.record (.classified statement))
  | directive {s : Session} (name rest : Text) : Change P s (s.record (.directive name rest))
  | literal {s : Session} {text literal after : Text} :
    P text → (literal, after) ∈ (Text.literals text).quoted → Change P s (s.withLiteral literal)
  | create {s : Session} {kind : Kind} :
    kind.IsData → Change P s { s with store := (s.store.alloc ⟨kind, []⟩).2 }
  | copy {s : Session} (ref : Ref) : Change P s { s with store := (s.store.copy ref).2 }
  | block {s : Session} (params : List Text) {body : Text} :
    P body → Change P s { s with store := (s.store.allocCallable params (.block body)).2 }
  | assign {s : Session} (name : Text) (value : Ref) : Change P s (s.assign name value)
  | setField {s : Session} (ref : Ref) (name : Text) (value : Ref) :
    Change P s (s.setField ref name value)
  | bindAll {s : Session} (bound : List (Text × Ref)) : Change P s (s.bindAll bound)
  | endCall {s : Session} : Change P s (endCall s)
  | trace {s : Session} (on : Bool) : Change P s { s with tracing := on }

theorem Store.Bodies.alloc {store : Store} (h : store.Bodies P) {o : Object}
    (ho : ∀ body, o.kind = .callable (.block body) → P body) : (store.alloc o).2.Bodies P := by
  intro ref body hk
  obtain he | he := store.kind_alloc o ref
  · exact ho body (he.symm.trans hk)
  · exact h ref body (he.symm.trans hk)

theorem Store.Bodies.setField {store : Store} (h : store.Bodies P) (ref : Ref) (name : Text)
    (value : Ref) : (store.setField ref name value).Bodies P := by
  intro other body hk
  rw [kind_setField] at hk
  exact h other body hk

theorem Store.Bodies.allocCallable {store : Store} (h : store.Bodies P) (params : List Text)
    (code : Callable) (hc : ∀ body, code = .block body → P body) :
    (store.allocCallable params code).2.Bodies P := by
  have ho := h.alloc (o := ⟨.callable code, []⟩) fun body he => hc body (Kind.callable.inj he)
  exact (ho.alloc (by simp)).setField _ _ _

theorem Change.bodies {s t : Session} (h : Change P s t) (hs : s.store.Bodies P) :
    t.store.Bodies P := by
  cases h with
  | evaluating | classified | directive | assign | bindAll | endCall | trace => exact hs
  | literal => exact hs.alloc (by simp)
  | @create kind hk =>
    refine hs.alloc fun body he => ?_
    have he : kind = .callable (.block body) := he
    rw [he] at hk
    exact hk.elim
  | copy ref => exact hs.alloc fun body he => hs ref body he
  | block params hb => exact hs.allocCallable params _ fun body he => by cases he; exact hb
  | setField ref name value => exact hs.setField ref name value

def Changes (P : Text → Prop) : Session → Session → Prop :=
  Relation.ReflTransGen (Change P)

theorem Changes.bodies {s t : Session} (h : Changes P s t) (hs : s.store.Bodies P) :
    t.store.Bodies P := by
  induction h with
  | refl => exact hs
  | tail _ hc ih => exact hc.bodies ih

/-- An evaluation went from `s` by changes to this outcome, and if it failed for unbalanced quotes
then in a text that has some. -/
structure Outcome.Course (P : Text → Prop) (s : Session) (o : Outcome α) : Prop where
  changes : Changes P s o.session
  unbalanced {t : Session} : o = .failure (.fault .unbalancedQuotes) t →
    ∃ text, P text ∧ (Text.literals text).closed = false

namespace Eval

def Course (P : Text → Prop) (m : Eval α) : Prop :=
  ∀ s, s.store.Bodies P → (m s).Course P s

namespace Course

theorem pure (a : α) : Course P (Pure.pure a) :=
  fun _ _ => ⟨.refl, nofun⟩

theorem look (f : Session → α) : Course P (look f) :=
  fun _ _ => ⟨.refl, nofun⟩

theorem exhausted : Course P (exhausted : Eval α) :=
  fun _ _ => ⟨.refl, nofun⟩

theorem fail {why : Failure} (h : why ≠ .fault .unbalancedQuotes) :
    Course P (fail why : Eval α) :=
  fun _ _ => ⟨.refl, fun he => absurd (Outcome.failure.inj he).1 h⟩

theorem fault {cause : Fault} (h : cause ≠ .unbalancedQuotes) : Course P (fault cause : Eval α) :=
  fail fun he => h (Failure.fault.inj he)

theorem change {f : Session → Session} (h : ∀ s, Change P s (f s)) : Course P (change f) :=
  fun s _ => ⟨.single (h s), nofun⟩

theorem bind {m : Eval α} {f : α → Eval β} (hm : Course P m) (hf : ∀ a, Course P (f a)) :
    Course P (m >>= f) := by
  intro s hs
  rw [bind_apply]
  have h := hm s hs
  cases ho : m s with
  | value a t =>
    rw [ho] at h
    have ht := hf a t (h.changes.bodies hs)
    exact ⟨h.changes.trans ht.changes, ht.unbalanced⟩
  | failure why t =>
    rw [ho] at h
    exact ⟨h.changes, fun he => h.unbalanced (by cases he; rfl)⟩
  | exhausted t =>
    rw [ho] at h
    exact ⟨h.changes, nofun⟩

theorem look_bind {f : Session → α} {g : α → Eval β}
    (h : ∀ s, s.store.Bodies P → Course P (g (f s))) : Course P (Eval.look f >>= g) :=
  fun s hs => h s hs s hs

theorem afterwards {m : Eval α} {f : Session → Session} (hm : Course P m)
    (hf : ∀ s, Change P s (f s)) : Course P (m.afterwards f) := by
  intro s hs
  rw [afterwards_apply]
  have h := hm s hs
  cases ho : m s with
  | value a t =>
    rw [ho] at h
    exact ⟨h.changes.tail (hf t), nofun⟩
  | failure why t =>
    rw [ho] at h
    exact ⟨h.changes.tail (hf t), fun he => h.unbalanced (by cases he; rfl)⟩
  | exhausted t =>
    rw [ho] at h
    exact ⟨h.changes.tail (hf t), nofun⟩

theorem mapM {f : α → Eval β} {xs : List α} (h : ∀ x ∈ xs, Course P (f x)) :
    Course P (xs.mapM f) := by
  induction xs with
  | nil => exact pure []
  | cons x xs ih =>
    rw [List.mapM_cons]
    have hxs := ih fun y hy => h y (List.mem_cons_of_mem x hy)
    exact bind (h x List.mem_cons_self) fun _ => bind hxs fun _ => pure _

theorem foldlM {f : β → α → Eval β} {xs : List α} (h : ∀ b, ∀ x ∈ xs, Course P (f b x))
    (start : β) : Course P (xs.foldlM f start) := by
  induction xs generalizing start with
  | nil => exact pure start
  | cons x xs ih =>
    rw [List.foldlM_cons]
    exact bind (h start x List.mem_cons_self) fun b =>
      ih (fun b y hy => h b y (List.mem_cons_of_mem x hy)) b

theorem create {kind : Kind} (h : kind.IsData) : Course P (create kind) :=
  fun _ _ => ⟨.single (.create h), nofun⟩

theorem resolve (name : Text) : Course P (resolve name) := by
  refine bind (look _) fun found => ?_
  cases found with
  | none => exact fault nofun
  | some ref => exact pure ref

end Course

end Eval

end LineScript
