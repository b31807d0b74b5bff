import LineScript.Proofs.Comparison.Objects
import LineScript.Proofs.Evaluation.Lifting

namespace LineScript

variable {pairs : Ref → Ref → Prop}

structure Scopes.Agree (pairs : Ref → Ref → Prop) (scopes scopes' : Scopes) : Prop where
  temporary : scopes.temporary.Paired pairs scopes'.temporary
  persistent : scopes.persistent.Paired pairs scopes'.persistent
  builtin : scopes.builtin.Paired pairs scopes'.builtin

namespace Scopes.Agree

variable {scopes scopes' : Scopes} {value value' : Ref}

theorem lookup? (h : Agree pairs scopes scopes') (name : Text) :
    Option.Rel pairs (scopes.lookup? name) (scopes'.lookup? name) := by
  have orElse {x y x' y' : Option Ref} (hx : Option.Rel pairs x x') (hy : Option.Rel pairs y y') :
      Option.Rel pairs (x <|> y) (x' <|> y') := by
    cases hx with
    | some hp => exact .some hp
    | none => exact hy
  exact orElse (h.temporary.get? name)
    (orElse (h.persistent.get? name) (h.builtin.get? name))

theorem assign (h : Agree pairs scopes scopes') (name : Text) (hv : pairs value value') :
    Agree pairs (scopes.assign name value) (scopes'.assign name value') :=
  ⟨h.temporary, h.persistent.insert name hv, h.builtin⟩

theorem bindTemporary (h : Agree pairs scopes scopes') (name : Text) (hv : pairs value value') :
    Agree pairs (scopes.bindTemporary name value) (scopes'.bindTemporary name value') :=
  ⟨h.temporary.insert name hv, h.persistent, h.builtin⟩

theorem bindAll {bound bound' : List (Text × Ref)} (h : Agree pairs scopes scopes')
    (hb : Bindings.Paired pairs bound bound') :
    Agree pairs (scopes.bindAll bound) (scopes'.bindAll bound') := by
  induction hb generalizing scopes scopes' with
  | nil => exact h
  | @cons entry other _ _ he _ ih =>
    obtain ⟨name, ref⟩ := entry
    obtain ⟨name', ref'⟩ := other
    obtain ⟨rfl, hp⟩ := he
    exact ih (h.bindTemporary name hp)

theorem clearTemporary (h : Agree pairs scopes scopes') :
    Agree pairs scopes.clearTemporary scopes'.clearTemporary :=
  ⟨.nil, h.persistent, h.builtin⟩

end Scopes.Agree

theorem Bindings.Paired.zip {values values' : List Ref} (h : List.Forall₂ pairs values values')
    (names : List Text) : Bindings.Paired pairs (names.zip values) (names.zip values') := by
  induction h generalizing names with
  | nil => simp [Bindings.Paired]
  | cons hp _ ih =>
    cases names with
    | nil => exact .nil
    | cons name names => exact .cons ⟨rfl, hp⟩ (ih names)

/-- The two sessions differ in nothing but the numbers of their objects: what is bound to a name in
one is paired with what is bound to it in the other, and paired objects have the same kind and the
same fields, bound to paired objects. -/
structure Session.Agree (pairs : Ref → Ref → Prop) (s t : Session) : Prop where
  store : Store.Agree pairs s.store t.store
  scopes : Scopes.Agree pairs s.scopes t.scopes
  tracing_eq : s.tracing = t.tracing
  literals_eq : s.literals = t.literals
  log_eq : s.log = t.log

namespace Session.Agree

variable {s t : Session}

theorem describeLayer_eq (h : Agree pairs s t) {layer layer' : Bindings Ref}
    (hl : layer.Paired pairs layer') : s.describeLayer layer = t.describeLayer layer' :=
  hl.flatMap_eq fun name a b hp => by simp only [h.store.typeName_eq hp, h.store.text_eq hp]

theorem describeScopes_eq (h : Agree pairs s t) : s.describeScopes = t.describeScopes := by
  rw [describeScopes, describeScopes, h.describeLayer_eq h.scopes.persistent,
    h.describeLayer_eq h.scopes.temporary, h.describeLayer_eq h.scopes.builtin]

/-- The number is all that tells paired objects from each other. -/
theorem describeObject_eq (h : Agree pairs s t) {ref : Ref} (hp : pairs ref ref) (title : Text) :
    s.describeObject title ref = t.describeObject title ref := by
  rw [describeObject, describeObject, h.store.typeName_eq hp, h.store.text_eq hp]
  congr 1
  exact (h.store.fields hp).flatMap_eq fun name a b hv => by
    simp only [h.store.typeName_eq hv, h.store.text_eq hv]

end Session.Agree

namespace Comparison

structure SessionsAgree (c : Comparison) (s t : Session) : Prop where
  stores : c.StoresAgree s.store t.store
  scopes : Scopes.Agree c.pairs s.scopes t.scopes
  tracing_eq : s.tracing = t.tracing
  literals_eq : s.literals = t.literals
  log_eq : s.log = t.log

namespace SessionsAgree

variable {c : Comparison} {s t : Session} {a b a' b' : Ref}

theorem agree (h : c.SessionsAgree s t) : Session.Agree c.pairs s t :=
  ⟨h.stores.agree, h.scopes, h.tracing_eq, h.literals_eq, h.log_eq⟩

theorem record (h : c.SessionsAgree s t) (e : Event) :
    c.SessionsAgree (s.record e) (t.record e) :=
  ⟨h.stores, h.scopes, h.tracing_eq, h.literals_eq, congrArg (e :: ·) h.log_eq⟩

theorem trace (h : c.SessionsAgree s t) (on : Bool) :
    c.SessionsAgree { s with tracing := on } { t with tracing := on } :=
  ⟨h.stores, h.scopes, rfl, h.literals_eq, h.log_eq⟩

theorem onStore (h : c.SessionsAgree s t) {store store' : Store}
    (hs : c.StoresAgree store store') :
    c.SessionsAgree { s with store } { t with store := store' } :=
  ⟨hs, h.scopes, h.tracing_eq, h.literals_eq, h.log_eq⟩

theorem onScopes (h : c.SessionsAgree s t) {scopes scopes' : Scopes}
    (hs : Scopes.Agree c.pairs scopes scopes') :
    c.SessionsAgree { s with scopes } { t with scopes := scopes' } :=
  ⟨h.stores, hs, h.tracing_eq, h.literals_eq, h.log_eq⟩

theorem endCall (h : c.SessionsAgree s t) :
    c.SessionsAgree (LineScript.endCall s) (LineScript.endCall t) := by
  have hl : s.scopes.temporary.length = t.scopes.temporary.length := h.scopes.temporary.length_eq
  rw [LineScript.endCall, LineScript.endCall, hl]
  exact (h.record _).onScopes h.scopes.clearTemporary

theorem withLiteral (h : c.SessionsAgree s t) (literal : Text) :
    c.SessionsAgree (s.withLiteral literal) (t.withLiteral literal) := by
  obtain ⟨hp, hs⟩ := h.stores.alloc (.of_kind (.string literal)) nofun
  refine ⟨hs, ?_, h.tracing_eq, congrArg (· + 1) h.literals_eq, h.log_eq⟩
  change Scopes.Agree c.pairs (s.scopes.bindTemporary (Session.literalName (s.literals + 1)) _)
    (t.scopes.bindTemporary (Session.literalName (t.literals + 1)) _)
  rw [← h.literals_eq]
  exact h.scopes.bindTemporary _ hp

theorem withLiterals (h : c.SessionsAgree s t) (literals : List Text) :
    c.SessionsAgree (s.withLiterals literals) (t.withLiterals literals) := by
  induction literals generalizing s t with
  | nil => exact h
  | cons literal literals ih => exact ih (h.withLiteral literal)

theorem new {store store' : Store} (h : c.StoresAgree store store') :
    c.SessionsAgree (Session.new store) (Session.new store') := by
  obtain ⟨hnone, h⟩ := h.alloc (.of_kind .nothing) nofun
  obtain ⟨hadd, h⟩ := h.allocCallable Native.add.params (.native .add) nofun
  obtain ⟨hsub, h⟩ := h.allocCallable Native.sub.params (.native .sub) nofun
  obtain ⟨hinc, h⟩ := h.allocCallable Native.inc.params (.native .inc) nofun
  refine ⟨h, ⟨.nil, .nil, ?_⟩, rfl, rfl, rfl⟩
  exact .cons ⟨rfl, hnone⟩ (.cons ⟨rfl, hadd⟩ (.cons ⟨rfl, hsub⟩ (.cons ⟨rfl, hinc⟩ .nil)))

end SessionsAgree

end Comparison

end LineScript
