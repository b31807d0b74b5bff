import LineScript.Proofs.Evaluation.Lifting
import LineScript.Proofs.Object.Grows

namespace LineScript

namespace Store

def HasAll (store : Store) (bindings : Bindings Ref) : Prop :=
  ∀ entry ∈ bindings, store.Has entry.2

def Closed (store : Store) : Prop :=
  ∀ ref, store.HasAll (store.fields ref)

variable {store later : Store} {bindings : Bindings Ref} {ref value : Ref}

theorem hasAll_nil : store.HasAll [] :=
  fun _ hm => nomatch hm

theorem HasAll.insert (h : store.HasAll bindings) (hv : store.Has value) (name : Text) :
    store.HasAll (bindings.insert name value) := by
  intro entry hm
  obtain rfl | hm := Bindings.mem_insert hm
  · exact hv
  · exact h entry hm

theorem HasAll.grows (h : store.HasAll bindings) (hg : store.Grows later) : later.HasAll bindings :=
  fun entry hm => hg.has (h entry hm)

theorem HasAll.has (h : store.HasAll bindings) {name : Text}
    (hv : bindings.get? name = some value) : store.Has value :=
  h _ (Bindings.mem_of_get? hv)

theorem grows_alloc (store : Store) (o : Object) : store.Grows (store.alloc o).2 :=
  .of_extends (.alloc o)

theorem grows_allocCallable (store : Store) (params : List Text) (code : Callable) :
    store.Grows (store.allocCallable params code).2 :=
  .of_extends (.allocCallable params code)

namespace Closed

theorem empty : Closed {} :=
  fun _ => hasAll_nil

theorem alloc (h : store.Closed) {o : Object} (ho : store.HasAll o.fields) :
    (store.alloc o).2.Closed := by
  intro ref
  have hall : store.HasAll ((store.alloc o).2.fields ref) := by
    rw [fields, object_alloc_eq]
    split
    · exact ho
    · exact h ref
  exact hall.grows (store.grows_alloc o)

theorem setField (h : store.Closed) (hv : store.Has value) (ref : Ref) (name : Text) :
    (store.setField ref name value).Closed := by
  intro other
  have hall : store.HasAll ((store.setField ref name value).fields other) := by
    obtain he | ⟨-, -, he⟩ := store.fields_setField_eq ref name value other
    · rw [he]
      exact h other
    · rw [he]
      exact (h ref).insert hv name
  exact hall.grows (.setField store ref name value)

theorem allocCallable (h : store.Closed) (params : List Text) (code : Callable) :
    (store.allocCallable params code).2.Closed :=
  ((h.alloc hasAll_nil).alloc hasAll_nil).setField (has_alloc _ _) _ _

end Closed

theorem Closed.install (h : store.Closed) : (Native.install store).2.Closed :=
  install_induction (fun _ hs => hs.alloc hasAll_nil)
    (fun _ function hs => hs.allocCallable function.params _) h

theorem has_allocCallable (store : Store) (params : List Text) (code : Callable) :
    (store.allocCallable params code).2.Has (store.allocCallable params code).1 :=
  has_of_kind_ne (by rw [(isCallable_allocCallable store params code).kind]; nofun)

end Store

namespace Session

theorem hasAll_builtin_new (store : Store) :
    (Session.new store).store.HasAll (Session.new store).scopes.builtin := by
  let first := store.alloc ⟨.nothing, []⟩
  let add := first.2.allocCallable Native.add.params (.native .add)
  let sub := add.2.allocCallable Native.sub.params (.native .sub)
  let inc := sub.2.allocCallable Native.inc.params (.native .inc)
  have hinc : sub.2.Grows inc.2 := sub.2.grows_allocCallable _ _
  have hsub : add.2.Grows inc.2 := (add.2.grows_allocCallable _ _).trans hinc
  have hadd : first.2.Grows inc.2 := (first.2.grows_allocCallable _ _).trans hsub
  change inc.2.HasAll [(Native.noneName, first.1), (Native.add.name, add.1),
    (Native.sub.name, sub.1), (Native.inc.name, inc.1)]
  simp only [Store.HasAll, List.forall_mem_cons]
  exact ⟨hadd.has (store.has_alloc _), hsub.has (first.2.has_allocCallable _ _),
    hinc.has (add.2.has_allocCallable _ _), sub.2.has_allocCallable _ _, Store.hasAll_nil⟩

structure Closed (s : Session) : Prop where
  store : s.store.Closed
  temporary : s.store.HasAll s.scopes.temporary
  persistent : s.store.HasAll s.scopes.persistent
  builtin : s.store.HasAll s.scopes.builtin

namespace Closed

variable {s : Session} {name : Text} {value : Ref}

theorem has_of_lookup? (h : s.Closed) (hl : s.scopes.lookup? name = some value) :
    s.store.Has value := by
  simp only [Scopes.lookup?, Option.orElse_eq_orElse, Option.orElse_eq_or, Option.or_eq_some_iff]
    at hl
  obtain hl | ⟨-, hl | ⟨-, hl⟩⟩ := hl
  · exact h.temporary.has hl
  · exact h.persistent.has hl
  · exact h.builtin.has hl

theorem has_of_field? (h : s.Closed) {object : Ref}
    (hf : s.store.field? object name = some value) : s.store.Has value :=
  (h.store object).has hf

theorem onStore (h : s.Closed) {store : Store} (hg : s.store.Grows store) (hc : store.Closed) :
    Closed { s with store } :=
  ⟨hc, h.temporary.grows hg, h.persistent.grows hg, h.builtin.grows hg⟩

theorem create (h : s.Closed) (kind : Kind) :
    Closed { s with store := (s.store.alloc ⟨kind, []⟩).2 } :=
  h.onStore (s.store.grows_alloc _) (h.store.alloc Store.hasAll_nil)

theorem bindTemporary (h : s.Closed) (hv : s.store.Has value) (name : Text) :
    (s.bindTemporary name value).Closed :=
  ⟨h.store, h.temporary.insert hv name, h.persistent, h.builtin⟩

theorem bindAll (h : s.Closed) {bound : List (Text × Ref)} (hb : s.store.HasAll bound) :
    (s.bindAll bound).Closed := by
  induction bound generalizing s with
  | nil => exact h
  | cons pair bound ih =>
    obtain ⟨hv, hb⟩ := List.forall_mem_cons.mp hb
    exact ih (s := s.bindTemporary pair.1 pair.2) (h.bindTemporary hv pair.1) hb

theorem withLiteral (h : s.Closed) (literal : Text) : (s.withLiteral literal).Closed := by
  obtain ⟨hs, ht, hp, hb⟩ := h.create (.string literal)
  exact ⟨hs, ht.insert (s.store.has_alloc _) _, hp, hb⟩

theorem new {store : Store} (h : store.Closed) : (Session.new store).Closed :=
  ⟨h.install, Store.hasAll_nil, Store.hasAll_nil, hasAll_builtin_new store⟩

end Closed

end Session

end LineScript
