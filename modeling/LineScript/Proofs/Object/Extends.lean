import Mathlib.Order.Basic
import LineScript.Native

namespace LineScript.Store

/-- Every object of the first store is there in the second as it was. -/
structure Extends (store later : Store) : Prop where
  size_le : store.size ≤ later.size
  object_eq : ∀ ref, ref.index < store.size → later.object ref = store.object ref

structure IsCallable (store : Store) (ref : Ref) (params : List Text) (code : Callable) : Prop where
  kind : store.kind ref = .callable code
  parameters : (store.field? ref parametersField).map store.kind = some (.parameterNames params)

variable {store later last : Store} {ref : Ref}

theorem object_of_size_le (h : store.size ≤ ref.index) : store.object ref = default := by
  rw [object, Array.getD_eq_getD_getElem?, Array.getElem?_eq_none h]
  rfl

theorem kind_alloc (store : Store) (o : Object) (ref : Ref) :
    (store.alloc o).2.kind ref = o.kind ∨ (store.alloc o).2.kind ref = store.kind ref := by
  rw [kind, object_alloc_eq]
  split
  · exact .inl rfl
  · exact .inr rfl

theorem index_lt_of_kind_ne (h : store.kind ref ≠ .nothing) : ref.index < store.size := by
  by_contra hn
  rw [kind, object_of_size_le (Nat.le_of_not_lt hn)] at h
  exact h rfl

namespace Extends

theorem rfl : store.Extends store :=
  ⟨Nat.le_refl _, fun _ _ => Eq.refl _⟩

theorem trans (h : store.Extends later) (h' : later.Extends last) : store.Extends last where
  size_le := Nat.le_trans h.size_le h'.size_le
  object_eq ref hr := by
    rw [h'.object_eq ref (Nat.lt_of_lt_of_le hr h.size_le), h.object_eq ref hr]

theorem alloc (o : Object) : store.Extends (store.alloc o).2 where
  size_le := by simp [Store.alloc, Store.size]
  object_eq _ hr := store.object_alloc o hr

theorem setField (h : store.Extends later) (hr : store.size ≤ ref.index) (name : Text)
    (value : Ref) : store.Extends (later.setField ref name value) where
  size_le := by
    rw [size_setField]
    exact h.size_le
  object_eq other ho := by
    have hne : ref.index ≠ other.index := by omega
    rw [← h.object_eq other ho]
    simp [object, Store.setField, Array.getElem?_modify, hne]

theorem allocCallable (params : List Text) (code : Callable) :
    store.Extends (store.allocCallable params code).2 :=
  ((alloc _).trans (alloc _)).setField (Nat.le_refl _) _ _

theorem kind_eq (h : store.Extends later) (hk : store.kind ref ≠ .nothing) :
    later.kind ref = store.kind ref :=
  congrArg Object.kind (h.object_eq ref (index_lt_of_kind_ne hk))

theorem isCallable (h : store.Extends later) {params : List Text} {code : Callable}
    (hc : store.IsCallable ref params code) : later.IsCallable ref params code where
  kind := by
    rw [h.kind_eq (by simp [hc.kind]), hc.kind]
  parameters := by
    have hr : ref.index < store.size := index_lt_of_kind_ne (by simp [hc.kind])
    obtain ⟨names, hf, hk⟩ := Option.map_eq_some_iff.mp hc.parameters
    have hf' : later.field? ref parametersField = some names := by
      rw [field?, fields, h.object_eq ref hr]
      exact hf
    rw [hf', Option.map_some, h.kind_eq (by simp [hk]), hk]

end Extends

theorem IsCallable.parameters_eq {params : List Text} {code : Callable}
    (h : store.IsCallable ref params code) : store.parameters ref = params := by
  rw [Store.parameters, h.parameters]

theorem isCallable_allocCallable (store : Store) (params : List Text) (code : Callable) :
    (store.allocCallable params code).2.IsCallable (store.allocCallable params code).1 params
      code := by
  let callable := store.alloc ⟨.callable code, []⟩
  let names := callable.2.alloc ⟨.parameterNames params, []⟩
  have hc : callable.2.kind callable.1 = .callable code :=
    congrArg Object.kind (store.object_alloc_self _)
  have hn : names.2.kind names.1 = .parameterNames params :=
    congrArg Object.kind (callable.2.object_alloc_self _)
  have hlater : callable.2.Extends names.2 := .alloc _
  have hlt : callable.1.index < names.2.size :=
    Nat.lt_of_lt_of_le (index_lt_of_kind_ne (by simp [hc])) hlater.size_le
  constructor
  · change (names.2.setField callable.1 parametersField names.1).kind callable.1 = _
    rw [kind_setField, hlater.kind_eq (by simp [hc]), hc]
  · change ((names.2.setField callable.1 parametersField names.1).field? callable.1 _).map
      (names.2.setField callable.1 parametersField names.1).kind = _
    rw [field?, fields_setField _ hlt, if_pos rfl, Bindings.get?_insert, if_pos rfl,
      Option.map_some, kind_setField, hn]

theorem install_induction {P : Store → Prop} (nothing : ∀ store : Store, P store →
      P (store.alloc ⟨.nothing, []⟩).2)
    (callable : ∀ (store : Store) (function : Native), P store →
      P (store.allocCallable function.params (.native function)).2)
    {store : Store} (h : P store) : P (Native.install store).2 :=
  callable _ .inc (callable _ .sub (callable _ .add (nothing _ h)))

end LineScript.Store
