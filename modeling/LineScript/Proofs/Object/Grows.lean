import LineScript.Proofs.Object.Extends

namespace LineScript

theorem Ref.eq_of_number_eq {ref other : Ref} (h : ref.number = other.number) : ref = other := by
  cases ref
  cases other
  exact congrArg Ref.mk (Nat.succ.inj h)

namespace Bindings

variable {α : Type}

theorem names_insert_prefix (bindings : Bindings α) (name : Text) (value : α) :
    bindings.names <+: (bindings.insert name value).names := by
  rw [names_insert]
  split
  · exact List.prefix_refl _
  · exact List.prefix_append _ _

theorem mem_insert {bindings : Bindings α} {name : Text} {value : α} {entry : Text × α}
    (h : entry ∈ bindings.insert name value) : entry = (name, value) ∨ entry ∈ bindings := by
  induction bindings with
  | nil => exact .inl (List.mem_singleton.mp h)
  | cons first rest ih =>
    obtain ⟨n, v⟩ := first
    rw [insert] at h
    split at h
    next hn =>
      subst hn
      obtain rfl | h := List.mem_cons.mp h
      · exact .inl rfl
      · exact .inr (List.mem_cons_of_mem _ h)
    next =>
      obtain rfl | h := List.mem_cons.mp h
      · exact .inr List.mem_cons_self
      · exact (ih h).imp_right (List.mem_cons_of_mem _)

theorem mem_of_get? {bindings : Bindings α} {name : Text} {value : α}
    (h : bindings.get? name = some value) : (name, value) ∈ bindings := by
  obtain ⟨front, back, rfl, -⟩ := List.lookup_eq_some_iff.mp h
  simp

end Bindings

namespace Store

def Has (store : Store) (ref : Ref) : Prop :=
  ref.index < store.size

structure Grows (store later : Store) : Prop where
  size_le : store.size ≤ later.size
  kind_eq : ∀ ref, store.Has ref → later.kind ref = store.kind ref
  names : ∀ ref, store.Has ref → (store.fields ref).names <+: (later.fields ref).names

variable {store later last : Store} {ref other : Ref}

theorem has_of_kind_ne (h : store.kind ref ≠ .nothing) : store.Has ref :=
  index_lt_of_kind_ne h

theorem has_of_field? {name : Text} {value : Ref} (h : store.field? ref name = some value) :
    store.Has ref := by
  by_contra hn
  rw [field?, fields, object_of_size_le (Nat.le_of_not_lt hn)] at h
  cases h

theorem has_alloc (store : Store) (o : Object) : (store.alloc o).2.Has (store.alloc o).1 := by
  simp [Has, alloc, size]

theorem number_lt (ho : store.Has ref) (hn : ¬store.Has other) : ref.number < other.number :=
  Nat.succ_lt_succ (Nat.lt_of_lt_of_le ho (Nat.le_of_not_lt hn))

theorem setField_of_not_has (h : ¬store.Has ref) (name : Text) (value : Ref) :
    store.setField ref name value = store := by
  obtain ⟨objects⟩ := store
  have hout : objects.size ≤ ref.index := Nat.le_of_not_lt h
  refine congrArg Store.mk (Array.ext (Array.size_modify ..) fun i hi _ => ?_)
  rw [Array.size_modify] at hi
  rw [Array.getElem_modify, if_neg (by omega)]

theorem fields_setField_eq (store : Store) (ref : Ref) (name : Text) (value : Ref) (other : Ref) :
    (store.setField ref name value).fields other = store.fields other ∨
      other = ref ∧ store.Has ref ∧
        (store.setField ref name value).fields other = (store.fields ref).insert name value := by
  by_cases h : store.Has ref
  · rw [fields_setField _ h]
    split
    next he => exact .inr ⟨he, h, rfl⟩
    next => exact .inl rfl
  · exact .inl (by rw [setField_of_not_has h])

namespace Grows

theorem rfl : store.Grows store :=
  ⟨Nat.le_refl _, fun _ _ => Eq.refl _, fun _ _ => List.prefix_refl _⟩

theorem has (h : store.Grows later) (hr : store.Has ref) : later.Has ref :=
  Nat.lt_of_lt_of_le hr h.size_le

theorem trans (h : store.Grows later) (h' : later.Grows last) : store.Grows last where
  size_le := Nat.le_trans h.size_le h'.size_le
  kind_eq ref hr := (h'.kind_eq ref (h.has hr)).trans (h.kind_eq ref hr)
  names ref hr := (h.names ref hr).trans (h'.names ref (h.has hr))

theorem of_extends (h : store.Extends later) : store.Grows later where
  size_le := h.size_le
  kind_eq ref hr := congrArg Object.kind (h.object_eq ref hr)
  names ref hr := by
    have he : later.fields ref = store.fields ref := congrArg Object.fields (h.object_eq ref hr)
    exact he ▸ List.prefix_refl _

theorem setField (store : Store) (ref : Ref) (name : Text) (value : Ref) :
    store.Grows (store.setField ref name value) where
  size_le := Nat.le_of_eq (size_setField store ref name value).symm
  kind_eq other _ := kind_setField store ref name value other
  names other _ := by
    obtain he | ⟨rfl, -, he⟩ := store.fields_setField_eq ref name value other
    · exact he ▸ List.prefix_refl _
    · rw [he]
      exact Bindings.names_insert_prefix _ name value

theorem isCallable (h : store.Grows later) {params : List Text} {code : Callable}
    (hf : later.field? ref parametersField = store.field? ref parametersField)
    (hc : store.IsCallable ref params code) : later.IsCallable ref params code where
  kind := by
    rw [h.kind_eq ref (has_of_kind_ne (by simp [hc.kind])), hc.kind]
  parameters := by
    obtain ⟨names, hn, hk⟩ := Option.map_eq_some_iff.mp hc.parameters
    rw [hf, hn, Option.map_some, h.kind_eq names (has_of_kind_ne (by simp [hk])), hk]

end Grows

end Store

end LineScript
