import Mathlib.Data.List.Forall2
import LineScript.Proofs.Object.Grows

namespace LineScript

variable {pairs : Ref → Ref → Prop}

namespace Bindings

def Paired (pairs : Ref → Ref → Prop) (bindings others : Bindings Ref) : Prop :=
  List.Forall₂ (fun entry other => entry.1 = other.1 ∧ pairs entry.2 other.2) bindings others

variable {bindings others : Bindings Ref} {ref other : Ref}

theorem Paired.names_eq (h : Paired pairs bindings others) : bindings.names = others.names := by
  induction h with
  | nil => rfl
  | cons he _ ih => exact congrArg₂ List.cons he.1 ih

theorem Paired.get? (h : Paired pairs bindings others) (name : Text) :
    Option.Rel pairs (bindings.get? name) (others.get? name) := by
  induction h with
  | nil => exact .none
  | @cons entry other _ _ he _ ih =>
    obtain ⟨n, ref⟩ := entry
    obtain ⟨n', ref'⟩ := other
    obtain ⟨rfl, hp⟩ := he
    simp only [Bindings.get?, List.lookup_cons] at ih ⊢
    split
    · exact .some hp
    · exact ih

theorem Paired.insert (h : Paired pairs bindings others) (name : Text) (hp : pairs ref other) :
    Paired pairs (bindings.insert name ref) (others.insert name other) := by
  induction h with
  | nil => exact .cons ⟨rfl, hp⟩ .nil
  | @cons entry other' _ _ he hs ih =>
    obtain ⟨n, value⟩ := entry
    obtain ⟨n', value'⟩ := other'
    obtain ⟨rfl, hv⟩ := he
    simp only [Bindings.insert]
    split
    · exact .cons ⟨rfl, hp⟩ hs
    · exact .cons ⟨rfl, hv⟩ ih

theorem Paired.imp {pairs' : Ref → Ref → Prop} (h : Paired pairs bindings others)
    (hp : ∀ entry ∈ bindings, ∀ other, pairs entry.2 other → pairs' entry.2 other) :
    Paired pairs' bindings others := by
  induction h with
  | nil => exact .nil
  | cons he _ ih =>
    obtain ⟨hfirst, hrest⟩ := List.forall_mem_cons.mp hp
    exact .cons ⟨he.1, hfirst _ he.2⟩ (ih hrest)

theorem Paired.exists_pair (h : Paired pairs bindings others) :
    ∀ entry ∈ bindings, ∃ other, pairs entry.2 other := by
  induction h with
  | nil => exact nofun
  | @cons _ entry' _ _ he _ ih => exact List.forall_mem_cons.mpr ⟨⟨entry'.2, he.2⟩, ih⟩

theorem Paired.flatMap_eq {f g : Text × Ref → Text} (h : Paired pairs bindings others)
    (hf : ∀ name a b, pairs a b → f (name, a) = g (name, b)) :
    bindings.flatMap f = others.flatMap g := by
  induction h with
  | nil => rfl
  | @cons entry other _ _ he _ ih =>
    obtain ⟨name, a⟩ := entry
    obtain ⟨name', b⟩ := other
    obtain ⟨rfl, hp⟩ := he
    rw [List.flatMap_cons, List.flatMap_cons, hf name a b hp, ih]

theorem Paired.eq (h : Paired pairs bindings others) (he : ∀ {a b}, pairs a b → a = b) :
    bindings = others := by
  induction h with
  | nil => rfl
  | cons hentry _ ih => rw [Prod.ext hentry.1 (he hentry.2), ih]

end Bindings

structure Object.Paired (pairs : Ref → Ref → Prop) (o o' : Object) : Prop where
  kind_eq : o.kind = o'.kind
  fields : Bindings.Paired pairs o.fields o'.fields

theorem Object.Paired.of_kind (kind : Kind) : Object.Paired pairs ⟨kind, []⟩ ⟨kind, []⟩ :=
  ⟨rfl, .nil⟩

namespace Store

/-- Paired identities are those of paired objects. -/
def Agree (pairs : Ref → Ref → Prop) (store store' : Store) : Prop :=
  ∀ ⦃a b⦄, pairs a b → (store.object a).Paired pairs (store'.object b)

variable {store store' : Store} {a b : Ref}

theorem Agree.kind_eq (h : Agree pairs store store') (hp : pairs a b) :
    store.kind a = store'.kind b :=
  (h hp).kind_eq

theorem Agree.fields (h : Agree pairs store store') (hp : pairs a b) :
    (store.fields a).Paired pairs (store'.fields b) :=
  (h hp).fields

theorem Agree.text_eq (h : Agree pairs store store') (hp : pairs a b) :
    store.text a = store'.text b :=
  congrArg Kind.text (h.kind_eq hp)

theorem Agree.typeName_eq (h : Agree pairs store store') (hp : pairs a b) :
    store.typeName a = store'.typeName b :=
  congrArg Kind.typeName (h.kind_eq hp)

theorem Agree.map_kind_eq (h : Agree pairs store store') {found found' : Option Ref}
    (hf : Option.Rel pairs found found') : found.map store.kind = found'.map store'.kind := by
  cases hf with
  | some hp => exact congrArg some (h.kind_eq hp)
  | none => rfl

theorem Agree.field? (h : Agree pairs store store') (hp : pairs a b) (name : Text) :
    Option.Rel pairs (store.field? a name) (store'.field? b name) :=
  (h.fields hp).get? name

theorem Agree.parameters_eq (h : Agree pairs store store') (hp : pairs a b) :
    store.parameters a = store'.parameters b := by
  rw [Store.parameters, Store.parameters, h.map_kind_eq (h.field? hp parametersField)]

theorem object_setField_of_ne (store : Store) {ref other : Ref} (h : other ≠ ref) (name : Text)
    (value : Ref) : (store.setField ref name value).object other = store.object other := by
  obtain ⟨i⟩ := ref
  obtain ⟨j⟩ := other
  have hi : i ≠ j := fun he => h (congrArg Ref.mk he.symm)
  simp [object, setField, Array.getElem?_modify, hi]

theorem object_setField_self {store : Store} {ref : Ref} (h : store.Has ref) (name : Text)
    (value : Ref) : (store.setField ref name value).object ref =
      ⟨store.kind ref, (store.fields ref).insert name value⟩ := by
  have hk := store.kind_setField ref name value ref
  have hf := store.fields_setField h name value ref
  rw [if_pos rfl] at hf
  exact congrArg₂ Object.mk hk hf

theorem object_alloc_of_ne {ref : Ref} (store : Store) (o : Object) (h : ref ≠ (store.alloc o).1) :
    (store.alloc o).2.object ref = store.object ref := by
  rw [object_alloc_eq, if_neg]
  exact fun he => h (congrArg Ref.mk he)

end Store

/-- What two evaluations are compared by: the pairs of identities, the stores in which both began,
which bodies the blocks among the paired objects may have, and whether the evaluations may be cut
short. -/
structure Comparison where
  pairs : Ref → Ref → Prop
  ordered {a b a' b' : Ref} :
    pairs a b → pairs a' b' → (a.number < a'.number ↔ b.number < b'.number)
  first : Store
  second : Store
  Body : Text → Prop
  Exhaustible : Prop

namespace Comparison

variable {c : Comparison} {a b a' b' : Ref}

theorem eq_iff (h : c.pairs a b) (h' : c.pairs a' b') : a = a' ↔ b = b' := by
  have hlt := c.ordered h h'
  have hgt := c.ordered h' h
  constructor
  · rintro rfl
    exact Ref.eq_of_number_eq (by omega)
  · rintro rfl
    exact Ref.eq_of_number_eq (by omega)

/-- The two stores as far as they are compared: they agree along the pairs, what will be made next
is paired in its order, and objects without a partner are those that were there first. -/
structure StoresAgree (c : Comparison) (store store' : Store) : Prop where
  agree : Store.Agree c.pairs store store'
  fresh (k : Nat) : c.pairs ⟨store.size + k⟩ ⟨store'.size + k⟩
  body {a b : Ref} {body : Text} : c.pairs a b → store.kind a = .callable (.block body) →
    c.Body body
  left {a : Ref} : (∀ b, ¬c.pairs a b) → store.object a = c.first.object a
  right {b : Ref} : (∀ a, ¬c.pairs a b) → store'.object b = c.second.object b

namespace StoresAgree

variable {store store' : Store} {o o' : Object}

theorem has_iff (h : c.StoresAgree store store') (hp : c.pairs a b) :
    store.Has a ↔ store'.Has b := by
  have hlt := c.ordered hp (h.fresh 0)
  simpa [Ref.number, Store.Has] using hlt

theorem alloc (h : c.StoresAgree store store') (ho : o.Paired c.pairs o')
    (hb : ∀ body, o.kind = .callable (.block body) → c.Body body) :
    c.pairs (store.alloc o).1 (store'.alloc o').1 ∧
      c.StoresAgree (store.alloc o).2 (store'.alloc o').2 := by
  have hnew : c.pairs (store.alloc o).1 (store'.alloc o').1 := h.fresh 0
  refine ⟨hnew, ?_, fun k => ?_, fun {a b body} hp hk => ?_, fun {a} hn => ?_, fun {b} hn => ?_⟩
  · intro a b hp
    by_cases he : a = (store.alloc o).1
    · obtain rfl := (c.eq_iff hp hnew).mp he
      rw [he, Store.object_alloc_self, Store.object_alloc_self]
      exact ho
    · have he' := mt (c.eq_iff hp hnew).mpr he
      rw [Store.object_alloc_of_ne _ _ he, Store.object_alloc_of_ne _ _ he']
      exact h.agree hp
  · have hk := h.fresh (1 + k)
    simpa [Store.alloc, Store.size, Nat.add_assoc] using hk
  · obtain he | he := store.kind_alloc o a
    · exact hb body (he.symm.trans hk)
    · exact h.body hp (he.symm.trans hk)
  · rw [Store.object_alloc_of_ne _ _ fun he => hn _ (he ▸ hnew)]
    exact h.left hn
  · rw [Store.object_alloc_of_ne _ _ fun he => hn _ (he ▸ hnew)]
    exact h.right hn

theorem setField (h : c.StoresAgree store store') (hp : c.pairs a b) (name : Text)
    (hv : c.pairs a' b') :
    c.StoresAgree (store.setField a name a') (store'.setField b name b') := by
  refine ⟨?_, fun k => ?_, fun {x y body} hxy hk => ?_, fun {x} hn => ?_, fun {y} hn => ?_⟩
  · intro x y hxy
    by_cases he : x = a
    · obtain rfl := (c.eq_iff hxy hp).mp he
      subst he
      by_cases hx : store.Has x
      · rw [Store.object_setField_self hx, Store.object_setField_self ((h.has_iff hp).mp hx)]
        exact ⟨h.agree.kind_eq hp, (h.agree.fields hp).insert name hv⟩
      · rw [Store.setField_of_not_has hx, Store.setField_of_not_has (mt (h.has_iff hp).mpr hx)]
        exact h.agree hp
    · rw [Store.object_setField_of_ne _ he,
        Store.object_setField_of_ne _ (mt (c.eq_iff hxy hp).mpr he)]
      exact h.agree hxy
  · rw [Store.size_setField, Store.size_setField]
    exact h.fresh k
  · rw [Store.kind_setField] at hk
    exact h.body hxy hk
  · rw [Store.object_setField_of_ne _ fun he => hn _ (he ▸ hp)]
    exact h.left hn
  · rw [Store.object_setField_of_ne _ fun he => hn _ (he ▸ hp)]
    exact h.right hn

theorem copy (h : c.StoresAgree store store') (hp : c.pairs a b) :
    c.pairs (store.copy a).1 (store'.copy b).1 ∧
      c.StoresAgree (store.copy a).2 (store'.copy b).2 :=
  h.alloc (h.agree hp) fun _ hk => h.body hp hk

theorem allocCallable (h : c.StoresAgree store store') (params : List Text) (code : Callable)
    (hb : ∀ body, code = .block body → c.Body body) :
    c.pairs (store.allocCallable params code).1 (store'.allocCallable params code).1 ∧
      c.StoresAgree (store.allocCallable params code).2 (store'.allocCallable params code).2 := by
  obtain ⟨hcallable, h⟩ := h.alloc (.of_kind (.callable code)) fun body he =>
    hb body (Kind.callable.inj he)
  obtain ⟨hnames, h⟩ := h.alloc (.of_kind (.parameterNames params)) nofun
  exact ⟨hcallable, h.setField hcallable Store.parametersField hnames⟩

end StoresAgree

end Comparison

end LineScript
