import LineScript.Object.Basic

namespace LineScript

structure Store where
  objects : Array Object := #[]

namespace Store

def parametersField : Text := ['_', 'a', 'r', 'g', 's']

def size (store : Store) : Nat :=
  store.objects.size

def object (store : Store) (ref : Ref) : Object :=
  store.objects.getD ref.index default

def kind (store : Store) (ref : Ref) : Kind :=
  (store.object ref).kind

def fields (store : Store) (ref : Ref) : Bindings Ref :=
  (store.object ref).fields

def typeName (store : Store) (ref : Ref) : Text :=
  (store.kind ref).typeName

def text (store : Store) (ref : Ref) : Text :=
  (store.kind ref).text

def field? (store : Store) (ref : Ref) (name : Text) : Option Ref :=
  (store.fields ref).get? name

/-- The names of a callable's parameters; none if they were overwritten by something else. -/
def parameters (store : Store) (ref : Ref) : List Text :=
  match (store.field? ref parametersField).map store.kind with
  | some (.parameterNames names) => names
  | _ => []

def alloc (store : Store) (object : Object) : Ref × Store :=
  (⟨store.objects.size⟩, ⟨store.objects.push object⟩)

def setField (store : Store) (ref : Ref) (name : Text) (value : Ref) : Store :=
  ⟨store.objects.modify ref.index fun object =>
    { object with fields := object.fields.insert name value }⟩

/-- A new identity with the same kind and fields; what the fields are bound to is shared. -/
def copy (store : Store) (ref : Ref) : Ref × Store :=
  store.alloc (store.object ref)

/-- Adds a callable, and behind it the object that holds its parameters. -/
def allocCallable (store : Store) (params : List Text) (code : Callable) : Ref × Store :=
  let (callable, store) := store.alloc ⟨.callable code, []⟩
  let (names, store) := store.alloc ⟨.parameterNames params, []⟩
  (callable, store.setField callable parametersField names)

theorem object_alloc_eq (store : Store) (o : Object) (ref : Ref) :
    (store.alloc o).2.object ref = if ref.index = store.size then o else store.object ref := by
  simp only [alloc, object, size, Array.getD_eq_getD_getElem?, Array.getElem?_push]
  split <;> rfl

theorem object_alloc (store : Store) (o : Object) {ref : Ref} (h : ref.index < store.size) :
    (store.alloc o).2.object ref = store.object ref := by
  rw [object_alloc_eq, if_neg (Nat.ne_of_lt h)]

theorem object_alloc_self (store : Store) (o : Object) :
    (store.alloc o).2.object (store.alloc o).1 = o :=
  (object_alloc_eq store o _).trans (if_pos rfl)

theorem size_setField (store : Store) (ref : Ref) (name : Text) (value : Ref) :
    (store.setField ref name value).size = store.size := by
  simp [setField, size]

theorem kind_setField (store : Store) (ref : Ref) (name : Text) (value : Ref) (other : Ref) :
    (store.setField ref name value).kind other = store.kind other := by
  simp only [kind, object, setField, Array.getD_eq_getD_getElem?, Array.getElem?_modify]
  split
  · cases store.objects[other.index]? <;> rfl
  · rfl

theorem fields_setField (store : Store) {ref : Ref} (h : ref.index < store.size) (name : Text)
    (value : Ref) (other : Ref) :
    (store.setField ref name value).fields other =
      if other = ref then (store.fields ref).insert name value else store.fields other := by
  obtain ⟨i⟩ := ref
  obtain ⟨j⟩ := other
  simp only [size] at h
  by_cases hij : j = i
  · subst hij
    simp [fields, object, setField, h, Array.getElem_modify]
  · simp [fields, object, setField, Array.getElem?_modify, Ne.symm hij, hij]

end Store

end LineScript
