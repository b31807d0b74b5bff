import LineScript.Proofs.Object.Grows
import LineScript.Proofs.Run.Visited

namespace LineScript

open Eval

variable {s t : Session} {object : Ref} {field : Text}

namespace Run

/-- The run stores a value into a field of an object, which the target was bound to when the run
began. -/
inductive Stores : Run → Ref → Text → Ref → Session → Session → Prop where
  | extend {field expr target : Text} {depth fuel : Nat} {start s : Session} {object value : Ref} :
    start.scopes.lookup? target = some object →
    evaluate fuel expr (depth + 1) start = .value value s →
    Stores ⟨.statement (.extend field expr target) depth, fuel, start⟩ object field value s
      (s.setField object field value)

variable {r : Run} {value : Ref}

theorem Stores.own (h : r.Stores object field value s t) : r.Own s t := by
  cases h with
  | extend ho hv => exact .setField ho hv

theorem Stores.object_eq (h : r.Stores object field value s t) {other : Ref} {name : Text}
    {w : Ref} {u v : Session} (h' : r.Stores other name w u v) : object = other := by
  cases h with
  | extend ho _ =>
    cases h' with
    | extend ho' _ => exact Option.some.inj (ho.symm.trans ho')

theorem Own.store_cases (h : r.Own s t) :
    s.store.Extends t.store ∨ ∃ object field value, r.Stores object field value s t := by
  cases h with
  | literal | create | copy => exact .inl (.alloc _)
  | block => exact .inl (.allocCallable _ _)
  | setField ho hv => exact .inr ⟨_, _, _, .extend ho hv⟩
  | _ => exact .inl .rfl

theorem Stores.store_eq (h : r.Stores object field value s t) :
    t.store = s.store.setField object field value := by
  cases h with
  | extend => rfl

theorem Own.grows (h : r.Own s t) : s.store.Grows t.store := by
  obtain he | ⟨object, field, value, hs⟩ := h.store_cases
  · exact .of_extends he
  · rw [hs.store_eq]
    exact .setField _ object field value

theorem Own.fields (h : r.Own s t) (ho : s.store.Has object) :
    t.store.fields object = s.store.fields object ∨
      ∃ field value, r.Stores object field value s t ∧
        t.store.fields object = (s.store.fields object).insert field value := by
  obtain he | ⟨other, field, value, hs⟩ := h.store_cases
  · exact .inl (congrArg Object.fields (he.object_eq object ho))
  · rw [hs.store_eq]
    obtain hf | ⟨rfl, -, hf⟩ := s.store.fields_setField_eq other field value object
    · exact .inl hf
    · exact .inr ⟨field, value, hs, hf⟩

theorem Own.field?_eq (h : r.Own s t) (ho : s.store.Has object)
    (hn : ∀ value, ¬r.Stores object field value s t) :
    t.store.field? object field = s.store.field? object field := by
  rw [Store.field?, Store.field?]
  obtain hf | ⟨other, value, hs, hf⟩ := h.fields ho
  · rw [hf]
  · have hne : field ≠ other := fun he => hn value (he ▸ hs)
    rw [hf, Bindings.get?_insert, if_neg hne]

end Run

def Session.StoredBetween (runs : Run → Prop) (object : Ref) (field : Text) (s t : Session) :
    Prop :=
  ∃ r value u v, runs r ∧ s.Leads runs u ∧ r.Stores object field value u v ∧ v.Leads runs t

namespace Session.Leads

variable {runs : Run → Prop}

theorem grows (h : s.Leads runs t) : s.store.Grows t.store := by
  induction h with
  | refl => exact .rfl
  | tail _ hm ih =>
    obtain ⟨r, -, ho⟩ := hm
    exact ih.trans ho.grows

/-- If a field is not what it was, one of the runs has stored into it. -/
theorem storedBetween (h : s.Leads runs t) (ho : s.store.Has object)
    (hf : t.store.field? object field ≠ s.store.field? object field) :
    StoredBetween runs object field s t := by
  obtain ⟨r, u, v, hr, hb, how, hne, ha⟩ := h.exists_step (·.store.field? object field) hf
  have hstep : ∃ value, r.Stores object field value u v := by
    by_contra hn
    exact hne (how.field?_eq ((grows hb).has ho) (not_exists.mp hn))
  obtain ⟨value, hs⟩ := hstep
  exact ⟨r, value, u, v, hr, hb, hs, ha⟩

theorem exists_storedBetween (h : s.Leads runs t) (ho : s.store.Has object)
    (hf : t.store.fields object ≠ s.store.fields object) :
    ∃ field, StoredBetween runs object field s t := by
  obtain ⟨r, u, v, hr, hb, how, hne, ha⟩ := h.exists_step (·.store.fields object) hf
  obtain he | ⟨field, value, hs, -⟩ := how.fields ((grows hb).has ho)
  · exact absurd he hne
  · exact ⟨field, r, value, u, v, hr, hb, hs, ha⟩

end Session.Leads

end LineScript
