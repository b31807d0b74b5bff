import LineScript.Proofs.Expr.Value
import LineScript.Proofs.Object.Extends
import LineScript.Session.Basic

namespace LineScript

open LineScript.Expr (Value)

theorem Native.name_notMem (function : Native) : function.name ∉ [left, right] := by
  cases function <;> decide

namespace Scopes

theorem bindAll_cons (scopes : Scopes) (name : Text) (value : Ref) (bound : List (Text × Ref)) :
    scopes.bindAll ((name, value) :: bound) = (scopes.bindTemporary name value).bindAll bound := rfl

theorem persistent_bindAll (scopes : Scopes) (bound : List (Text × Ref)) :
    (scopes.bindAll bound).persistent = scopes.persistent := by
  induction bound generalizing scopes with
  | nil => rfl
  | cons pair bound ih => exact ih _

theorem builtin_bindAll (scopes : Scopes) (bound : List (Text × Ref)) :
    (scopes.bindAll bound).builtin = scopes.builtin := by
  induction bound generalizing scopes with
  | nil => rfl
  | cons pair bound ih => exact ih _

theorem lookup?_bindAll_of_notMem {bound : List (Text × Ref)} {name : Text}
    (h : name ∉ bound.map Prod.fst) (scopes : Scopes) :
    (scopes.bindAll bound).lookup? name = scopes.lookup? name := by
  induction bound generalizing scopes with
  | nil => rfl
  | cons pair bound ih =>
    obtain ⟨hn, h⟩ := not_or.mp (mt List.mem_cons.mpr h)
    rw [bindAll_cons, ih h, lookup?_bindTemporary, if_neg hn]

theorem temporary_bindAll_of_notMem {bound : List (Text × Ref)} {name : Text}
    (h : name ∉ bound.map Prod.fst) (scopes : Scopes) :
    (scopes.bindAll bound).temporary.get? name = scopes.temporary.get? name := by
  induction bound generalizing scopes with
  | nil => rfl
  | cons pair bound ih =>
    obtain ⟨hn, h⟩ := not_or.mp (mt List.mem_cons.mpr h)
    rw [bindAll_cons, ih h, bindTemporary, Bindings.get?_insert, if_neg hn]

theorem temporary_bindAll {names : List Text} {values : List Ref} (hd : names.Nodup)
    (hl : names.length = values.length) (scopes : Scopes) :
    names.map (scopes.bindAll (names.zip values)).temporary.get? = values.map some := by
  induction names generalizing values scopes with
  | nil =>
    cases List.length_eq_zero_iff.mp hl.symm
    rfl
  | cons name names ih =>
    cases values with
    | nil => cases hl
    | cons value values =>
      obtain ⟨hn, hd⟩ := List.nodup_cons.mp hd
      have hf : name ∉ (names.zip values).map Prod.fst := by
        rw [List.map_fst_zip (Nat.le_of_eq (Nat.succ.inj hl))]
        exact hn
      rw [List.zip_cons_cons, bindAll_cons, List.map_cons, List.map_cons,
        ih hd (Nat.succ.inj hl), temporary_bindAll_of_notMem hf, bindTemporary,
        Bindings.get?_insert, if_pos rfl]

end Scopes

namespace Session

/-- Between the first session and the second only things were added, and names with the property
bound. -/
structure UndisturbedBut (rebound : Text → Prop) (s t : Session) : Prop where
  store : s.store.Extends t.store
  lookup_eq : ∀ name, ¬rebound name → t.scopes.lookup? name = s.scopes.lookup? name

abbrev Undisturbed (s t : Session) : Prop :=
  UndisturbedBut (· ∈ [Native.left, Native.right]) s t

/-- A name is bound to a callable with the parameters and the code. -/
structure Offers (s : Session) (callee : Text) (params : List Text) (code : Callable) (ref : Ref) :
    Prop where
  lookup : s.scopes.lookup? callee = some ref
  callable : s.store.IsCallable ref params code

def OffersBuiltins (s : Session) : Prop :=
  ∀ function : Native, ∃ ref, s.Offers function.name function.params (.native function) ref

def Means (s : Session) (name : Text) (v : Value) : Prop :=
  ∃ ref, s.scopes.lookup? name = some ref ∧ (s.store.kind ref).Holds v

variable {rebound : Text → Prop} {s t u : Session}

namespace UndisturbedBut

theorem rfl : UndisturbedBut rebound s s :=
  ⟨.rfl, fun _ _ => Eq.refl _⟩

theorem trans (h : UndisturbedBut rebound s t) (h' : UndisturbedBut rebound t u) :
    UndisturbedBut rebound s u where
  store := h.store.trans h'.store
  lookup_eq name hn := (h'.lookup_eq name hn).trans (h.lookup_eq name hn)

theorem record (e : Event) : UndisturbedBut rebound s (s.record e) :=
  ⟨.rfl, fun _ _ => Eq.refl _⟩

theorem onStore {store : Store} (h : s.store.Extends store) :
    UndisturbedBut rebound s { s with store } :=
  ⟨h, fun _ _ => Eq.refl _⟩

theorem bindTemporary {name : Text} (h : rebound name) (value : Ref) :
    UndisturbedBut rebound s (s.bindTemporary name value) where
  store := .rfl
  lookup_eq other ho := by
    have hn : other ≠ name := fun he => ho (he ▸ h)
    exact (Scopes.lookup?_bindTemporary s.scopes name other value).trans (if_neg hn)

theorem assign {name : Text} (h : rebound name) (value : Ref) :
    UndisturbedBut rebound s (s.assign name value) where
  store := .rfl
  lookup_eq other ho := by
    have hn : other ≠ name := fun he => ho (he ▸ h)
    simp only [Session.assign, Scopes.assign, Scopes.lookup?, Bindings.get?_insert, if_neg hn]

theorem bindAll {bound : List (Text × Ref)} (h : ∀ name ∈ bound.map Prod.fst, rebound name) :
    UndisturbedBut rebound s (s.bindAll bound) where
  store := .rfl
  lookup_eq name hn := Scopes.lookup?_bindAll_of_notMem (fun hm => hn (h name hm)) s.scopes

theorem holds (h : UndisturbedBut rebound s t) {ref : Ref} {v : Value}
    (hv : (s.store.kind ref).Holds v) : (t.store.kind ref).Holds v := by
  rw [h.store.kind_eq]
  · exact hv
  · intro hk
    rw [hk] at hv
    cases hv

theorem means (h : UndisturbedBut rebound s t) {name : Text} {v : Value} (hn : ¬rebound name)
    (hm : s.Means name v) : t.Means name v := by
  obtain ⟨ref, hl, hv⟩ := hm
  exact ⟨ref, (h.lookup_eq name hn).trans hl, h.holds hv⟩

theorem offers (h : UndisturbedBut rebound s t) {callee : Text} {params : List Text}
    {code : Callable} {ref : Ref} (hn : ¬rebound callee)
    (ho : s.Offers callee params code ref) : t.Offers callee params code ref :=
  ⟨(h.lookup_eq callee hn).trans ho.lookup, h.store.isCallable ho.callable⟩

theorem offersBuiltins (h : UndisturbedBut rebound s t)
    (hn : ∀ function : Native, ¬rebound function.name) (ho : s.OffersBuiltins) :
    t.OffersBuiltins := by
  intro function
  obtain ⟨ref, hr⟩ := ho function
  exact ⟨ref, h.offers (hn function) hr⟩

end UndisturbedBut

end Session

end LineScript
