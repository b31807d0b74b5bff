import LineScript.Text.Basic

namespace LineScript

/-- Names bound to things, in the order in which the names came in. A name that is bound again keeps
its place. -/
abbrev Bindings (α : Type) := List (Text × α)

namespace Bindings

variable {α : Type}

def get? (bindings : Bindings α) (name : Text) : Option α :=
  bindings.lookup name

def insert (name : Text) (value : α) : Bindings α → Bindings α
  | [] => [(name, value)]
  | (n, v) :: rest => if n = name then (n, value) :: rest else (n, v) :: insert name value rest

def names (bindings : Bindings α) : List Text :=
  bindings.map Prod.fst

theorem get?_insert (bindings : Bindings α) (name other : Text) (value : α) :
    get? (insert name value bindings) other =
      if other = name then some value else get? bindings other := by
  induction bindings with
  | nil => simp only [get?, insert, List.lookup_cons, List.lookup_nil]; grind
  | cons entry rest ih =>
    obtain ⟨n, v⟩ := entry
    simp only [get?] at ih ⊢
    by_cases hn : n = name
    · simp only [insert, hn, if_true, List.lookup_cons]; grind
    · simp only [insert, hn, if_false, List.lookup_cons, ih]; grind

theorem names_insert (bindings : Bindings α) (name : Text) (value : α) :
    names (insert name value bindings) =
      if name ∈ names bindings then names bindings else names bindings ++ [name] := by
  induction bindings with
  | nil => simp [names, insert]
  | cons entry rest ih =>
    obtain ⟨n, v⟩ := entry
    simp only [names] at ih ⊢
    by_cases hn : n = name
    · simp [insert, hn]
    · simp only [insert, hn, if_false, List.map_cons, ih, List.mem_cons, Ne.symm hn, false_or]
      split <;> simp_all

end Bindings

end LineScript
