import LineScript.Proofs.Statement.ReadFrom
import LineScript.Proofs.Text.Piece

namespace LineScript.Statement

open Text

/-- The texts in a statement that are evaluated with it, or later as a block's body. -/
def inner : Statement → List Text
  | sequence parts => parts
  | assign _ expr | extend _ expr _ => [expr]
  | fieldCall _ _ args | call _ args => args
  | block _ body => [body]
  | directive _ rest => [rest]
  | parenthesized text => [text]
  | _ => []

theorem piece_of_arrow (name expr : Text) : Piece expr (name ++ arrow ++ expr) := by
  simpa [arrow] using Piece.behind (name ++ [' ', '<', '-']) expr [] (c := ' ') (by decide)

theorem piece_of_mem_call {callee args arg : Text} (h : arg ∈ arguments args) :
    Piece arg (callee ++ ':' :: args) := by
  have hp : Piece args (callee ++ ':' :: args) := by
    simpa using Piece.behind callee args [] (c := ':') (by decide)
  exact (Piece.of_mem_arguments h).trans hp

variable {text : Text} {statement : Statement}

theorem piece_of_readFrom (h : statement.ReadFrom text) :
    ∀ part ∈ statement.inner, Piece part text := by
  intro part hm
  cases h with
  | sequence hl hs =>
    obtain ⟨whole, hw, rfl⟩ := List.mem_map.mp hm
    exact (Piece.trim whole).trans (.of_mem_splitTopLevel (by decide) (hs.symm ▸ hw))
  | @assign name expr =>
    cases List.mem_singleton.mp hm
    exact piece_of_arrow name part
  | @extend field expr target =>
    cases List.mem_singleton.mp hm
    have hp := (Piece.front part (extendsWord ++ target)).trans (piece_of_arrow field _)
    simpa using hp
  | fieldCall | call => exact piece_of_mem_call hm
  | @block list body =>
    cases List.mem_singleton.mp hm
    simpa using Piece.behind ('[' :: list) part [']'] (c := '|') (by decide)
  | @directive name rest =>
    cases List.mem_singleton.mp hm
    simpa using Piece.behind (sigil :: name) part [] (c := ' ') (by decide)
  | bareDirective =>
    cases List.mem_singleton.mp hm
    exact .nil
  | parenthesized inner =>
    cases List.mem_singleton.mp hm
    simpa using Piece.behind [] part [')'] (c := '(') (by decide)
  | _ => cases hm

theorem piece_of_classify? (h : classify? text = some statement) :
    ∀ part ∈ statement.inner, Piece part text :=
  piece_of_readFrom (readFrom_of_classify? h)

theorem length_add_le_join {part : Text} {parts : List Text} (h : part ∈ parts) :
    part.length + parts.length ≤ (join [';'] parts).length + 1 := by
  induction parts generalizing part with
  | nil => cases h
  | cons first parts ih =>
    cases parts with
    | nil =>
      cases List.mem_singleton.mp h
      simp [join]
    | cons second others =>
      have hj : (join [';'] (first :: second :: others)).length =
          first.length + ((join [';'] (second :: others)).length + 1) := by
        simp [join]
      rw [hj, List.length_cons]
      obtain rfl | h := List.mem_cons.mp h
      · have hsecond := ih List.mem_cons_self
        omega
      · have hpart := ih h
        omega

/-- Each of the texts that a statement keeps is shorter than the statement's own. -/
theorem length_lt_of_classify? (h : classify? text = some statement) :
    ∀ part ∈ statement.inner, part.length < text.length := by
  intro part hm
  cases readFrom_of_classify? h with
  | sequence hl hs =>
    obtain ⟨whole, hw, rfl⟩ := List.mem_map.mp hm
    have htrim := (Piece.trim whole).length_le
    have hjoin := length_add_le_join hw
    omega
  | assign | extend | block | directive | parenthesized =>
    cases List.mem_singleton.mp hm
    simp only [arrow, List.length_append, List.length_cons]
    omega
  | fieldCall args | call args =>
    have hp := (Piece.of_mem_arguments hm).length_le
    simp only [List.length_append, List.length_cons]
    omega
  | bareDirective =>
    cases List.mem_singleton.mp hm
    exact Nat.zero_lt_succ _
  | _ => cases hm

end LineScript.Statement
