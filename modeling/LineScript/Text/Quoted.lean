import LineScript.Text.Basic

namespace LineScript.Text

/-- A character that stands alone, or one that a backslash precedes, inside and outside of literals.
A quote opens or closes a literal if it stands alone. -/
inductive Glyph where
  | plain (c : Char)
  | escaped (c : Char)
deriving DecidableEq

namespace Glyph

def quote : Glyph := plain '"'

def written : Glyph → Text
  | plain c => [c]
  | escaped c => ['\\', c]

def meant : Glyph → Text
  -- Other characters keep the backslash in front of them.
  | escaped '"' => ['"']
  | g => g.written

end Glyph

def glyphs : Text → List Glyph
  | [] => []
  | '\\' :: c :: rest => .escaped c :: glyphs rest
  | c :: rest => .plain c :: glyphs rest

/-- The stretches between the quotes that open or close literals. -/
def stretches : List Glyph → List (List Glyph)
  | [] => [[]]
  | g :: rest => if g = .quote then [] :: stretches rest else (stretches rest).modifyHead (g :: ·)

/-- The literals of a text, each with the text between it and the next one. -/
structure Literals where
  lead : Text
  quoted : List (Text × Text)
  closed : Bool

/-- Takes literals and the texts after them by turns. A literal that nothing follows is not
closed. -/
def alternate : List (List Glyph) → List (Text × Text) × Bool
  | [] => ([], true)
  | [_] => ([], false)
  | literal :: after :: rest =>
    let (quoted, closed) := alternate rest
    ((literal.flatMap Glyph.meant, after.flatMap Glyph.written) :: quoted, closed)

def literals (text : Text) : Literals :=
  match stretches (glyphs text) with
  | [] => ⟨[], [], true⟩
  | lead :: rest =>
    let (quoted, closed) := alternate rest
    ⟨lead.flatMap Glyph.written, quoted, closed⟩

/-- Puts a name in the place of every literal. `bind` receives the literals in order and gives the
names; there is no result if the last literal is not closed. -/
def extractLiterals {m : Type → Type} [Monad m] (bind : Text → m Text) (text : Text) :
    m (Option Text) := do
  let found := literals text
  let pieces ← found.quoted.mapM fun (literal, after) => do
    let name ← bind literal
    pure (name ++ after)
  pure (if found.closed then some (found.lead ++ pieces.flatten) else none)

def quote (literal : Text) : Text :=
  '"' :: literal.flatMap (fun c => if c = '"' then ['\\', '"'] else [c]) ++ ['"']

theorem flatMap_written_glyphs (text : Text) : (glyphs text).flatMap Glyph.written = text := by
  fun_induction glyphs text <;> simp_all [Glyph.written]

theorem length_stretches (gs : List Glyph) : (stretches gs).length = gs.count .quote + 1 := by
  induction gs with
  | nil => rfl
  | cons g rest ih => by_cases h : g = .quote <;> simp [stretches, h, ih]

theorem alternate_closed (ss : List (List Glyph)) : (alternate ss).2 = (ss.length % 2 == 0) := by
  fun_induction alternate ss with
  | case1 => rfl
  | case2 => rfl
  | case3 literal after rest quoted closed h ih =>
    rw [h] at ih
    rw [ih, List.length_cons, List.length_cons, Nat.add_assoc, Nat.add_mod_right]

theorem length_alternate (ss : List (List Glyph)) : (alternate ss).1.length = ss.length / 2 := by
  fun_induction alternate ss with
  | case1 => rfl
  | case2 => simp
  | case3 literal after rest quoted closed h ih =>
    rw [h] at ih
    simp only [List.length_cons] at ih ⊢
    omega

end LineScript.Text
