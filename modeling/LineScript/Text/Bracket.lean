import LineScript.Text.Blank

namespace LineScript.Text

def isOpening (c : Char) : Bool :=
  c == '(' || c == '['

def isClosing (c : Char) : Bool :=
  c == ')' || c == ']'

/-- The depth behind a character. Round and square brackets count alike, and a closing bracket that
nothing opened leaves the depth at zero. -/
def depthStep (depth : Nat) (c : Char) : Nat :=
  if isOpening c then depth + 1 else if isClosing c then depth - 1 else depth

def depthAfter (depth : Nat) (text : Text) : Nat :=
  text.foldl depthStep depth

/-- Whether a text is cut at a character: there the depth is zero, and a bracket never cuts. -/
def cutsAt (mark : Char) (depth : Nat) (c : Char) : Bool :=
  c == mark && depth == 0 && !isOpening c && !isClosing c

def splitFrom (mark : Char) : Nat → Text → List Text
  | _, [] => [[]]
  | depth, c :: rest =>
    if cutsAt mark depth c then [] :: splitFrom mark 0 rest
    else (splitFrom mark (depthStep depth c) rest).modifyHead (c :: ·)

/-- The parts between the occurrences of `mark` outside of all brackets. -/
def splitTopLevel (mark : Char) (text : Text) : List Text :=
  splitFrom mark 0 text

/-- The argument texts of a call: none if it is blank, else the trimmed parts between commas. -/
def arguments (text : Text) : List Text :=
  if (trim text).isEmpty then [] else (splitTopLevel ',' text).map trim

theorem depthAfter_append (depth : Nat) (front back : Text) :
    depthAfter depth (front ++ back) = depthAfter (depthAfter depth front) back := by
  simp [depthAfter]

theorem eq_of_cutsAt {mark : Char} {depth : Nat} {c : Char} (h : cutsAt mark depth c) :
    c = mark := by
  simp only [cutsAt, Bool.and_eq_true, beq_iff_eq] at h
  exact h.1.1.1

theorem splitFrom_ne_nil (mark : Char) (depth : Nat) (text : Text) :
    splitFrom mark depth text ≠ [] := by
  cases text with
  | nil => simp [splitFrom]
  | cons c rest =>
    rw [splitFrom]
    split
    · simp
    · simpa [List.modifyHead_eq_nil_iff] using splitFrom_ne_nil mark (depthStep depth c) rest

theorem join_splitFrom (mark : Char) (depth : Nat) (text : Text) :
    join [mark] (splitFrom mark depth text) = text := by
  induction text generalizing depth with
  | nil => rfl
  | cons c rest ih =>
    rw [splitFrom]
    split
    case isTrue h =>
      have hc : c = mark := eq_of_cutsAt h
      have ih := ih 0
      cases hs : splitFrom mark 0 rest with
      | nil => exact absurd hs (splitFrom_ne_nil _ _ _)
      | cons part parts => simp_all [join, List.intercalate]
    case isFalse h =>
      have ih := ih (depthStep depth c)
      cases hs : splitFrom mark (depthStep depth c) rest with
      | nil => exact absurd hs (splitFrom_ne_nil _ _ _)
      | cons part parts => cases parts <;> simp_all [join, List.intercalate]

end LineScript.Text
