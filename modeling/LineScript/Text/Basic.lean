namespace LineScript

abbrev Text := List Char

namespace Text

/-- What stands before and after the first occurrence of `mark`. -/
def cut? (mark : Char) : Text → Option (Text × Text)
  | [] => none
  | c :: rest =>
    if c = mark then some ([], rest)
    else (cut? mark rest).map fun (front, back) => (c :: front, back)

def cut (mark : Char) (text : Text) : Text × Text :=
  (cut? mark text).getD (text, [])

def takeEndWhile (p : Char → Bool) (text : Text) : Text :=
  (text.reverse.takeWhile p).reverse

def dropEndWhile (p : Char → Bool) (text : Text) : Text :=
  (text.reverse.dropWhile p).reverse

def join (separator : Text) (parts : List Text) : Text :=
  separator.intercalate parts

theorem cut?_eq_some_iff {mark : Char} {text front back : Text} :
    cut? mark text = some (front, back) ↔ text = front ++ mark :: back ∧ mark ∉ front := by
  induction text generalizing front with
  | nil => simp [cut?]
  | cons c rest ih =>
    by_cases hc : c = mark
    · subst hc
      cases front <;> simp_all [cut?]
    · cases front with
      | nil => simp [cut?, hc]
      | cons d front => simp [cut?, hc, ih]; grind

theorem cut?_eq_none_iff {mark : Char} {text : Text} : cut? mark text = none ↔ mark ∉ text := by
  induction text with
  | nil => simp [cut?]
  | cons c rest ih =>
    by_cases hc : c = mark
    · simp [cut?, hc]
    · simp [cut?, hc, ih, Ne.symm hc]

theorem all_takeEndWhile (p : Char → Bool) (text : Text) : (takeEndWhile p text).all p := by
  rw [takeEndWhile, List.all_reverse]
  exact List.all_takeWhile

theorem dropEndWhile_append_takeEndWhile (p : Char → Bool) (text : Text) :
    dropEndWhile p text ++ takeEndWhile p text = text := by
  rw [dropEndWhile, takeEndWhile, ← List.reverse_append, List.takeWhile_append_dropWhile,
    List.reverse_reverse]

end Text

end LineScript
