import LineScript.Dialogue

namespace LineScript

open Text

namespace Text

variable {p : Char → Bool} {text other back : Text}

theorem dropEndWhile_append_of_all (hb : back.all p) (front : Text) :
    dropEndWhile p (front ++ back) = dropEndWhile p front := by
  have hr : back.reverse.all p := by rwa [List.all_reverse]
  rw [dropEndWhile, List.reverse_append, List.dropWhile_append_of_pos (List.all_eq_true.mp hr),
    dropEndWhile]

theorem dropEndWhile_dropEndWhile (p : Char → Bool) (text : Text) :
    dropEndWhile p (dropEndWhile p text) = dropEndWhile p text := by
  calc dropEndWhile p (dropEndWhile p text)
      = dropEndWhile p (dropEndWhile p text ++ takeEndWhile p text) :=
        (dropEndWhile_append_of_all (all_takeEndWhile p text) _).symm
    _ = dropEndWhile p text := by rw [dropEndWhile_append_takeEndWhile]

theorem dropEndWhile_cons_congr (h : dropEndWhile p text = dropEndWhile p other) (c : Char) :
    dropEndWhile p (c :: text) = dropEndWhile p (c :: other) := by
  have hr : text.reverse.dropWhile p = other.reverse.dropWhile p := List.reverse_inj.mp h
  simp only [dropEndWhile, List.reverse_cons, List.dropWhile_append, hr]

end Text

section Lines

variable {α : Type} [DecidableEq α] {feed returning : α} {stream rest : List α}
  {pieces : List (List α)}

theorem exists_splitOn_eq (feed : α) (stream : List α) :
    ∃ pieces rest, stream.splitOn feed = pieces ++ [rest] :=
  ⟨_, _, (List.dropLast_concat_getLast (List.splitOn_ne_nil feed stream)).symm⟩

theorem linesOf_eq (h : stream.splitOn feed = pieces ++ [rest]) :
    linesOf feed returning stream = (pieces.map fun piece =>
      if piece.getLast? = some returning then piece.dropLast else piece) ++
        if rest = [] then [] else [rest] := by
  simp only [linesOf, h, List.dropLast_concat, List.getLast?_concat]
  cases rest <;> simp

end Lines

/-- The pieces between the feeds of a text, of which an empty last one does not count. -/
def feedLines (text : Text) : List Text :=
  let pieces := text.splitOn '\n'
  if pieces.getLast? = some [] then pieces.dropLast else pieces

section

variable {text line rest : Text} {pieces : List Text}

theorem feedLines_eq (h : text.splitOn '\n' = pieces ++ [rest]) :
    feedLines text = pieces ++ if rest = [] then [] else [rest] := by
  simp only [feedLines, h, List.dropLast_concat, List.getLast?_concat, Option.some.injEq]
  split <;> simp

theorem feedLines_append (h : '\n' ∉ line) (text : Text) :
    feedLines (line ++ '\n' :: text) = line :: feedLines text := by
  obtain ⟨pieces, rest, hp⟩ := exists_splitOn_eq '\n' text
  rw [feedLines_eq hp, ← List.cons_append]
  refine feedLines_eq ?_
  rw [List.splitOn_append_cons_self_of_not_mem h, hp, List.cons_append]

theorem feedLines_feed (text : Text) : feedLines ('\n' :: text) = [] :: feedLines text :=
  feedLines_append List.not_mem_nil text

theorem feedLines_cons {c : Char} (h : c ≠ '\n') (text : Text) :
    feedLines (c :: text) = match feedLines text with
      | [] => [[c]]
      | line :: lines => (c :: line) :: lines := by
  obtain ⟨pieces, rest, hp⟩ := exists_splitOn_eq '\n' text
  have hc : (c :: text).splitOn '\n' = (pieces ++ [rest]).modifyHead (c :: ·) := by
    rw [List.splitOn_cons_eq_if_modifyHead, if_neg (by simpa using h), hp]
  rw [feedLines_eq hp]
  cases pieces with
  | nil =>
    rw [feedLines_eq (show _ = [] ++ [c :: rest] from hc)]
    cases rest <;> rfl
  | cons piece pieces =>
    rw [feedLines_eq (show _ = (c :: piece) :: pieces ++ [rest] from hc)]
    rfl

end

/-- The lines of a script and its pieces differ only in line ends behind them. -/
theorem map_scriptLines (script : Text) :
    (scriptLines script).map (dropEndWhile isLineEnd) =
      (feedLines script).map (dropEndWhile isLineEnd) := by
  have hr (piece : Text) : dropEndWhile isLineEnd
      (if piece.getLast? = some '\r' then piece.dropLast else piece) =
        dropEndWhile isLineEnd piece := by
    split
    case isTrue hl =>
      obtain ⟨front, rfl⟩ := List.getLast?_eq_some_iff.mp hl
      rw [List.dropLast_concat, dropEndWhile_append_of_all (by decide)]
    case isFalse => rfl
  obtain ⟨pieces, rest, hp⟩ := exists_splitOn_eq '\n' script
  rw [scriptLines, linesOf_eq hp, feedLines_eq hp, List.map_append, List.map_append, List.map_map]
  exact congrArg (· ++ _) (List.map_congr_left fun piece _ => hr piece)

/-- `WithReturns text written`: `written` is `text` with returns put before some of its feeds. -/
inductive WithReturns : Text → Text → Prop
  | nil : WithReturns [] []
  | keep (c : Char) {text written : Text} :
    WithReturns text written → WithReturns (c :: text) (c :: written)
  | feed (returns : Nat) {text written : Text} : WithReturns text written →
    WithReturns ('\n' :: text) (List.replicate returns '\r' ++ '\n' :: written)

theorem WithReturns.refl (text : Text) : WithReturns text text := by
  induction text with
  | nil => exact .nil
  | cons c text ih => exact .keep c ih

theorem WithReturns.append_left {text written : Text} (h : WithReturns text written)
    (front : Text) : WithReturns (front ++ text) (front ++ written) := by
  induction front with
  | nil => exact h
  | cons c front ih => exact .keep c ih

theorem WithReturns.map_feedLines {text written : Text} (h : WithReturns text written) :
    (feedLines written).map (dropEndWhile isLineEnd) =
      (feedLines text).map (dropEndWhile isLineEnd) := by
  induction h with
  | nil => rfl
  | @keep c text written _ ih =>
    by_cases hc : c = '\n'
    · rw [hc, feedLines_feed, feedLines_feed, List.map_cons, List.map_cons, ih]
    · -- The character goes into the first lines, which differ in their ends only.
      rw [feedLines_cons hc, feedLines_cons hc]
      match feedLines written, feedLines text, ih with
      | [], [], _ => rfl
      | line :: lines, other :: others, ih =>
        rw [List.map_cons, List.map_cons, List.cons.injEq] at ih
        rw [List.map_cons, List.map_cons, dropEndWhile_cons_congr ih.1, ih.2]
  | @feed returns text written _ ih =>
    have hn : '\n' ∉ List.replicate returns '\r' := by simp
    have hd : dropEndWhile isLineEnd (List.replicate returns '\r') = [] :=
      dropEndWhile_append_of_all (by simp [isLineEnd]) []
    rw [feedLines_append hn, feedLines_feed, List.map_cons, List.map_cons, hd, ih]
    rfl

theorem WithReturns.map_scriptLines {text written : Text} (h : WithReturns text written) :
    (scriptLines written).map (dropEndWhile isLineEnd) =
      (scriptLines text).map (dropEndWhile isLineEnd) := by
  rw [LineScript.map_scriptLines, h.map_feedLines, LineScript.map_scriptLines]

end LineScript
