import LineScript.Proofs.Text.Splitting

namespace LineScript.Text

def brackets : List Char :=
  ['(', ')', '[', ']']

theorem notMem_brackets_iff {c : Char} :
    c ∉ brackets ↔ isOpening c = false ∧ isClosing c = false := by
  simp only [brackets, List.mem_cons, List.not_mem_nil, or_false, not_or, isOpening, isClosing,
    Bool.or_eq_false_iff, beq_eq_false_iff_ne]
  grind

theorem cutsAt_iff {mark c : Char} {depth : Nat} :
    cutsAt mark depth c ↔ c = mark ∧ depth = 0 ∧ mark ∉ brackets := by
  rw [notMem_brackets_iff]
  simp only [cutsAt, Bool.and_eq_true, Bool.not_eq_true', beq_iff_eq]
  grind

/-- Parts that could be those of a text that starts at depth `depth`: marks stand in brackets only,
and only the last part may leave brackets open. Behind a cut the depth is counted from zero. -/
inductive Parts (mark : Char) : Nat → List Text → Prop where
  | last {depth : Nat} {part : Text} : Clear mark depth part → Parts mark depth [part]
  | cut {depth : Nat} {part : Text} {rest : List Text} : Clear mark depth part →
    depthAfter depth part = 0 → Parts mark 0 rest → Parts mark depth (part :: rest)

namespace Parts

variable {mark : Char} {depth : Nat} {parts : List Text}

theorem ne_nil (h : Parts mark depth parts) : parts ≠ [] := by
  cases h <;> simp

theorem modifyHead {c : Char} (hc : c = mark → 0 < depth)
    (h : Parts mark (depthStep depth c) parts) :
    Parts mark depth (parts.modifyHead (c :: ·)) := by
  cases h with
  | last hclear => exact .last (Clear.cons_iff.mpr ⟨hc, hclear⟩)
  | cut hclear hclosed hrest => exact .cut (Clear.cons_iff.mpr ⟨hc, hclear⟩) hclosed hrest

theorem of_splitFrom (hm : mark ∉ brackets) (depth : Nat) (text : Text) :
    Parts mark depth (splitFrom mark depth text) := by
  induction text generalizing depth with
  | nil => exact .last .nil
  | cons c rest ih =>
    rw [splitFrom]
    split
    next hcut =>
      obtain ⟨-, rfl, -⟩ := cutsAt_iff.mp hcut
      exact .cut .nil rfl (ih 0)
    next hcut =>
      refine modifyHead (fun hc => ?_) (ih (depthStep depth c))
      by_contra hd
      exact hcut (cutsAt_iff.mpr ⟨hc, Nat.eq_zero_of_not_pos hd, hm⟩)

/-- The parts are found again in the text that they are joined to. -/
theorem splitFrom_join (hm : mark ∉ brackets) (h : Parts mark depth parts) :
    splitFrom mark depth (Text.join [mark] parts) = parts := by
  induction h with
  | @last depth part hclear =>
    have hs := hclear.splitFrom_append []
    rw [List.append_nil] at hs
    rw [Text.join, List.intercalate_singleton, hs, splitFrom, List.modifyHead_cons,
      List.append_nil]
  | @cut depth part rest hclear hclosed hrest ih =>
    obtain ⟨next, others, rfl⟩ := List.exists_cons_of_ne_nil hrest.ne_nil
    have hcut : cutsAt mark 0 mark := cutsAt_iff.mpr ⟨rfl, rfl, hm⟩
    rw [Text.join] at ih ⊢
    rw [List.intercalate_cons_cons, List.append_assoc, List.singleton_append,
      hclear.splitFrom_append, hclosed, splitFrom, if_pos hcut, ih, List.modifyHead_cons,
      List.append_nil]

theorem zero_iff : Parts mark 0 parts ↔ parts ≠ [] ∧ (∀ part ∈ parts, Clear mark 0 part) ∧
    ∀ part ∈ parts.dropLast, depthAfter 0 part = 0 := by
  constructor
  · intro h
    refine ⟨h.ne_nil, ?_⟩
    induction parts with
    | nil => exact absurd rfl h.ne_nil
    | cons part rest ih =>
      cases h with
      | last hclear => exact ⟨by simpa using hclear, by simp⟩
      | cut hclear hclosed hrest =>
        obtain ⟨hclears, hcloseds⟩ := ih hrest
        rw [List.dropLast_cons_of_ne_nil hrest.ne_nil]
        exact ⟨List.forall_mem_cons.mpr ⟨hclear, hclears⟩,
          List.forall_mem_cons.mpr ⟨hclosed, hcloseds⟩⟩
  · rintro ⟨hne, hclears, hcloseds⟩
    induction parts with
    | nil => exact absurd rfl hne
    | cons part rest ih =>
      obtain ⟨hclear, hclears⟩ := List.forall_mem_cons.mp hclears
      by_cases hrest : rest = []
      · subst hrest
        exact .last hclear
      · rw [List.dropLast_cons_of_ne_nil hrest] at hcloseds
        obtain ⟨hclosed, hcloseds⟩ := List.forall_mem_cons.mp hcloseds
        exact .cut hclear hclosed (ih hrest hclears hcloseds)

end Parts

variable {mark : Char} {text : Text} {parts : List Text}

theorem splitTopLevel_eq_iff_parts (hm : mark ∉ brackets) :
    splitTopLevel mark text = parts ↔ join [mark] parts = text ∧ Parts mark 0 parts := by
  constructor
  · rintro rfl
    exact ⟨join_splitFrom mark 0 text, .of_splitFrom hm 0 text⟩
  · rintro ⟨rfl, hp⟩
    exact hp.splitFrom_join hm

theorem splitTopLevel_of_mem_brackets (hm : mark ∈ brackets) (text : Text) :
    splitTopLevel mark text = [text] := by
  rw [splitTopLevel]
  generalize 0 = depth
  induction text generalizing depth with
  | nil => rfl
  | cons c rest ih =>
    have hcut : ¬cutsAt mark depth c := fun h => (cutsAt_iff.mp h).2.2 hm
    rw [splitFrom, if_neg hcut, ih, List.modifyHead_cons]

theorem splitTopLevel_of_mem {part : Text} (h : part ∈ splitTopLevel mark text) :
    splitTopLevel mark part = [part] := by
  by_cases hm : mark ∈ brackets
  · exact splitTopLevel_of_mem_brackets hm part
  · have hparts : Parts mark 0 (splitTopLevel mark text) := .of_splitFrom hm 0 text
    exact ((Parts.zero_iff.mp hparts).2.1 part h).splitTopLevel

/-- Splitting at a mark that is no bracket gives the one list of parts, and there is one, that is
joined to the text again, has no mark outside of brackets in any part, and has all brackets closed
behind every part but the last. No part can be split any further. At a bracket nothing is split. -/
theorem splitTopLevel_unique (mark : Char) (text : Text) :
    (mark ∉ brackets → ∀ parts, splitTopLevel mark text = parts ↔
      parts ≠ [] ∧ join [mark] parts = text ∧ (∀ part ∈ parts, Clear mark 0 part) ∧
        ∀ part ∈ parts.dropLast, depthAfter 0 part = 0) ∧
    (∀ part ∈ splitTopLevel mark text, splitTopLevel mark part = [part]) ∧
    (mark ∈ brackets → splitTopLevel mark text = [text]) := by
  refine ⟨fun hm parts => ?_, fun part hp => splitTopLevel_of_mem hp, fun hm =>
    splitTopLevel_of_mem_brackets hm text⟩
  rw [splitTopLevel_eq_iff_parts hm, Parts.zero_iff]
  exact and_left_comm

theorem splitTopLevel_unique_crossed :
    let text := ")a;[b;(c];d);;f(g;h".toList
    ';' ∉ brackets ∧
      splitTopLevel ';' text = [")a".toList, "[b;(c];d)".toList, [], "f(g;h".toList] ∧
      splitTopLevel ';' "[b;(c];d)".toList = ["[b;(c];d)".toList] ∧
      '(' ∈ brackets ∧ splitTopLevel '(' text = [text] := by
  intro text
  obtain ⟨hunique, hagain, -⟩ := splitTopLevel_unique ';' text
  obtain ⟨-, -, hbracket⟩ := splitTopLevel_unique '(' text
  have hparts : splitTopLevel ';' text = [")a".toList, "[b;(c];d)".toList, [], "f(g;h".toList] :=
    (hunique (by decide) _).mpr (by decide)
  refine ⟨by decide, hparts, hagain _ ?_, by decide, hbracket (by decide)⟩
  rw [hparts]
  simp

end LineScript.Text
