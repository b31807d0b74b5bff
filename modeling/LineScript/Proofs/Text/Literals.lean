import LineScript.Proofs.Text.Quotes

namespace LineScript.Text

/-- Texts that consist of characters other than quotes and backslashes, and of backslashes with any
character after them. -/
inductive Segment : Text → Prop where
  | nil : Segment []
  | plain {c : Char} {rest : Text} : c ≠ '\\' → c ≠ '"' → Segment rest → Segment (c :: rest)
  | escaped (c : Char) {rest : Text} : Segment rest → Segment ('\\' :: c :: rest)

theorem Segment.of_plain {text : Text} (h : ∀ c ∈ text, c ≠ '\\' ∧ c ≠ '"') : Segment text := by
  induction text with
  | nil => exact .nil
  | cons c text ih =>
    obtain ⟨hc, h⟩ := List.forall_mem_cons.mp h
    exact .plain hc.1 hc.2 (ih h)

/-- Texts that consist of characters other than backslashes, and of backslashes with a character
after them that is no quote. -/
inductive Content : Text → Prop where
  | nil : Content []
  | plain {c : Char} {rest : Text} : c ≠ '\\' → Content rest → Content (c :: rest)
  | escaped {c : Char} {rest : Text} : c ≠ '"' → Content rest → Content ('\\' :: c :: rest)

theorem Content.of_notMem {literal : Text} (h : '\\' ∉ literal) : Content literal := by
  induction literal with
  | nil => exact .nil
  | cons c literal ih =>
    obtain ⟨hc, h⟩ := not_or.mp (mt List.mem_cons.mpr h)
    exact .plain (Ne.symm hc) (ih h)

def literalChar (c : Char) : Text :=
  if c = '"' then ['\\', '"'] else [c]

theorem literalChar_of_ne {c : Char} (h : c ≠ '"') : literalChar c = [c] :=
  if_neg h

theorem quote_append (literal rest : Text) :
    quote literal ++ rest = '"' :: (literal.flatMap literalChar ++ '"' :: rest) := by
  change ('"' :: literal.flatMap literalChar ++ ['"']) ++ rest = _
  simp

theorem Glyph.escaped_ne_quote (c : Char) : .quote ≠ escaped c := by
  simp [quote]

theorem Glyph.plain_ne_quote {c : Char} (h : c ≠ '"') : .quote ≠ plain c := by
  simpa [quote] using Ne.symm h

theorem Glyph.meant_escaped {c : Char} (h : c ≠ '"') : (escaped c).meant = ['\\', c] := by
  rw [meant.eq_def]
  split
  next he => exact absurd (escaped.inj he) h
  next => rfl

theorem Content.glyphs {literal : Text} (h : Content literal) : ∃ body, .quote ∉ body ∧
    body.flatMap Glyph.meant = literal ∧ ∀ rest, Text.glyphs (literal.flatMap literalChar ++ rest) =
      body ++ Text.glyphs rest := by
  induction h with
  | nil => exact ⟨[], List.not_mem_nil, rfl, fun _ => rfl⟩
  | @plain c literal hc _ ih =>
    obtain ⟨body, hbody, hmeant, hg⟩ := ih
    by_cases hq : c = '"'
    · subst hq
      refine ⟨.escaped '"' :: body,
        List.not_mem_cons_of_ne_of_not_mem (Glyph.escaped_ne_quote '"') hbody, ?_, fun rest => ?_⟩
      · rw [List.flatMap_cons, hmeant, Glyph.meant, List.singleton_append]
      · exact congrArg (Glyph.escaped '"' :: ·) (hg rest)
    · refine ⟨.plain c :: body,
        List.not_mem_cons_of_ne_of_not_mem (Glyph.plain_ne_quote hq) hbody, ?_, fun rest => ?_⟩
      · rw [List.flatMap_cons, hmeant]
        rfl
      · rw [List.flatMap_cons, literalChar_of_ne hq, List.append_assoc, List.singleton_append,
          glyphs_cons hc, hg]
        rfl
  | @escaped c literal hc _ ih =>
    obtain ⟨body, hbody, hmeant, hg⟩ := ih
    refine ⟨.escaped c :: body,
      List.not_mem_cons_of_ne_of_not_mem (Glyph.escaped_ne_quote c) hbody, ?_, fun rest => ?_⟩
    · rw [List.flatMap_cons, hmeant, Glyph.meant_escaped hc]
      rfl
    · rw [List.flatMap_cons, List.flatMap_cons, literalChar_of_ne (by decide : '\\' ≠ '"'),
        literalChar_of_ne hc]
      exact congrArg (Glyph.escaped c :: ·) (hg rest)

theorem stretches_append_quote {gs : List Glyph} (h : Glyph.quote ∉ gs) (rest : List Glyph) :
    stretches (gs ++ .quote :: rest) = gs :: stretches rest := by
  induction gs with
  | nil => rw [List.nil_append, stretches, if_pos rfl]
  | cons g gs ih =>
    obtain ⟨hg, h⟩ := not_or.mp (mt List.mem_cons.mpr h)
    rw [List.cons_append, stretches, if_neg (Ne.symm hg), ih h, List.modifyHead_cons]

theorem literals_of_glyphs {text rest : Text} {g : Glyph} (hg : .quote ≠ g)
    (h : glyphs text = g :: glyphs rest) : literals text =
      ⟨g.written ++ (literals rest).lead, (literals rest).quoted, (literals rest).closed⟩ := by
  obtain ⟨lead, others, hs, hl⟩ := literals_eq rest
  rw [hl, literals, h, stretches, if_neg hg.symm, hs]
  rfl

theorem literals_cons {c : Char} (hb : c ≠ '\\') (hq : c ≠ '"') (rest : Text) :
    literals (c :: rest) =
      ⟨c :: (literals rest).lead, (literals rest).quoted, (literals rest).closed⟩ :=
  literals_of_glyphs (Glyph.plain_ne_quote hq) (glyphs_cons hb rest)

theorem Segment.literals_append {segment : Text} (h : Segment segment) (rest : Text) :
    literals (segment ++ rest) =
      ⟨segment ++ (literals rest).lead, (literals rest).quoted, (literals rest).closed⟩ := by
  induction h with
  | nil => rfl
  | plain hb hq _ ih => rw [List.cons_append, literals_cons hb hq, ih, List.cons_append]
  | @escaped c segment _ ih =>
    have hg : glyphs ('\\' :: c :: (segment ++ rest)) = .escaped c :: glyphs (segment ++ rest) :=
      rfl
    rw [List.cons_append, List.cons_append, literals_of_glyphs (Glyph.escaped_ne_quote c) hg, ih]
    rfl

theorem literals_quote {literal : Text} (h : Content literal) (rest : Text) :
    literals (quote literal ++ rest) =
      ⟨[], (literal, (literals rest).lead) :: (literals rest).quoted, (literals rest).closed⟩ := by
  obtain ⟨lead, others, hs, hl⟩ := literals_eq rest
  obtain ⟨body, hbody, hmeant, hg⟩ := h.glyphs
  have hgs : glyphs (quote literal ++ rest) = .quote :: (body ++ .quote :: glyphs rest) := by
    rw [quote_append, glyphs_cons (by decide), hg, glyphs_cons (by decide)]
    rfl
  have hss : stretches (glyphs (quote literal ++ rest)) = [] :: body :: lead :: others := by
    rw [hgs, stretches, if_pos rfl, stretches_append_quote hbody, hs]
  rw [hl, literals, hss]
  simp only [alternate, hmeant, List.flatMap_nil]

section Behind

variable {c : Char}

/-- The same stretches, but with a character more in the last of them. -/
def LongerBy (c : Char) (ss ss' : List (List Glyph)) : Prop :=
  ∃ front last last', ss = front ++ [last] ∧ ss' = front ++ [last'] ∧
    last'.flatMap Glyph.written = last.flatMap Glyph.written ++ [c]

theorem LongerBy.modifyHead {ss ss' : List (List Glyph)} (h : LongerBy c ss ss') (g : Glyph) :
    LongerBy c (ss.modifyHead (g :: ·)) (ss'.modifyHead (g :: ·)) := by
  obtain ⟨front, last, last', rfl, rfl, hw⟩ := h
  cases front with
  | nil =>
    refine ⟨[], g :: last, g :: last', rfl, rfl, ?_⟩
    rw [List.flatMap_cons, List.flatMap_cons, hw, List.append_assoc]
  | cons first front => exact ⟨(g :: first) :: front, last, last', rfl, rfl, hw⟩

theorem longerBy_stretches (hb : c ≠ '\\') (hq : c ≠ '"') (text : Text) :
    LongerBy c (stretches (glyphs text)) (stretches (glyphs (text ++ [c]))) := by
  induction text using glyph_induction with
  | nil =>
    refine ⟨[], [], [.plain c], rfl, ?_, rfl⟩
    rw [List.nil_append, glyphs_cons hb, stretches, if_neg (Glyph.plain_ne_quote hq).symm]
    rfl
  | lone => exact ⟨[], [.plain '\\'], [.escaped c], by decide, rfl, rfl⟩
  | escaped d rest ih =>
    rw [List.cons_append, List.cons_append, glyphs, glyphs, stretches, stretches,
      if_neg (Glyph.escaped_ne_quote d).symm]
    exact ih.modifyHead (.escaped d)
  | plain d rest hd ih =>
    rw [List.cons_append, glyphs_cons hd, glyphs_cons hd, stretches, stretches]
    split
    next =>
      obtain ⟨front, last, last', hs, hs', hw⟩ := ih
      exact ⟨[] :: front, last, last', congrArg _ hs, congrArg _ hs', hw⟩
    next => exact ih.modifyHead (.plain d)

theorem alternate_append_singleton {last last' : List Glyph}
    (hw : last'.flatMap Glyph.written = last.flatMap Glyph.written ++ [c]) :
    ∀ front, ((alternate (front ++ [last])).2 = false ∧
        alternate (front ++ [last']) = alternate (front ++ [last])) ∨
      ∃ earlier literal after,
        alternate (front ++ [last]) = (earlier ++ [(literal, after)], true) ∧
        alternate (front ++ [last']) = (earlier ++ [(literal, after ++ [c])], true)
  | [] => .inl ⟨rfl, rfl⟩
  | [literal] => by
    refine .inr ⟨[], literal.flatMap Glyph.meant, last.flatMap Glyph.written, rfl, ?_⟩
    rw [← hw]
    rfl
  | literal :: after :: front => by
    obtain ⟨hopen, hs⟩ | ⟨earlier, literal', after', hs, hs'⟩ :=
      alternate_append_singleton hw front
    · refine .inl ⟨hopen, ?_⟩
      simp only [List.cons_append, alternate, hs]
    · refine .inr ⟨(literal.flatMap Glyph.meant, after.flatMap Glyph.written) :: earlier, literal',
        after', ?_, ?_⟩
      · simp only [List.cons_append, alternate, hs]
      · simp only [List.cons_append, alternate, hs']

/-- A character behind a text whose last literal is not closed is only part of that literal. Else it
stands behind the last literal, or behind the text if there are no literals. -/
theorem literals_append_singleton (hb : c ≠ '\\') (hq : c ≠ '"') (text : Text) :
    ((literals text).closed = false ∧ literals (text ++ [c]) = literals text) ∨
    (∃ lead, literals text = ⟨lead, [], true⟩ ∧ literals (text ++ [c]) = ⟨lead ++ [c], [], true⟩) ∨
    ∃ lead earlier literal after,
      literals text = ⟨lead, earlier ++ [(literal, after)], true⟩ ∧
      literals (text ++ [c]) = ⟨lead, earlier ++ [(literal, after ++ [c])], true⟩ := by
  obtain ⟨front, last, last', hs, hs', hw⟩ := longerBy_stretches hb hq text
  cases front with
  | nil =>
    refine .inr (.inl ⟨last.flatMap Glyph.written, ?_, ?_⟩)
    · rw [literals, hs]
      rfl
    · rw [literals, hs', ← hw]
      rfl
  | cons lead front =>
    rw [literals, hs, literals, hs']
    obtain ⟨hopen, ha⟩ | ⟨earlier, literal, after, ha, ha'⟩ := alternate_append_singleton hw front
    · refine .inl ⟨hopen, ?_⟩
      simp only [List.cons_append, ha]
    · refine .inr (.inr ⟨lead.flatMap Glyph.written, earlier, literal, after, ?_, ?_⟩)
      · simp only [List.cons_append, ha]
      · simp only [List.cons_append, ha']

end Behind

end LineScript.Text
