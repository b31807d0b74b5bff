import LineScript.Text.Quoted

namespace LineScript.Text

/-- How many quotes a reader meets who goes from left to right and takes every backslash together
with the character after it. -/
def unescapedQuotes (text : Text) : Nat :=
  (glyphs text).count .quote

def QuoteFree (text : Text) : Prop :=
  unescapedQuotes text = 0

instance (text : Text) : Decidable (QuoteFree text) :=
  inferInstanceAs (Decidable (unescapedQuotes text = 0))

/-- Texts behind which reading starts afresh. -/
def Settled (front : Text) : Prop :=
  front.getLast? ≠ some '\\'

theorem settled_append_singleton (front : Text) {c : Char} (h : c ≠ '\\') :
    Settled (front ++ [c]) := by
  simpa [Settled] using h

theorem Settled.tail {c : Char} {rest : Text} (h : Settled (c :: rest)) : Settled rest := by
  cases rest with
  | nil => simp [Settled]
  | cons d rest => simpa only [Settled, List.getLast?_cons_cons] using h

theorem glyphs_cons {c : Char} (h : c ≠ '\\') (rest : Text) :
    glyphs (c :: rest) = .plain c :: glyphs rest := by
  rw [glyphs]
  intro d tail hc
  exact absurd hc h

@[elab_as_elim]
theorem glyph_induction {motive : Text → Prop} (nil : motive []) (lone : motive ['\\'])
    (escaped : ∀ c rest, motive rest → motive ('\\' :: c :: rest))
    (plain : ∀ c rest, c ≠ '\\' → motive rest → motive (c :: rest)) (text : Text) :
    motive text := by
  fun_induction glyphs text with
  | case1 => exact nil
  | case2 c rest ih => exact escaped c rest ih
  | case3 c rest hc ih =>
    by_cases hb : c = '\\'
    · subst hb
      cases rest with
      | nil => exact lone
      | cons d rest => exact absurd rfl (hc d rest rfl)
    · exact plain c rest hb ih

theorem quoteFree_nil : QuoteFree [] := rfl

theorem quoteFree_lone : QuoteFree ['\\'] := rfl

theorem quoteFree_escaped_iff {c : Char} {rest : Text} :
    QuoteFree ('\\' :: c :: rest) ↔ QuoteFree rest := by
  simp [QuoteFree, unescapedQuotes, glyphs, Glyph.quote]

theorem quoteFree_plain_iff {c : Char} (h : c ≠ '\\') {rest : Text} :
    QuoteFree (c :: rest) ↔ c ≠ '"' ∧ QuoteFree rest := by
  rw [QuoteFree, QuoteFree, unescapedQuotes, unescapedQuotes, glyphs_cons h, List.count_eq_zero,
    List.count_eq_zero, List.mem_cons, not_or, Glyph.quote, Glyph.plain.injEq, eq_comm]

theorem glyphs_append {front : Text} (h : Settled front) (back : Text) :
    glyphs (front ++ back) = glyphs front ++ glyphs back := by
  induction front using glyph_induction with
  | nil => rfl
  | lone => simp [Settled] at h
  | escaped c rest ih => simp only [List.cons_append, glyphs, ih h.tail.tail]
  | plain c rest hc ih => simp only [List.cons_append, glyphs_cons hc, ih h.tail]

theorem unescapedQuotes_append {front : Text} (h : Settled front) (back : Text) :
    unescapedQuotes (front ++ back) = unescapedQuotes front + unescapedQuotes back := by
  rw [unescapedQuotes, glyphs_append h, List.count_append]
  rfl

theorem QuoteFree.left {front back : Text} (h : QuoteFree (front ++ back)) : QuoteFree front := by
  induction front using glyph_induction with
  | nil => exact quoteFree_nil
  | lone => exact quoteFree_lone
  | escaped c rest ih => exact quoteFree_escaped_iff.mpr (ih (quoteFree_escaped_iff.mp h))
  | plain c rest hc ih =>
    obtain ⟨hq, h⟩ := (quoteFree_plain_iff hc).mp h
    exact (quoteFree_plain_iff hc).mpr ⟨hq, ih h⟩

theorem QuoteFree.right {front back : Text} (h : QuoteFree (front ++ back)) (hf : Settled front) :
    QuoteFree back := by
  rw [QuoteFree, unescapedQuotes_append hf] at h
  exact Nat.eq_zero_of_add_eq_zero_left h

theorem QuoteFree.append {front back : Text} (hf : QuoteFree front) (hb : QuoteFree back)
    (h : back.head? ≠ some '\\') : QuoteFree (front ++ back) := by
  induction front using glyph_induction with
  | nil => exact hb
  | lone =>
    cases back with
    | nil => exact quoteFree_lone
    | cons d back =>
      have hd : d ≠ '\\' := by simpa using h
      exact quoteFree_escaped_iff.mpr ((quoteFree_plain_iff hd).mp hb).2
  | escaped c rest ih => exact quoteFree_escaped_iff.mpr (ih (quoteFree_escaped_iff.mp hf))
  | plain c rest hc ih =>
    obtain ⟨hq, hf⟩ := (quoteFree_plain_iff hc).mp hf
    exact (quoteFree_plain_iff hc).mpr ⟨hq, ih hf⟩

theorem quoteFree_of_notMem {text : Text} (h : '"' ∉ text) : QuoteFree text := by
  induction text using glyph_induction with
  | nil => exact quoteFree_nil
  | lone => exact quoteFree_lone
  | escaped c rest ih =>
    exact quoteFree_escaped_iff.mpr (ih fun hm => h (by simp [hm]))
  | plain c rest hc ih =>
    obtain ⟨hq, hr⟩ := not_or.mp (mt List.mem_cons.mpr h)
    exact (quoteFree_plain_iff hc).mpr ⟨Ne.symm hq, ih hr⟩

theorem quoteFree_of_plain {text : Text} (h : ∀ c ∈ text, c ≠ '\\' ∧ c ≠ '"') : QuoteFree text :=
  quoteFree_of_notMem fun hm => (h _ hm).2 rfl

theorem notMem_of_all {text : Text} {p : Char → Bool} {c : Char} (h : text.all p)
    (hc : p c = false) : c ∉ text := by
  intro hm
  rw [List.all_eq_true.mp h c hm] at hc
  cases hc

theorem quoteFree_of_all {text : Text} {p : Char → Bool} (h : text.all p) (hb : p '\\' = false)
    (hq : p '"' = false) : QuoteFree text := by
  refine quoteFree_of_plain fun c hc => ⟨?_, ?_⟩
  · rintro rfl
    exact notMem_of_all h hb hc
  · rintro rfl
    exact notMem_of_all h hq hc

theorem stretches_of_notMem {gs : List Glyph} (h : Glyph.quote ∉ gs) : stretches gs = [gs] := by
  induction gs with
  | nil => rfl
  | cons g gs ih =>
    obtain ⟨hg, h⟩ := not_or.mp (mt List.mem_cons.mpr h)
    rw [stretches, if_neg (Ne.symm hg), ih h, List.modifyHead_cons]

theorem mem_modifyHead {gs : List Glyph} {g : Glyph} {ss : List (List Glyph)}
    (h : gs ∈ ss.modifyHead (g :: ·)) : gs ∈ ss ∨ ∃ head ∈ ss, gs = g :: head := by
  cases ss with
  | nil => exact .inl h
  | cons head others =>
    rw [List.modifyHead_cons, List.mem_cons] at h
    obtain rfl | h := h
    · exact .inr ⟨head, List.mem_cons_self, rfl⟩
    · exact .inl (List.mem_cons_of_mem head h)

theorem quoteFree_of_mem_stretches (text : Text) :
    ∀ gs ∈ stretches (glyphs text), QuoteFree (gs.flatMap Glyph.written) := by
  induction text using glyph_induction with
  | nil => simp [glyphs, stretches, quoteFree_nil]
  | lone => simp [glyphs, stretches, Glyph.quote, Glyph.written, quoteFree_lone]
  | escaped c rest ih =>
    intro gs h
    rw [glyphs, stretches, if_neg (by simp [Glyph.quote])] at h
    obtain h | ⟨head, hm, rfl⟩ := mem_modifyHead h
    · exact ih gs h
    · exact quoteFree_escaped_iff.mpr (ih head hm)
  | plain c rest hc ih =>
    intro gs h
    rw [glyphs_cons hc, stretches] at h
    by_cases hq : c = '"'
    · rw [if_pos (by rw [hq, Glyph.quote]), List.mem_cons] at h
      obtain rfl | h := h
      · exact quoteFree_nil
      · exact ih gs h
    · rw [if_neg (by simpa [Glyph.quote] using hq)] at h
      obtain h | ⟨head, hm, rfl⟩ := mem_modifyHead h
      · exact ih gs h
      · exact (quoteFree_plain_iff hc).mpr ⟨hq, ih head hm⟩

theorem literals_eq (text : Text) : ∃ lead rest, stretches (glyphs text) = lead :: rest ∧
    literals text = ⟨lead.flatMap Glyph.written, (alternate rest).1, (alternate rest).2⟩ := by
  have hlen := length_stretches (glyphs text)
  cases hs : stretches (glyphs text) with
  | nil => simp [hs] at hlen
  | cons lead rest => exact ⟨lead, rest, rfl, by rw [literals, hs]⟩

theorem quoteFree_lead (text : Text) : QuoteFree (literals text).lead := by
  obtain ⟨lead, rest, hs, hl⟩ := literals_eq text
  rw [hl]
  exact quoteFree_of_mem_stretches text lead (hs ▸ List.mem_cons_self)

theorem mem_of_mem_alternate {ss : List (List Glyph)} {literal after : Text}
    (h : (literal, after) ∈ (alternate ss).1) : ∃ gs ∈ ss, after = gs.flatMap Glyph.written := by
  fun_induction alternate ss with
  | case1 => cases h
  | case2 => cases h
  | case3 quotation stretch rest quoted closed hr ih =>
    rw [hr] at ih
    obtain h | h := List.mem_cons.mp h
    · exact ⟨stretch, by simp, (Prod.mk.inj h).2⟩
    · obtain ⟨gs, hm, he⟩ := ih h
      exact ⟨gs, by simp [hm], he⟩

theorem quoteFree_after {text literal after : Text}
    (h : (literal, after) ∈ (literals text).quoted) : QuoteFree after := by
  obtain ⟨lead, rest, hs, hl⟩ := literals_eq text
  rw [hl] at h
  obtain ⟨gs, hm, rfl⟩ := mem_of_mem_alternate h
  exact quoteFree_of_mem_stretches text gs (hs ▸ List.mem_cons_of_mem lead hm)

theorem literals_of_quoteFree {text : Text} (h : QuoteFree text) :
    literals text = ⟨text, [], true⟩ := by
  rw [literals, stretches_of_notMem (List.count_eq_zero.mp h)]
  simp only [alternate, flatMap_written_glyphs]

theorem length_quoted (text : Text) :
    (literals text).quoted.length = unescapedQuotes text / 2 := by
  obtain ⟨lead, rest, hs, hl⟩ := literals_eq text
  have hlen := length_stretches (glyphs text)
  rw [hs, List.length_cons, Nat.add_right_cancel_iff] at hlen
  rw [hl, length_alternate, hlen, unescapedQuotes]

theorem closed_eq (text : Text) : (literals text).closed = (unescapedQuotes text % 2 == 0) := by
  obtain ⟨lead, rest, hs, hl⟩ := literals_eq text
  have hlen := length_stretches (glyphs text)
  rw [hs, List.length_cons, Nat.add_right_cancel_iff] at hlen
  rw [hl, alternate_closed, hlen, unescapedQuotes]

end LineScript.Text
