import LineScript.Proofs.Text.Literals

namespace LineScript.Text

/-- A lead with the inner texts behind it, each followed by the segment after it. -/
def interleave (lead : Text) (inner segments : List Text) : Text :=
  lead ++ (List.zipWith (· ++ ·) inner segments).flatten

theorem interleave_cons (lead text segment : Text) (inner segments : List Text) :
    interleave lead (text :: inner) (segment :: segments) =
      lead ++ (text ++ interleave segment inner segments) := by
  simp [interleave]

namespace Literals

def contents (found : Literals) : List Text :=
  found.quoted.map Prod.fst

def segments (found : Literals) : List Text :=
  found.quoted.map Prod.snd

theorem length_contents (found : Literals) : found.contents.length = found.segments.length := by
  rw [contents, segments, List.length_map, List.length_map]

end Literals

section Reading

theorem quote_notMem_of_mem_stretches {gs : List Glyph} :
    ∀ stretch ∈ stretches gs, Glyph.quote ∉ stretch := by
  induction gs with
  | nil => simp [stretches]
  | cons g gs ih =>
    intro stretch h
    rw [stretches] at h
    split at h
    next =>
      obtain rfl | h := List.mem_cons.mp h
      · exact List.not_mem_nil
      · exact ih stretch h
    next hg =>
      obtain h | ⟨head, hm, rfl⟩ := mem_modifyHead h
      · exact ih stretch h
      · exact List.not_mem_cons_of_ne_of_not_mem (Ne.symm hg) (ih head hm)

theorem flatMap_written_stretches {gs lead : List Glyph} {others : List (List Glyph)}
    (h : stretches gs = lead :: others) : gs.flatMap Glyph.written =
      lead.flatMap Glyph.written ++ others.flatMap fun stretch =>
        '"' :: stretch.flatMap Glyph.written := by
  induction gs generalizing lead others with
  | nil =>
    obtain ⟨rfl, rfl⟩ := List.cons.inj h
    rfl
  | cons g gs ih =>
    obtain ⟨first, rest, hs⟩ := List.exists_cons_of_ne_nil
      (List.ne_nil_of_length_eq_add_one (length_stretches gs))
    rw [stretches, hs] at h
    split at h
    next hg =>
      obtain ⟨rfl, rfl⟩ := List.cons.inj h
      rw [List.flatMap_cons, List.flatMap_cons, ih hs, hg]
      rfl
    next =>
      obtain ⟨rfl, rfl⟩ := List.cons.inj h
      rw [List.flatMap_cons, List.flatMap_cons, ih hs, List.append_assoc]

theorem flatMap_literalChar_meant {g : Glyph} (h : .quote ≠ g) :
    g.meant.flatMap literalChar = g.written := by
  cases g with
  | plain c =>
    have hc : c ≠ '"' := fun hc => h (by rw [hc, Glyph.quote])
    change [c].flatMap literalChar = [c]
    rw [List.flatMap_singleton, literalChar_of_ne hc]
  | escaped c =>
    by_cases hc : c = '"'
    · subst hc
      rfl
    · rw [Glyph.meant_escaped hc, Glyph.written, List.flatMap_cons, List.flatMap_singleton,
        literalChar_of_ne hc]
      rfl

theorem quote_flatMap_meant {gs : List Glyph} (h : Glyph.quote ∉ gs) :
    quote (gs.flatMap Glyph.meant) = '"' :: (gs.flatMap Glyph.written ++ ['"']) := by
  have hall : ∀ g ∈ gs, g.meant.flatMap literalChar = g.written := fun g hg =>
    flatMap_literalChar_meant fun he => h (he ▸ hg)
  have hbody : (gs.flatMap Glyph.meant).flatMap literalChar = gs.flatMap Glyph.written := by
    rw [List.flatMap_assoc, List.flatMap_def, List.map_congr_left hall, ← List.flatMap_def]
  rw [← List.append_nil (quote _), quote_append, hbody]

theorem flatMap_quote_alternate {ss : List (List Glyph)}
    (hq : ∀ stretch ∈ ss, Glyph.quote ∉ stretch) (hc : (alternate ss).2 = true) :
    (alternate ss).1.flatMap (fun pair => quote pair.1 ++ pair.2) =
      ss.flatMap fun stretch => '"' :: stretch.flatMap Glyph.written := by
  fun_induction alternate ss with
  | case1 => rfl
  | case2 => cases hc
  | case3 literal after rest quoted closed hr ih =>
    rw [hr] at ih
    obtain ⟨hliteral, hrest⟩ := List.forall_mem_cons.mp hq
    have ih := ih (List.forall_mem_cons.mp hrest).2 hc
    rw [List.flatMap_cons, List.flatMap_cons, List.flatMap_cons, ih, quote_flatMap_meant hliteral]
    simp

/-- A text whose last literal is closed consists of its segments and the literals between them. -/
theorem interleave_literals {text : Text} (h : (literals text).closed = true) :
    interleave (literals text).lead ((literals text).contents.map quote)
      (literals text).segments = text := by
  obtain ⟨lead, others, hs, hl⟩ := literals_eq text
  have hq : ∀ stretch ∈ others, Glyph.quote ∉ stretch := fun stretch hm =>
    quote_notMem_of_mem_stretches stretch (hs ▸ List.mem_cons_of_mem lead hm)
  rw [hl] at h ⊢
  rw [interleave, Literals.contents, Literals.segments, List.map_map, List.zipWith_map,
    List.zipWith_self, ← List.flatMap_def]
  calc lead.flatMap Glyph.written ++
        (alternate others).1.flatMap (fun pair => quote pair.1 ++ pair.2)
      = (glyphs text).flatMap Glyph.written := by
        rw [flatMap_quote_alternate hq h, flatMap_written_stretches hs]
    _ = text := flatMap_written_glyphs text

end Reading

theorem literals_interleave {lead : Text} {contents segments : List Text}
    (hl : contents.length = segments.length) (hs : ∀ segment ∈ lead :: segments, Segment segment)
    (hc : ∀ literal ∈ contents, Content literal) :
    literals (interleave lead (contents.map quote) segments) =
      ⟨lead, contents.zip segments, true⟩ := by
  induction contents generalizing lead segments with
  | nil =>
    obtain ⟨hlead, -⟩ := List.forall_mem_cons.mp hs
    cases List.length_eq_zero_iff.mp hl.symm
    rw [interleave, hlead.literals_append]
    simp [literals, glyphs, stretches, alternate]
  | cons literal contents ih =>
    cases segments with
    | nil => cases hl
    | cons segment segments =>
      obtain ⟨hlead, hs⟩ := List.forall_mem_cons.mp hs
      obtain ⟨hliteral, hc⟩ := List.forall_mem_cons.mp hc
      rw [List.map_cons, interleave_cons, hlead.literals_append, literals_quote hliteral,
        ih (Nat.succ.inj hl) hs hc]
      simp

section Lifting

variable {m : Type → Type} [Monad m] [LawfulMonad m]

theorem mapM_pieces (bind : Text → m Text) (quoted : List (Text × Text)) :
    (quoted.mapM fun (literal, after) => do
      let name ← bind literal
      pure (name ++ after)) =
      (fun names => List.zipWith (· ++ ·) names (quoted.map Prod.snd)) <$>
        (quoted.map Prod.fst).mapM bind := by
  induction quoted with
  | nil => simp
  | cons pair quoted ih =>
    obtain ⟨literal, after⟩ := pair
    rw [List.mapM_cons, ih]
    simp [List.mapM_cons]

theorem extractLiterals_eq (bind : Text → m Text) (text : Text) :
    extractLiterals bind text = (literals text).contents.mapM bind >>= fun names =>
      pure (if (literals text).closed then
        some (interleave (literals text).lead names (literals text).segments) else none) := by
  rw [extractLiterals, mapM_pieces]
  simp only [bind_map_left, interleave, Literals.contents, Literals.segments]

end Lifting

section

variable {σ : Type} {bind : Text → StateM σ Text} {s t : σ} {text output : Text}

theorem length_mapM_run (bind : Text → StateM σ Text) (contents : List Text) (s : σ) :
    (contents.mapM bind s).1.length = contents.length := by
  induction contents generalizing s with
  | nil => rfl
  | cons literal contents ih =>
    rw [List.mapM_cons]
    exact congrArg Nat.succ (ih _)

theorem extractLiterals_run (bind : Text → StateM σ Text) (text : Text) (s : σ) :
    extractLiterals bind text s =
      (if (literals text).closed then
          some (interleave (literals text).lead ((literals text).contents.mapM bind s).1
            (literals text).segments)
        else none, ((literals text).contents.mapM bind s).2) := by
  rw [extractLiterals_eq]
  rfl

end

theorem quoteFree_segment (text : Text) :
    ∀ segment ∈ (literals text).lead :: (literals text).segments, QuoteFree segment := by
  refine List.forall_mem_cons.mpr ⟨quoteFree_lead text, fun segment h => ?_⟩
  obtain ⟨pair, hp, rfl⟩ := List.mem_map.mp h
  exact quoteFree_after hp

/-- A text out of which literals were lifted consists of these literals, written with their quotes,
and of segments without unescaped quotes, and what is left consists of the names and the same
segments. Conversely, of a text that is put together from segments and literals exactly these
literals are bound, in their order, and what is left has their names. Binding a literal may do
anything to the state it is done in, and give any name. -/
theorem extractLiterals_lossless {σ : Type} (bind : Text → StateM σ Text) (s : σ) :
    (∀ text output t, extractLiterals bind text s = (some output, t) →
      ∃ (lead : Text) (contents names segments : List Text),
        contents.mapM bind s = (names, t) ∧
        contents.length = segments.length ∧ names.length = segments.length ∧
        (∀ segment ∈ lead :: segments, QuoteFree segment) ∧
        text = interleave lead (contents.map quote) segments ∧
        output = interleave lead names segments) ∧
    ∀ (lead : Text) (contents segments : List Text), contents.length = segments.length →
      (∀ segment ∈ lead :: segments, Segment segment) →
      (∀ literal ∈ contents, Content literal) →
      ∃ names t, contents.mapM bind s = (names, t) ∧ names.length = segments.length ∧
        extractLiterals bind (interleave lead (contents.map quote) segments) s =
          (some (interleave lead names segments), t) := by
  refine ⟨fun text output t h => ?_, fun lead contents segments hl hs hc => ?_⟩
  · let found := literals text
    rw [extractLiterals_run] at h
    obtain ⟨ho, ht⟩ := Prod.mk.inj h
    split at ho
    next hclosed =>
      have hnames := length_mapM_run bind found.contents s
      refine ⟨found.lead, found.contents, (found.contents.mapM bind s).1, found.segments,
        Prod.ext rfl ht, found.length_contents, hnames.trans found.length_contents,
        quoteFree_segment text, (interleave_literals hclosed).symm, (Option.some.inj ho).symm⟩
    next => cases ho
  · refine ⟨(contents.mapM bind s).1, (contents.mapM bind s).2, rfl,
      (length_mapM_run bind contents s).trans hl, ?_⟩
    have hcontents : (contents.zip segments).map Prod.fst = contents :=
      List.map_fst_zip (Nat.le_of_eq hl)
    have hsegments : (contents.zip segments).map Prod.snd = segments :=
      List.map_snd_zip (Nat.le_of_eq hl.symm)
    rw [extractLiterals_run, literals_interleave hl hs hc]
    simp only [Literals.contents, Literals.segments, hcontents, hsegments, if_true]

def keepLiteral (literal : Text) : StateM (List Text) Text :=
  modifyGet fun kept => (['x'], kept ++ [literal])

theorem extractLiterals_lossless_escaped :
    extractLiterals keepLiteral ['\\', '"', '"', 'b', '\\', '"', '"', '"', '"', '\\', '\\'] [] =
      (some ['\\', '"', 'x', 'x', '\\', '\\'], [['b', '"'], []]) ∧
    ∃ (lead : Text) (contents names segments : List Text),
      contents.mapM keepLiteral [] = (names, [['b', '"'], []]) ∧
      ['\\', '"', '"', 'b', '\\', '"', '"', '"', '"', '\\', '\\'] =
        interleave lead (contents.map quote) segments ∧
      ['\\', '"', 'x', 'x', '\\', '\\'] = interleave lead names segments := by
  have hs : ∀ segment ∈ [['\\', '"'], [], ['\\', '\\']], Segment segment :=
    List.forall_mem_cons.mpr ⟨.escaped '"' .nil, List.forall_mem_cons.mpr ⟨.nil,
      List.forall_mem_singleton.mpr (.escaped '\\' .nil)⟩⟩
  have hc : ∀ literal ∈ [['b', '"'], []], Content literal :=
    List.forall_mem_cons.mpr ⟨.of_notMem (by decide), List.forall_mem_singleton.mpr .nil⟩
  obtain ⟨hread, hwrite⟩ := extractLiterals_lossless keepLiteral []
  obtain ⟨names, t, hm, -, ho⟩ := hwrite ['\\', '"'] [['b', '"'], []] [[], ['\\', '\\']] rfl hs hc
  obtain ⟨rfl, rfl⟩ := Prod.mk.inj hm
  obtain ⟨lead, contents, names, segments, hm, -, -, -, ht, hl⟩ := hread _ _ _ ho
  exact ⟨ho, lead, contents, names, segments, hm, ht, hl⟩

end LineScript.Text
