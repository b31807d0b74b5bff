import LineScript.Proofs.Text.Lossless

namespace LineScript.Text

section

variable {m : Type → Type} [Monad m] (bind : Text → m Text)

mutual

/-- Reads on between literals; `output` is what is left of the text so far. -/
def scanText (output : Text) : Text → m (Option Text)
  | [] => pure (some output)
  | '\\' :: c :: rest => scanText (output ++ ['\\', c]) rest
  | '"' :: rest => scanLiteral output [] rest
  | c :: rest => scanText (output ++ [c]) rest

def scanLiteral (output literal : Text) : Text → m (Option Text)
  | [] => pure none
  | '"' :: rest => do
    let name ← bind literal
    scanText (output ++ name) rest
  | '\\' :: '"' :: rest => scanLiteral output (literal ++ ['"']) rest
  | '\\' :: c :: rest => scanLiteral output (literal ++ ['\\', c]) rest
  | c :: rest => scanLiteral output (literal ++ [c]) rest

end

def liftBehind (output : Text) (quoted : List (Text × Text)) (closed : Bool) :
    m (Option Text) := do
  let pieces ← quoted.mapM fun (literal, after) => do
    let name ← bind literal
    pure (name ++ after)
  pure (if closed then some (output ++ pieces.flatten) else none)

def liftText (output text : Text) : m (Option Text) :=
  let found := literals text
  liftBehind bind (output ++ found.lead) found.quoted found.closed

/-- What reading on inside a literal comes to. The stretches are literals and texts after them by
turns, and the first one is the rest of the literal that is open. -/
def liftLiteral (output literal text : Text) : m (Option Text) :=
  let found := alternate (stretches (glyphs text))
  liftBehind bind output (found.1.modifyHead (Prod.map (literal ++ ·) id)) found.2

end

theorem alternate_modifyHead (g : Glyph) (ss : List (List Glyph)) :
    alternate (ss.modifyHead (g :: ·)) =
      ((alternate ss).1.modifyHead (Prod.map (g.meant ++ ·) id), (alternate ss).2) := by
  match ss with
  | [] => rfl
  | [_] => rfl
  | _ :: _ :: _ => rfl

section Lifting

variable {m : Type → Type} [Monad m] (bind : Text → m Text)

theorem liftText_quote (output rest : Text) :
    liftText bind output ('"' :: rest) = liftLiteral bind output [] rest := by
  have hs : stretches (glyphs ('"' :: rest)) = [] :: stretches (glyphs rest) := rfl
  have hfirst : Prod.map (([] : Text) ++ ·) (id : Text → Text) = id := rfl
  rw [liftText, liftLiteral, literals, hs, hfirst, List.modifyHead_id]
  simp

section Glyph

variable {g : Glyph} {text rest : Text} (hg : .quote ≠ g) (h : glyphs text = g :: glyphs rest)
include hg h

theorem liftText_of_glyphs (output : Text) :
    liftText bind output text = liftText bind (output ++ g.written) rest := by
  rw [liftText, literals_of_glyphs hg h, liftText]
  simp

theorem liftLiteral_of_glyphs (output literal : Text) :
    liftLiteral bind output literal text =
      liftLiteral bind output (literal ++ g.meant) rest := by
  have hs : stretches (glyphs text) = (stretches (glyphs rest)).modifyHead (g :: ·) := by
    rw [h, stretches, if_neg hg.symm]
  rw [liftLiteral, hs, alternate_modifyHead, List.modifyHead_modifyHead, liftLiteral]
  congr 2
  funext pair
  exact Prod.ext (List.append_assoc literal g.meant pair.1).symm rfl

end Glyph

variable [LawfulMonad m]

theorem liftText_nil (output : Text) : liftText bind output [] = pure (some output) := by
  simp [liftText, liftBehind, literals, glyphs, stretches, alternate]

theorem liftLiteral_nil (output literal : Text) :
    liftLiteral bind output literal [] = pure none := by
  simp [liftLiteral, liftBehind, glyphs, stretches, alternate]

theorem liftLiteral_quote (output literal rest : Text) :
    liftLiteral bind output literal ('"' :: rest) =
      bind literal >>= fun name => liftText bind (output ++ name) rest := by
  obtain ⟨lead, others, hs, hl⟩ := literals_eq rest
  have hq : stretches (glyphs ('"' :: rest)) = [] :: lead :: others := congrArg _ hs
  rw [liftLiteral, hq]
  simp [liftText, hl, alternate, liftBehind]

end Lifting

section Steps

variable {m : Type → Type} [Monad m] {bind : Text → m Text} {c : Char}

theorem scanText_plain (hb : c ≠ '\\') (hq : c ≠ '"') (output rest : Text) :
    scanText bind output (c :: rest) = scanText bind (output ++ [c]) rest :=
  scanText.eq_4 bind output c rest (fun _ _ h => absurd h hb) hq

theorem scanLiteral_plain (hb : c ≠ '\\') (hq : c ≠ '"') (output literal rest : Text) :
    scanLiteral bind output literal (c :: rest) =
      scanLiteral bind output (literal ++ [c]) rest :=
  scanLiteral.eq_5 bind output literal c rest hq (fun _ h => absurd h hb) fun _ _ h => absurd h hb

theorem scanLiteral_escaped (c : Char) (output literal rest : Text) :
    scanLiteral bind output literal ('\\' :: c :: rest) =
      scanLiteral bind output (literal ++ (Glyph.escaped c).meant) rest := by
  by_cases hq : c = '"'
  · subst hq
    rw [scanLiteral]
    rfl
  · rw [Glyph.meant_escaped hq]
    exact scanLiteral.eq_4 bind output literal c rest hq

end Steps

section

variable {m : Type → Type} [Monad m] [LawfulMonad m] (bind : Text → m Text)

theorem scan_eq_lift (text : Text) :
    (∀ output, scanText bind output text = liftText bind output text) ∧
      ∀ output literal,
        scanLiteral bind output literal text = liftLiteral bind output literal text := by
  -- Both loops at once, since each goes over into the other at a quote.
  induction text using glyph_induction with
  | nil =>
    refine ⟨fun output => ?_, fun output literal => ?_⟩
    · rw [scanText, liftText_nil]
    · rw [scanLiteral, liftLiteral_nil]
  | lone =>
    have hg : Glyph.quote ≠ .plain '\\' := by decide
    refine ⟨fun output => ?_, fun output literal => ?_⟩
    · rw [liftText_of_glyphs bind hg rfl, liftText_nil]
      rfl
    · rw [liftLiteral_of_glyphs bind hg rfl, liftLiteral_nil]
      rfl
  | escaped c rest ih =>
    obtain ⟨htext, hliteral⟩ := ih
    have hg := Glyph.escaped_ne_quote c
    have hglyphs : glyphs ('\\' :: c :: rest) = .escaped c :: glyphs rest := rfl
    refine ⟨fun output => ?_, fun output literal => ?_⟩
    · rw [scanText, htext, liftText_of_glyphs bind hg hglyphs]
      rfl
    · rw [scanLiteral_escaped, hliteral, liftLiteral_of_glyphs bind hg hglyphs]
  | plain c rest hb ih =>
    obtain ⟨htext, hliteral⟩ := ih
    by_cases hq : c = '"'
    · subst hq
      refine ⟨fun output => ?_, fun output literal => ?_⟩
      · rw [scanText, hliteral, liftText_quote]
      · rw [scanLiteral, liftLiteral_quote]
        simp only [htext]
    · have hg := Glyph.plain_ne_quote hq
      have hglyphs := glyphs_cons hb rest
      refine ⟨fun output => ?_, fun output literal => ?_⟩
      · rw [scanText_plain hb hq, htext, liftText_of_glyphs bind hg hglyphs]
        rfl
      · rw [scanLiteral_plain hb hq, hliteral, liftLiteral_of_glyphs bind hg hglyphs]
        rfl

theorem extractLiterals_eq_scanText (text : Text) :
    extractLiterals bind text = scanText bind [] text := by
  rw [(scan_eq_lift bind text).1]
  rfl

theorem extractLiterals_eq_pure {text : Text} (h : QuoteFree text) :
    extractLiterals bind text = pure (some text) := by
  rw [extractLiterals, literals_of_quoteFree h]
  simp

end

section Recording

variable {σ : Type} (bind : Text → StateM σ Text)

/-- Binds as `bind` does and keeps what was bound, each literal with its name, in order. -/
def recording (literal : Text) : StateM (σ × List (Text × Text)) Text := fun (s, calls) =>
  let (name, t) := bind literal s
  (name, (t, calls ++ [(literal, name)]))

theorem mapM_recording (contents : List Text) (s : σ) (calls : List (Text × Text)) :
    contents.mapM (recording bind) (s, calls) =
      ((contents.mapM bind s).1, ((contents.mapM bind s).2,
        calls ++ contents.zip (contents.mapM bind s).1)) := by
  induction contents generalizing s calls with
  | nil =>
    rw [List.mapM_nil, List.mapM_nil]
    exact congrArg (fun calls => ([], (s, calls))) (List.append_nil calls).symm
  | cons literal contents ih =>
    let name := (bind literal s).1
    have hrest := ih (bind literal s).2 (calls ++ [(literal, name)])
    rw [List.append_assoc, List.singleton_append] at hrest
    rw [List.mapM_cons, List.mapM_cons]
    exact congrArg (fun outcome => (name :: outcome.1, outcome.2)) hrest

theorem extractLiterals_recording (text : Text) (s : σ) :
    extractLiterals (recording bind) text (s, []) =
      ((extractLiterals bind text s).1, ((extractLiterals bind text s).2,
        (literals text).contents.zip ((literals text).contents.mapM bind s).1)) := by
  rw [extractLiterals_run, extractLiterals_run, mapM_recording]
  rfl

theorem extractLiterals_eq_none_iff {text : Text} {s : σ} :
    (extractLiterals bind text s).1 = none ↔ unescapedQuotes text % 2 = 1 := by
  rw [extractLiterals_run, closed_eq]
  split <;> simp_all

theorem map_snd_calls (text : Text) (s : σ) :
    ((literals text).contents.zip ((literals text).contents.mapM bind s).1).map Prod.snd =
      ((literals text).contents.mapM bind s).1 :=
  List.map_snd_zip (Nat.le_of_eq (length_mapM_run bind _ s))

end Recording

theorem dropLast_modifyHead {α : Type} (f : α → α) (l : List α) :
    (l.modifyHead f).dropLast = l.dropLast.modifyHead f := by
  match l with
  | [] => rfl
  | [_] => rfl
  | _ :: _ :: _ => rfl

theorem segment_of_mem_dropLast (text : Text) :
    ∀ gs ∈ (stretches (glyphs text)).dropLast, Segment (gs.flatMap Glyph.written) := by
  induction text using glyph_induction with
  | nil => simp [glyphs, stretches]
  | lone => simp [glyphs, stretches, Glyph.quote]
  | escaped c rest ih =>
    intro gs h
    rw [glyphs, stretches, if_neg (Glyph.escaped_ne_quote c).symm, dropLast_modifyHead] at h
    obtain h | ⟨head, hm, rfl⟩ := mem_modifyHead h
    · exact ih gs h
    · exact .escaped c (ih head hm)
  | plain c rest hc ih =>
    intro gs h
    rw [glyphs_cons hc, stretches] at h
    by_cases hq : c = '"'
    · rw [if_pos (by rw [hq, Glyph.quote]), List.dropLast_cons_of_ne_nil, List.mem_cons] at h
      · obtain rfl | h := h
        · exact .nil
        · exact ih gs h
      · exact List.ne_nil_of_length_eq_add_one (length_stretches (glyphs rest))
    · rw [if_neg (Glyph.plain_ne_quote hq).symm, dropLast_modifyHead] at h
      obtain h | ⟨head, hm, rfl⟩ := mem_modifyHead h
      · exact ih gs h
      · exact .plain hc hq (ih head hm)

theorem Segment.quoteFree_append {segment rest : Text} (hs : Segment segment)
    (hr : QuoteFree rest) : QuoteFree (segment ++ rest) := by
  induction hs with
  | nil => exact hr
  | plain hb hq _ ih => exact (quoteFree_plain_iff hb).mpr ⟨hq, ih⟩
  | escaped c _ ih => exact quoteFree_escaped_iff.mpr ih

section

variable {gs : List Glyph} {ss : List (List Glyph)}

theorem quoteFree_written_append {rest : Text}
    (hwhole : ∀ stretch ∈ (gs :: ss).dropLast, Segment (stretch.flatMap Glyph.written))
    (hfree : QuoteFree (gs.flatMap Glyph.written)) (hrest : QuoteFree rest)
    (hlast : ss = [] → rest = []) : QuoteFree (gs.flatMap Glyph.written ++ rest) := by
  by_cases hs : ss = []
  · rw [hlast hs, List.append_nil]
    exact hfree
  · rw [List.dropLast_cons_of_ne_nil hs] at hwhole
    exact (hwhole gs List.mem_cons_self).quoteFree_append hrest

theorem mem_dropLast_cons {α : Type} {x : α} {l : List α} (h : x ∈ l.dropLast) (a : α) :
    x ∈ (a :: l).dropLast := by
  have hne : l ≠ [] := by
    rintro rfl
    cases h
  rw [List.dropLast_cons_of_ne_nil hne]
  exact List.mem_cons_of_mem a h

theorem quoteFree_alternate {names : List Text} (hn : ∀ name ∈ names, Segment name)
    (hwhole : ∀ stretch ∈ ss.dropLast, Segment (stretch.flatMap Glyph.written))
    (hfree : ∀ stretch ∈ ss, QuoteFree (stretch.flatMap Glyph.written)) :
    QuoteFree (List.zipWith (· ++ ·) names ((alternate ss).1.map Prod.snd)).flatten := by
  fun_induction alternate ss generalizing names with
  | case1 => simp [quoteFree_nil]
  | case2 => simp [quoteFree_nil]
  | case3 literal after rest quoted closed hr ih =>
    cases names with
    | nil => exact quoteFree_nil
    | cons name names =>
      obtain ⟨hname, hn⟩ := List.forall_mem_cons.mp hn
      have hafter := hfree after (by simp)
      have hwhole : ∀ stretch ∈ (after :: rest).dropLast, _ := fun stretch hm =>
        hwhole stretch (mem_dropLast_cons hm literal)
      have hpieces := ih hn (fun stretch hm => hwhole stretch (mem_dropLast_cons hm after))
        fun stretch hm => hfree stretch (by simp [hm])
      rw [hr] at hpieces
      rw [List.map_cons, List.zipWith_cons_cons, List.flatten_cons, List.append_assoc]
      refine hname.quoteFree_append (quoteFree_written_append hwhole hafter hpieces ?_)
      rintro rfl
      cases hr
      simp

end

theorem quoteFree_interleave (text : Text) {names : List Text}
    (hn : ∀ name ∈ names, ∀ c ∈ name, c ≠ '\\' ∧ c ≠ '"') :
    QuoteFree (interleave (literals text).lead names (literals text).segments) := by
  obtain ⟨lead, others, hs, hl⟩ := literals_eq text
  have hwhole := segment_of_mem_dropLast text
  have hfree := quoteFree_of_mem_stretches text
  rw [hs] at hwhole hfree
  obtain ⟨hlead, hothers⟩ := List.forall_mem_cons.mp hfree
  have hpieces := quoteFree_alternate (fun name hm => .of_plain (hn name hm))
    (fun stretch hm => hwhole stretch (mem_dropLast_cons hm lead)) hothers
  rw [hl, interleave, Literals.segments]
  refine quoteFree_written_append hwhole hlead hpieces ?_
  rintro rfl
  simp [alternate]

end LineScript.Text
