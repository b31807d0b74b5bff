import Mathlib.Data.List.TakeWhile
import LineScript.Text.Bracket

namespace LineScript.Text

/-- Splitting that comes upon `part` at depth `depth` leaves it whole and is at the same depth
behind it. -/
def Passes (mark : Char) (depth : Nat) (part : Text) : Prop :=
  ∀ rest, splitFrom mark depth (part ++ rest) =
    (splitFrom mark depth rest).modifyHead (part ++ ·)

theorem not_bracket_of {p : Char → Bool} {c : Char} (hc : p c)
    (hp : ['(', '[', ')', ']'].any p = false) :
    isOpening c = false ∧ isClosing c = false := by
  have hne (b : Char) (hb : b ∈ ['(', '[', ')', ']']) : c ≠ b := by
    rintro rfl
    exact List.any_eq_false.mp hp c hb hc
  simp [isOpening, isClosing, hne '(' (by simp), hne '[' (by simp), hne ')' (by simp),
    hne ']' (by simp)]

theorem depthAfter_of_all {p : Char → Bool} {text : Text} (h : text.all p) (depth : Nat)
    (hp : ['(', '[', ')', ']'].any p = false) : depthAfter depth text = depth := by
  induction text with
  | nil => rfl
  | cons c rest ih =>
    rw [List.all_cons, Bool.and_eq_true] at h
    obtain ⟨ho, hc⟩ := not_bracket_of h.1 hp
    have hstep : depthStep depth c = depth := by simp [depthStep, ho, hc]
    rw [depthAfter, List.foldl_cons, hstep]
    exact ih h.2

theorem splitFrom_cons {mark : Char} {depth : Nat} {c : Char} (h : cutsAt mark depth c = false)
    (rest : Text) : splitFrom mark depth (c :: rest) =
      (splitFrom mark (depthStep depth c) rest).modifyHead (c :: ·) := by
  rw [splitFrom, if_neg (Bool.not_eq_true _ ▸ h)]

namespace Passes

variable {mark : Char} {depth : Nat}

theorem nil : Passes mark depth [] := by
  intro rest
  cases h : splitFrom mark depth rest with
  | nil => exact absurd h (splitFrom_ne_nil mark depth rest)
  | cons first others => simp [h]

theorem append {front back : Text} (hf : Passes mark depth front) (hb : Passes mark depth back) :
    Passes mark depth (front ++ back) := by
  intro rest
  rw [List.append_assoc, hf, hb, List.modifyHead_modifyHead]
  congr 1
  funext first
  exact (List.append_assoc front back first).symm

theorem singleton {c : Char} (ho : isOpening c = false) (hc : isClosing c = false)
    (hm : depth = 0 → c ≠ mark) : Passes mark depth [c] := by
  intro rest
  have hcut : cutsAt mark depth c = false := by
    cases hd : cutsAt mark depth c with
    | false => rfl
    | true =>
      simp only [cutsAt, Bool.and_eq_true, beq_iff_eq] at hd
      exact absurd hd.1.1.1 (hm hd.1.1.2)
  have hstep : depthStep depth c = depth := by
    simp [depthStep, ho, hc]
  rw [List.singleton_append, splitFrom_cons hcut, hstep]
  rfl

theorem of_plain {text : Text} (hb : ∀ c ∈ text, isOpening c = false ∧ isClosing c = false)
    (hm : depth = 0 → mark ∉ text) : Passes mark depth text := by
  induction text with
  | nil => exact nil
  | cons c rest ih =>
    obtain ⟨ho, hc⟩ := hb c List.mem_cons_self
    have first : Passes mark depth [c] := by
      refine singleton ho hc fun hd he => hm hd ?_
      rw [he]
      exact List.mem_cons_self
    have others := ih (fun d hd => hb d (List.mem_cons_of_mem c hd)) fun hd hr =>
      hm hd (List.mem_cons_of_mem c hr)
    exact first.append others

theorem parentheses {inner : Text} (h : Passes mark (depth + 1) inner) :
    Passes mark depth ('(' :: inner ++ [')']) := by
  intro rest
  have hopen : cutsAt mark depth '(' = false := by simp [cutsAt, isOpening]
  have hclose : cutsAt mark (depth + 1) ')' = false := by simp [cutsAt]
  have hin : depthStep depth '(' = depth + 1 := by simp [depthStep, isOpening]
  have hout : depthStep (depth + 1) ')' = depth := by simp [depthStep, isOpening, isClosing]
  rw [List.cons_append, List.cons_append, List.append_assoc, splitFrom_cons hopen, hin, h,
    List.singleton_append, splitFrom_cons hclose, hout, List.modifyHead_modifyHead,
    List.modifyHead_modifyHead]
  congr 1
  funext first
  simp

theorem join {separator : Text} (hs : Passes mark depth separator) {parts : List Text}
    (h : ∀ part ∈ parts, Passes mark depth part) : Passes mark depth (join separator parts) := by
  induction parts with
  | nil => exact nil
  | cons part rest ih =>
    have first := h part List.mem_cons_self
    cases rest with
    | nil =>
      rw [Text.join, List.intercalate_singleton]
      exact first
    | cons next rest =>
      rw [Text.join, List.intercalate_cons_cons]
      exact (first.append hs).append (ih fun other ho => h other (List.mem_cons_of_mem part ho))

theorem splitTopLevel {part : Text} (h : Passes mark 0 part) :
    splitTopLevel mark part = [part] := by
  have hp := h []
  rw [List.append_nil] at hp
  simp [Text.splitTopLevel, hp, splitFrom]

theorem splitTopLevel_append {part : Text} (h : Passes mark 0 part)
    (hm : isOpening mark = false) (hm' : isClosing mark = false) (rest : Text) :
    Text.splitTopLevel mark (part ++ mark :: rest) = part :: Text.splitTopLevel mark rest := by
  have hcut : cutsAt mark 0 mark = true := by simp [cutsAt, hm, hm']
  rw [Text.splitTopLevel, h, splitFrom, if_pos hcut, List.modifyHead_cons, List.append_nil,
    Text.splitTopLevel]

end Passes

/-- No `mark` stands outside of all brackets in a text that starts at depth `depth`. -/
def Clear (mark : Char) (depth : Nat) (text : Text) : Prop :=
  ∀ front back, text = front ++ mark :: back → 0 < depthAfter depth front

namespace Clear

variable {mark c : Char} {depth : Nat} {text rest : Text}

theorem nil : Clear mark depth [] := by
  intro front back h
  simp at h

theorem cons_iff : Clear mark depth (c :: rest) ↔
    (c = mark → 0 < depth) ∧ Clear mark (depthStep depth c) rest := by
  constructor
  · intro h
    refine ⟨fun hc => h [] rest (by rw [hc]; rfl), ?_⟩
    rintro front back rfl
    exact h (c :: front) back rfl
  · rintro ⟨hc, hr⟩ front back he
    cases front with
    | nil => exact hc (List.cons.inj he).1
    | cons d front =>
      obtain ⟨rfl, rfl⟩ := List.cons.inj he
      exact hr front back rfl

instance decidable (mark : Char) : ∀ depth text, Decidable (Clear mark depth text)
  | _, [] => isTrue nil
  | depth, c :: rest =>
    have := decidable mark (depthStep depth c) rest
    decidable_of_iff _ cons_iff.symm

theorem append_iff {front back : Text} : Clear mark depth (front ++ back) ↔
    Clear mark depth front ∧ Clear mark (depthAfter depth front) back := by
  induction front generalizing depth with
  | nil => exact ⟨fun h => ⟨nil, h⟩, And.right⟩
  | cons c front ih =>
    rw [List.cons_append, cons_iff, cons_iff, ih, and_assoc]
    rfl

theorem enclosed {left right : Char} {inner : Text} (h : Clear mark (depth + 1) inner)
    (ho : isOpening left) (hl : left ≠ mark) (hr : right ≠ mark) :
    Clear mark depth (left :: inner ++ [right]) := by
  have hstep : depthStep depth left = depth + 1 := by simp [depthStep, ho]
  have hright : Clear mark (depthAfter (depth + 1) inner) [right] :=
    cons_iff.mpr ⟨fun he => absurd he hr, nil⟩
  rw [List.cons_append, cons_iff, hstep, append_iff]
  exact ⟨fun he => absurd he hl, h, hright⟩

theorem of_notMem (h : mark ∉ text) (depth : Nat) : Clear mark depth text := by
  rintro front back rfl
  simp at h

theorem splitFrom_append {part : Text} (h : Clear mark depth part) (rest : Text) :
    splitFrom mark depth (part ++ rest) =
      (splitFrom mark (depthAfter depth part) rest).modifyHead (part ++ ·) := by
  induction part generalizing depth with
  | nil =>
    cases hs : splitFrom mark depth rest with
    | nil => exact absurd hs (splitFrom_ne_nil mark depth rest)
    | cons first others => simp [depthAfter, hs]
  | cons c part ih =>
    obtain ⟨hc, hr⟩ := cons_iff.mp h
    have hcut : cutsAt mark depth c = false := by
      rw [← Bool.not_eq_true]
      intro hcut
      have hpos := hc (eq_of_cutsAt hcut)
      simp only [cutsAt, Bool.and_eq_true, beq_iff_eq] at hcut
      omega
    rw [List.cons_append, splitFrom_cons hcut, ih hr, List.modifyHead_modifyHead]
    rfl

theorem splitTopLevel (h : Clear mark 0 text) : splitTopLevel mark text = [text] := by
  have hs := h.splitFrom_append []
  rw [List.append_nil] at hs
  simp [Text.splitTopLevel, hs, splitFrom]

end Clear

theorem Passes.of_clear {mark : Char} {depth : Nat} {part : Text} (h : Clear mark depth part)
    (hd : depthAfter depth part = depth) : Passes mark depth part := by
  intro rest
  rw [h.splitFrom_append, hd]

/-- Splitting undoes joining if it passes over all parts. -/
theorem splitTopLevel_join {mark : Char} (hm : isOpening mark = false)
    (hm' : isClosing mark = false) {parts : List Text} (hne : parts ≠ [])
    (h : ∀ part ∈ parts, Passes mark 0 part) : splitTopLevel mark (join [mark] parts) = parts := by
  induction parts with
  | nil => exact absurd rfl hne
  | cons part rest ih =>
    have first := h part List.mem_cons_self
    cases rest with
    | nil =>
      rw [join, List.intercalate_singleton]
      exact first.splitTopLevel
    | cons next rest =>
      have ih := ih (by simp) fun other ho => h other (List.mem_cons_of_mem part ho)
      rw [join] at ih ⊢
      rw [List.intercalate_cons_cons, List.append_assoc, List.singleton_append,
        first.splitTopLevel_append hm hm', ih]

theorem mem_of_mem_splitOn {mark c : Char} {text part : Text} (hp : part ∈ text.splitOn mark)
    (hc : c ∈ part) : c ∈ text ∧ c ≠ mark := by
  induction text generalizing part with
  | nil =>
    rw [List.splitOn_nil, List.mem_singleton] at hp
    rw [hp] at hc
    cases hc
  | cons d rest ih =>
    rw [List.splitOn_cons_eq_if_modifyHead] at hp
    split at hp
    next =>
      obtain rfl | hp := List.mem_cons.mp hp
      · cases hc
      · exact (ih hp hc).imp_left (List.mem_cons_of_mem d)
    next hd =>
      cases hs : rest.splitOn mark with
      | nil => exact absurd hs (List.splitOn_ne_nil mark rest)
      | cons first others =>
        rw [hs] at ih hp
        obtain rfl | hp := List.mem_cons.mp hp
        · obtain rfl | hc := List.mem_cons.mp hc
          · exact ⟨List.mem_cons_self, by simpa using hd⟩
          · exact (ih List.mem_cons_self hc).imp_left (List.mem_cons_of_mem d)
        · exact (ih (List.mem_cons_of_mem first hp) hc).imp_left (List.mem_cons_of_mem d)

theorem trim_of_noBlank {text : Text} (h : ∀ c ∈ text, isBlank c = false) : trim text = text := by
  have hd : text.dropWhile isBlank = text := by
    cases text with
    | nil => rfl
    | cons c rest => rw [List.dropWhile_cons, h c List.mem_cons_self, if_neg Bool.false_ne_true]
  have hr : text.reverse.dropWhile isBlank = text.reverse := by
    cases hs : text.reverse with
    | nil => rfl
    | cons c rest =>
      have hc : c ∈ text := by
        rw [← List.mem_reverse, hs]
        exact List.mem_cons_self
      rw [List.dropWhile_cons, h c hc, if_neg Bool.false_ne_true]
  rw [trim, hd, dropEndWhile, hr, List.reverse_reverse]

theorem mem_join {separator : Text} {parts : List Text} {c : Char} (h : c ∈ join separator parts) :
    c ∈ separator ∨ ∃ part ∈ parts, c ∈ part := by
  induction parts with
  | nil => cases h
  | cons part rest ih =>
    cases rest with
    | nil =>
      rw [join, List.intercalate_singleton] at h
      exact .inr ⟨part, List.mem_cons_self, h⟩
    | cons next rest =>
      rw [join, List.intercalate_cons_cons, List.mem_append, List.mem_append] at h
      obtain (h | h) | h := h
      · exact .inr ⟨part, List.mem_cons_self, h⟩
      · exact .inl h
      · obtain h | ⟨other, ho, hc⟩ := ih h
        · exact .inl h
        · exact .inr ⟨other, List.mem_cons_of_mem part ho, hc⟩

theorem trim_append {gap : Text} (h : ∀ c ∈ gap, isBlank c) (text : Text) :
    trim (gap ++ text) = trim text := by
  rw [trim, List.dropWhile_append_of_pos h, trim]

theorem trim_eq_nil_iff {text : Text} : trim text = [] ↔ ∀ c ∈ text, isBlank c := by
  constructor
  · intro h c hc
    simp only [trim, dropEndWhile, List.reverse_eq_nil_iff, List.dropWhile_eq_nil_iff,
      List.mem_reverse] at h
    rw [← List.takeWhile_append_dropWhile (p := isBlank) (l := text), List.mem_append] at hc
    obtain hc | hc := hc
    · exact List.all_eq_true.mp List.all_takeWhile c hc
    · exact h c hc
  · intro h
    have ht := trim_append h []
    rw [List.append_nil] at ht
    exact ht

theorem join_cons_append (mark : Char) (gap part : Text) (rest : List Text) :
    join (mark :: gap) (part :: rest) = join [mark] (part :: rest.map (gap ++ ·)) := by
  induction rest generalizing part with
  | nil => rfl
  | cons next rest ih =>
    have hi := ih next
    simp only [join] at hi ⊢
    rw [List.map_cons, List.intercalate_cons_cons, List.intercalate_cons_cons, hi]
    cases rest with
    | nil => simp
    | cons other rest => simp [List.intercalate_cons_cons]

theorem arguments_join {gap : Text} (hg : ∀ c ∈ gap, isBlank c) {parts : List Text}
    (hne : parts ≠ [[]]) (ht : ∀ part ∈ parts, trim part = part)
    (h : ∀ part ∈ parts, Passes ',' 0 part) : arguments (join (',' :: gap) parts) = parts := by
  cases parts with
  | nil => rfl
  | cons part rest =>
    have hgap : Passes ',' 0 gap := by
      exact .of_plain (fun c hc => not_bracket_of (hg c hc) (by decide)) fun _ hm =>
        absurd (hg ',' hm) (by decide)
    have hpasses : ∀ piece ∈ part :: rest.map (gap ++ ·), Passes ',' 0 piece := by
      intro piece hp
      obtain rfl | hp := List.mem_cons.mp hp
      · exact h piece List.mem_cons_self
      · obtain ⟨other, ho, rfl⟩ := List.mem_map.mp hp
        exact hgap.append (h other (List.mem_cons_of_mem part ho))
    have hsplit := splitTopLevel_join (by decide) (by decide) (List.cons_ne_nil _ _) hpasses
    -- A lone part is not empty, and two of them have a comma between them.
    have hvisible : trim (join [','] (part :: rest.map (gap ++ ·))) ≠ [] := by
      rw [ne_eq, trim_eq_nil_iff]
      intro hblank
      cases rest with
      | nil =>
        refine hne (congrArg (fun p => [p]) ?_)
        rw [← ht part List.mem_cons_self, trim_eq_nil_iff]
        simpa [join] using hblank
      | cons next rest =>
        have hcomma := hblank ',' (by simp [join, List.intercalate_cons_cons])
        exact absurd hcomma (by decide)
    have htrim : rest.map (trim ∘ (gap ++ ·)) = rest := by
      refine (List.map_congr_left fun other ho => ?_).trans (List.map_id _)
      exact (trim_append hg other).trans (ht other (List.mem_cons_of_mem part ho))
    rw [join_cons_append, arguments, if_neg (by simpa using hvisible), hsplit, List.map_cons,
      List.map_map, htrim, ht part List.mem_cons_self]

end LineScript.Text
