import LineScript.Proofs.Text.Quotes
import LineScript.Text.Bracket

namespace LineScript.Text

/-- The part begins at the beginning of the text or behind a character other than a backslash. -/
def Piece (part text : Text) : Prop :=
  ∃ front back, text = front ++ part ++ back ∧ Settled front

theorem settled_nil : Settled [] := by
  simp [Settled]

theorem Settled.append {front next : Text} (hf : Settled front) (hn : Settled next) :
    Settled (front ++ next) := by
  rw [Settled, List.getLast?_append]
  cases h : next.getLast? with
  | none => exact hf
  | some c => simpa [Settled, h] using hn

namespace Piece

theorem nil {text : Text} : Piece [] text :=
  ⟨[], text, by simp, settled_nil⟩

theorem front (part back : Text) : Piece part (part ++ back) :=
  ⟨[], back, by simp, settled_nil⟩

theorem behind (front part back : Text) {c : Char} (h : c ≠ '\\') :
    Piece part (front ++ c :: (part ++ back)) :=
  ⟨front ++ [c], back, by simp, settled_append_singleton front h⟩

theorem trans {part whole text : Text} (h : Piece part whole) (h' : Piece whole text) :
    Piece part text := by
  obtain ⟨inner, outer, rfl, hi⟩ := h
  obtain ⟨front, back, rfl, hf⟩ := h'
  exact ⟨front ++ inner, outer ++ back, by simp, hf.append hi⟩

theorem quoteFree {part text : Text} (h : Piece part text) (ht : QuoteFree text) :
    QuoteFree part := by
  obtain ⟨front, back, rfl, hf⟩ := h
  exact ht.left.right hf

theorem subset {part text : Text} (h : Piece part text) : part ⊆ text := by
  obtain ⟨front, back, rfl, -⟩ := h
  exact fun c hc => List.mem_append_left back (List.mem_append_right front hc)

theorem length_le {part text : Text} (h : Piece part text) : part.length ≤ text.length := by
  obtain ⟨front, back, rfl, -⟩ := h
  simp only [List.length_append]
  omega

theorem trim (text : Text) : Piece (trim text) text := by
  have hd := dropEndWhile_append_takeEndWhile isBlank (text.dropWhile isBlank)
  refine ⟨text.takeWhile isBlank, takeEndWhile isBlank (text.dropWhile isBlank), ?_, ?_⟩
  · rw [Text.trim, List.append_assoc, hd, List.takeWhile_append_dropWhile]
  · intro h
    have hb := List.all_eq_true.mp List.all_takeWhile _ (List.mem_of_getLast? h)
    exact absurd hb (by decide)

end Piece

theorem mem_of_mem_trim {text : Text} {c : Char} (h : c ∈ trim text) : c ∈ text :=
  (Piece.trim text).subset h

/-- The first part of a text cut outside of brackets is a front of the text, and each other part
stands behind a mark. -/
theorem splitFrom_eq_cons {mark : Char} {depth : Nat} {text first : Text} {others : List Text}
    (h : splitFrom mark depth text = first :: others) :
    (∃ back, text = first ++ back) ∧
      ∀ part ∈ others, ∃ front back, text = front ++ mark :: (part ++ back) := by
  induction text generalizing depth first others with
  | nil =>
    obtain ⟨rfl, rfl⟩ := List.cons.inj h
    exact ⟨⟨[], by simp⟩, by simp⟩
  | cons c rest ih =>
    rw [splitFrom] at h
    split at h
    case isTrue hc =>
      obtain ⟨rfl, rfl⟩ := List.cons.inj h
      cases eq_of_cutsAt hc
      refine ⟨⟨mark :: rest, rfl⟩, fun part hp => ?_⟩
      cases hs : splitFrom mark 0 rest with
      | nil => exact absurd hs (splitFrom_ne_nil mark 0 rest)
      | cons next parts =>
        obtain ⟨⟨back, hf⟩, ho⟩ := ih hs
        rw [hs] at hp
        obtain rfl | hp := List.mem_cons.mp hp
        · exact ⟨[], back, by rw [hf]; rfl⟩
        · obtain ⟨front, back, he⟩ := ho part hp
          exact ⟨mark :: front, back, by rw [he]; rfl⟩
    case isFalse hc =>
      cases hs : splitFrom mark (depthStep depth c) rest with
      | nil => exact absurd hs (splitFrom_ne_nil mark _ rest)
      | cons next parts =>
        obtain ⟨⟨back, hf⟩, ho⟩ := ih hs
        rw [hs, List.modifyHead_cons] at h
        obtain ⟨rfl, rfl⟩ := List.cons.inj h
        refine ⟨⟨back, by rw [hf]; rfl⟩, fun part hp => ?_⟩
        obtain ⟨front, back, he⟩ := ho part hp
        exact ⟨c :: front, back, by rw [he]; rfl⟩

theorem Piece.of_mem_splitTopLevel {mark : Char} (hm : mark ≠ '\\') {text part : Text}
    (h : part ∈ splitTopLevel mark text) : Piece part text := by
  cases hs : splitTopLevel mark text with
  | nil => exact absurd hs (splitFrom_ne_nil mark 0 text)
  | cons first others =>
    obtain ⟨⟨back, hf⟩, ho⟩ := splitFrom_eq_cons hs
    rw [hs] at h
    obtain rfl | h := List.mem_cons.mp h
    · rw [hf]
      exact .front part back
    · obtain ⟨front, back, rfl⟩ := ho part h
      exact .behind front part back hm

theorem Piece.of_mem_arguments {text arg : Text} (h : arg ∈ arguments text) : Piece arg text := by
  rw [arguments] at h
  split at h
  · cases h
  · obtain ⟨part, hp, rfl⟩ := List.mem_map.mp h
    exact (Piece.trim part).trans (.of_mem_splitTopLevel (by decide) hp)

end LineScript.Text
