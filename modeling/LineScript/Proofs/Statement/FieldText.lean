import LineScript.Proofs.Statement.Forms

namespace LineScript.Statement

open Text

def fieldText (receiver field : Text) : Text :=
  receiver ++ ' ' :: field ++ [':']

def isFieldTextChar (c : Char) : Bool :=
  isWord c || c == ' ' || c == ':'

theorem isNameChar_of_isReceiverChar {c : Char} (hr : isReceiverChar c) (hw : isWord c) :
    isNameChar c := by
  have hcomma : c ≠ ',' := by
    rintro rfl
    cases hw
  simpa [isReceiverChar, isCalleeChar, isNameChar, isBlank_of_isWord hw, hcomma] using hr

theorem isLetter_of_isFieldChar {c : Char} (hf : isFieldChar c) (hw : isWord c) : isLetter c := by
  have hcomma : c ≠ ',' := by
    rintro rfl
    cases hw
  have hspace : c ≠ ' ' := by
    rintro rfl
    cases hw
  simpa [isFieldChar, isLetter, hcomma, hspace] using hf

section

variable {receiver field : Text} (hr : isName receiver) (hf : isName field)
include hr hf

theorem all_isFieldTextChar : (fieldText receiver field).all isFieldTextChar := by
  have word {name : Text} (hn : isName name) : name.all isFieldTextChar := by
    rw [List.all_eq_true]
    intro c hc
    simp [isFieldTextChar, List.all_eq_true.mp (isName_iff.mp hn).2 c hc]
  have hspace : isFieldTextChar ' ' := by decide
  have hcolon : isFieldTextChar ':' := by decide
  simp [fieldText, List.all_append, word hr, word hf, hspace, hcolon, -List.all_eq_true]

theorem notMem_fieldText {c : Char} (hc : isFieldTextChar c = false) :
    c ∉ fieldText receiver field :=
  notMem_of_all (all_isFieldTextChar hr hf) hc

theorem eq_of_fieldText_eq {head args : Text}
    (h : fieldText receiver field = head ++ ':' :: args) : receiver ++ ' ' :: field = head := by
  have hreceiver : ':' ∉ receiver := notMem_of_isName hr (by decide)
  have hfield : ':' ∉ field := notMem_of_isName hf (by decide)
  have hcolon : ':' ∉ receiver ++ ' ' :: field := by simp [hreceiver, hfield]
  exact ((List.append_cons_inj_of_notMem hcolon List.not_mem_nil).mp h).1

/-- Only a field call can be read from the text, and its characters are those of field calls. -/
theorem chars_of_readFrom {form : Statement} (h : form.ReadFrom (fieldText receiver field)) :
    receiver.all isNameChar ∧ field.all isLetter := by
  have hcolon : ':' ∈ fieldText receiver field := by simp [fieldText]
  have hlast : (fieldText receiver field).getLast? = some ':' := List.getLast?_concat
  have absent (c : Char) (hc : isFieldTextChar c = false) : c ∉ fieldText receiver field :=
    notMem_fieldText hr hf hc
  -- Every other form has a character that no name has, or the colon in another place.
  generalize ht : fieldText receiver field = text at h absent hcolon hlast
  cases h with
  | fieldCall args _ _ he _ hfront _ hback =>
    have hsame := (eq_of_fieldText_eq hr hf ht).trans he
    obtain ⟨rfl, -, rfl⟩ := (List.append_cons_inj_of_notMem (notMem_of_isName hr (by decide))
      (notMem_of_isName hf (by decide))).mp hsame
    have hrw := (isName_iff.mp hr).2
    have hfw := (isName_iff.mp hf).2
    simp only [List.all_eq_true] at hfront hback hrw hfw ⊢
    exact ⟨fun c hc => isNameChar_of_isReceiverChar (hfront c hc) (hrw c hc),
      fun c hc => isLetter_of_isFieldChar (hback c hc) (hfw c hc)⟩
  | call args _ hc =>
    have hspace : ' ' ∉ receiver ++ ' ' :: field := by
      rw [eq_of_fieldText_eq hr hf ht]
      exact notMem_of_all hc (by decide)
    simp at hspace
  | copy front hs =>
    rw [List.getLast?_append_of_ne_nil _ (isName_iff.mp hs).1] at hlast
    exact absurd (List.mem_of_getLast? hlast) (notMem_of_isName hs (by decide))
  | identifier hn => exact absurd hcolon (notMem_of_isName hn (by decide))
  | @integer sign digits hs hd =>
    have hdigits : ':' ∉ digits := notMem_of_all (Bool.and_eq_true_iff.mp hd).2 (by decide)
    obtain rfl | rfl := hs <;> simp [hdigits] at hcolon
  | @sequence pieces hl _ =>
    match pieces with
    | first :: second :: others =>
      exact absurd (by simp [join, List.intercalate_cons_cons]) (absent ';' (by decide))
  | comment rest => exact absurd (by simp [commentMark]) (absent '/' (by decide))
  | assign | extend => exact absurd (by simp [arrow]) (absent '<' (by decide))
  | block => exact absurd (by simp) (absent '[' (by decide))
  | float => exact absurd (by simp) (absent '.' (by decide))
  | directive | bareDirective => exact absurd (by simp [sigil]) (absent '!' (by decide))
  | parenthesized => exact absurd (by simp) (absent '(' (by decide))
  | empty | object | yes | no => exact absurd hcolon (by decide)

theorem classify?_fieldText_eq_none (h : ¬(receiver.all isNameChar ∧ field.all isLetter)) :
    classify? (fieldText receiver field) = none := by
  rw [Option.eq_none_iff_forall_ne_some]
  intro form hform
  exact h (chars_of_readFrom hr hf (readFrom_of_classify? hform))

theorem quoteFree_fieldText : QuoteFree (fieldText receiver field) :=
  quoteFree_of_notMem (notMem_fieldText hr hf (by decide))

theorem classify?_fieldText (hrc : receiver.all isNameChar) (hfc : field.all isLetter) :
    classify? (fieldText receiver field) = some (.fieldCall receiver field []) :=
  classify?_fieldCall (isName_iff.mp hr).1 (all_isCalleeChar hrc) (isName_iff.mp hf).1 hfc
    (.of_notMem (notMem_fieldText hr hf (by decide)) 0)

end

end LineScript.Statement
