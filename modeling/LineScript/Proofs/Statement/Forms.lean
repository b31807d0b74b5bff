import LineScript.Proofs.Decimal.Numeral
import LineScript.Proofs.Statement.Inner
import LineScript.Proofs.Text.Splitting

namespace LineScript

namespace Text

theorem eq_of_append_cons_eq {p : Char → Bool} {front other back rest : Text} {c d : Char}
    (hf : front.all p) (ho : other.all p) (hc : p c = false) (hd : p d = false)
    (h : front ++ c :: back = other ++ d :: rest) : front = other ∧ c :: back = d :: rest := by
  have ht := congrArg (List.takeWhile p) h
  rw [List.takeWhile_append_of_pos (List.all_eq_true.mp hf),
    List.takeWhile_append_of_pos (List.all_eq_true.mp ho),
    List.takeWhile_cons_of_neg (by simp [hc]), List.takeWhile_cons_of_neg (by simp [hd]),
    List.append_nil, List.append_nil] at ht
  subst ht
  exact ⟨rfl, List.append_cancel_left h⟩

def blankRanges : List (Nat × Nat) :=
  [(0x85, 0x85), (0xA0, 0xA0), (0x1680, 0x1680), (0x2000, 0x200A), (0x2028, 0x2029),
    (0x202F, 0x202F), (0x205F, 0x205F), (0x3000, 0x3000)]

def wordRanges : List (Nat × Nat) :=
  WordTable.nearEast ++ WordTable.indic ++ WordTable.thaiToGreek ++ WordTable.eastAsia ++
    WordTable.ancient ++ WordTable.upper

theorem wordRanges_apart :
    wordRanges.all fun word => Nat.blt 0x3000 word.1 ||
      blankRanges.all fun blank => Nat.blt blank.2 word.1 || Nat.blt word.2 blank.1 := by
  decide +kernel

theorem exists_wordRange {code : Nat} (h : WordTable.contains code) :
    ∃ word ∈ wordRanges, word.1 ≤ code ∧ code ≤ word.2 := by
  simp only [WordTable.contains, ← List.any_append, List.any_eq_true, Bool.and_eq_true,
    decide_eq_true_eq] at h
  exact h

theorem exists_blankRange {c : Char} (h : isBlank c) (hc : 0x80 ≤ c.toNat) :
    ∃ blank ∈ blankRanges, blank.1 ≤ c.toNat ∧ c.toNat ≤ blank.2 := by
  simp only [isBlank, Bool.or_eq_true, Bool.and_eq_true, beq_iff_eq, decide_eq_true_eq] at h
  simp only [blankRanges, List.mem_cons, List.not_mem_nil, or_false, or_and_right, exists_or,
    exists_eq_left]
  omega

theorem isBlank_of_isWord {c : Char} (h : isWord c) : isBlank c = false := by
  rw [isWord] at h
  split at h
  next =>
    rw [Bool.or_eq_true, beq_iff_eq] at h
    obtain h | rfl := h
    · exact isBlank_of_isAlphanum h
    · decide
  next hc =>
    by_contra hb
    rw [Bool.not_eq_false] at hb
    obtain ⟨word, hw, hwl, hwu⟩ := exists_wordRange h
    obtain ⟨blank, hm, hbl, hbu⟩ := exists_blankRange hb (Nat.le_of_not_lt hc)
    have hapart := List.all_eq_true.mp wordRanges_apart word hw
    rw [Bool.or_eq_true, List.all_eq_true, Nat.blt_eq] at hapart
    obtain habove | hapart := hapart
    · have hblank : blankRanges.all fun blank => Nat.ble blank.2 0x3000 := by decide
      have hle := Nat.le_of_ble_eq_true (List.all_eq_true.mp hblank blank hm)
      omega
    · have hpair := hapart blank hm
      rw [Bool.or_eq_true, Nat.blt_eq, Nat.blt_eq] at hpair
      omega

theorem trim_of_isName {name : Text} (h : isName name) : trim name = name :=
  trim_of_noBlank fun c hc => isBlank_of_isWord (List.all_eq_true.mp (isName_iff.mp h).2 c hc)

end Text

namespace Statement

open Text

variable {text : Text}

theorem assignment?_eq_none_of_binding? (h : binding? text = none) : assignment? text = none := by
  rw [assignment?, h, Option.map_none]

theorem assignment?_eq_none (h : ' ' ∉ text) : assignment? text = none := by
  refine assignment?_eq_none_of_binding? (Option.eq_none_iff_forall_ne_some.mpr ?_)
  rintro ⟨name, expr⟩ hb
  rw [(binding?_eq_some_iff.mp hb).1] at h
  simp [arrow] at h

theorem assignment?_eq_none_behind {callee back : Text} {c : Char} (hc : callee.all isCalleeChar)
    (hw : isWord c = false) (hd : isCalleeChar c = false)
    (hb : ∀ rest, c :: back ≠ ' ' :: '<' :: rest) : assignment? (callee ++ c :: back) = none := by
  refine assignment?_eq_none_of_binding? (Option.eq_none_iff_forall_ne_some.mpr ?_)
  rintro ⟨name, expr⟩ hs
  obtain ⟨he, hn, -⟩ := binding?_eq_some_iff.mp hs
  let p (d : Char) : Bool := isCalleeChar d || isWord d
  have hcallee : callee.all p := List.all_eq_true.mpr fun d hm => by
    simp [p, List.all_eq_true.mp hc d hm]
  have hname : name.all p := List.all_eq_true.mpr fun d hm => by
    simp [p, List.all_eq_true.mp (isName_iff.mp hn).2 d hm]
  have harrow : name ++ arrow ++ expr = name ++ ' ' :: ('<' :: '-' :: ' ' :: expr) := by
    simp [arrow]
  rw [harrow] at he
  exact hb _ (eq_of_append_cons_eq hcallee hname (by simp [p, hw, hd]) (by decide) he).2

theorem fieldCall?_eq_none {head back : Text} (hs : ' ' ∉ head) (hc : ':' ∉ head) :
    fieldCall? (head ++ ':' :: back) = none := by
  have hcut : cut? ':' (head ++ ':' :: back) = some (head, back) :=
    cut?_eq_some_iff.mpr ⟨rfl, hc⟩
  have hf : hasFieldName false head = false := by
    rw [← Bool.not_eq_true, hasFieldName_iff]
    rintro ⟨front, field, rfl, -⟩
    simp at hs
  simp [fieldCall?, hcut, hf]

theorem fieldCall?_eq_none_of_noSpace (h : ' ' ∉ text) : fieldCall? text = none := by
  cases hc : cut? ':' text with
  | none => rw [fieldCall?, hc]; rfl
  | some found =>
    obtain ⟨rfl, hcolon⟩ := cut?_eq_some_iff.mp (hc : _ = some (found.1, found.2))
    exact fieldCall?_eq_none (fun hm => h (List.mem_append_left _ hm)) hcolon

theorem fieldCall?_cons_eq_none {c : Char} (hc : isReceiverChar c = false) (hm : c ≠ ':')
    (rest : Text) : fieldCall? (c :: rest) = none := by
  rw [fieldCall?, cut?, if_neg hm]
  cases cut? ':' rest with
  | none => rfl
  | some found =>
    have hf : hasFieldName false (c :: found.1) = false := by simp [hasFieldName, hc]
    simp [hf]

theorem copy?_eq_none (h : ' ' ∉ text) : copy? text = none := by
  have hn : nameAfter? copyWord text = none := by
    refine (nameAfter?_eq_none_iff rfl).mpr fun front name _ he => ?_
    rw [he] at h
    simp [copyWord] at h
  rw [copy?, hn, Option.map_none]

theorem call?_eq_none (h : ':' ∉ text) : call? text = none := by
  rw [call?, cut?_eq_none_iff.mpr h]
  rfl

theorem call?_cons_eq_none {c : Char} (hc : isCalleeChar c = false) (hm : c ≠ ':') (rest : Text) :
    call? (c :: rest) = none := by
  rw [call?, cut?, if_neg hm]
  cases cut? ':' rest with
  | none => rfl
  | some found =>
    have hall : (c :: found.1).all isCalleeChar = false := by
      rw [List.all_cons, hc, Bool.false_and]
    simp only [Option.map_some, bind, Option.bind_some, hall, Bool.not_false, Bool.or_true,
      if_true]

theorem float?_eq_none (h : '.' ∉ text) : float? text = none := by
  have hs : '.' ∉ (Decimal.signed text).2 := by
    unfold Decimal.signed
    split
    · exact fun hm => h (List.mem_cons_of_mem _ hm)
    · exact h
  rw [float?, Decimal.isFraction, cut?_eq_none_iff.mpr hs]
  rfl

theorem float?_cons_eq_none {c : Char} (hd : c.isDigit = false) (hm : c ≠ '-') (rest : Text) :
    float? (c :: rest) = none := by
  have hs : (Decimal.signed (c :: rest)).2 = c :: rest := by
    rw [Decimal.signed.eq_def]
    split
    next he => exact absurd (List.cons.inj he).1 hm
    next => rfl
  rw [float?, Decimal.isFraction, hs]
  cases hp : cut? '.' (c :: rest) with
  | none => rfl
  | some found =>
    obtain ⟨whole, fraction⟩ := found
    obtain ⟨he, -⟩ := cut?_eq_some_iff.mp hp
    have hw : Decimal.isDigits whole = false := by
      cases whole with
      | nil => rfl
      | cons d whole =>
        cases (List.cons.inj he).1
        simp [Decimal.isDigits, hd]
    simp [hw]

/-- A text that is no comment and has semicolons in brackets only is read by its forms. -/
theorem classify?_of_clear (hc : Clear ';' 0 text) (hm : commentMark.isPrefixOf text = false) :
    classify? text = forms.findSome? fun form => form text := by
  rw [classify?, if_neg (Bool.not_eq_true _ ▸ hm), hc.splitTopLevel]

theorem classify?_of_noSpace (hs : ' ' ∉ text) (hc : ';' ∉ text)
    (hm : commentMark.isPrefixOf text = false) :
    classify? text = [call?, object?, block?, integer?, float?, boolean?, directive?, identifier?,
      parenthesized?, empty?].findSome? fun form => form text := by
  rw [classify?_of_clear (.of_notMem hc 0) hm]
  simp only [forms, List.findSome?_cons, assignment?_eq_none hs, fieldCall?_eq_none_of_noSpace hs,
    copy?_eq_none hs]

theorem commentMark_isPrefixOf_eq_false (h : text.head? ≠ some '/') :
    commentMark.isPrefixOf text = false := by
  cases text with
  | nil => rfl
  | cons c rest =>
    have hc : c ≠ '/' := by simpa using h
    simp [commentMark, List.isPrefixOf, Ne.symm hc]

theorem head?_ne_of_notMem {c : Char} (h : c ∉ text) : text.head? ≠ some c :=
  fun he => h (List.mem_of_head? he)

theorem head?_append_ne {front : Text} {c : Char} (hne : front ≠ []) (h : c ∉ front)
    (back : Text) : (front ++ back).head? ≠ some c := by
  rw [List.head?_append_of_ne_nil front hne]
  exact head?_ne_of_notMem h

theorem classify?_call {callee args : Text} (hne : callee ≠ []) (ha : callee.all isCalleeChar)
    (hc : Clear ';' 0 (callee ++ ':' :: args)) :
    classify? (callee ++ ':' :: args) = some (.call callee (arguments args)) := by
  have hslash : '/' ∉ callee := notMem_of_all ha (by decide)
  have hassign : assignment? (callee ++ ':' :: args) = none :=
    assignment?_eq_none_behind ha (by decide) (by decide) (by simp)
  have hfield : fieldCall? (callee ++ ':' :: args) = none :=
    fieldCall?_eq_none (notMem_of_all ha (by decide)) (notMem_of_all ha (by decide))
  rw [classify?_of_clear hc (commentMark_isPrefixOf_eq_false (head?_append_ne hne hslash _))]
  simp only [forms, List.findSome?_cons, hassign, hfield, call?_eq_some hne ha]

def isLetter (c : Char) : Bool :=
  c.isAlpha || c == '_'

theorem isFieldChar_of_isLetter {c : Char} (h : isLetter c) : isFieldChar c := by
  simp only [isLetter, Bool.or_eq_true, beq_iff_eq] at h
  obtain h | rfl := h
  · simp [isFieldChar, h]
  · decide

theorem isDigit_of_isLetter {c : Char} (h : isLetter c) : c.isDigit = false := by
  rw [← Bool.not_eq_true]
  intro hd
  simp only [isLetter, Bool.or_eq_true, beq_iff_eq] at h
  obtain h | rfl := h
  · delta Char.isAlpha Char.isUpper Char.isLower Char.isDigit at h hd
    simp [UInt32.le_iff_toNat_le] at h hd
    omega
  · cases hd

theorem all_isFieldChar {name : Text} (h : name.all isLetter) : name.all isFieldChar :=
  List.all_eq_true.mpr fun c hc => isFieldChar_of_isLetter (List.all_eq_true.mp h c hc)

theorem isBlank_of_isLetter {c : Char} (h : isLetter c) : isBlank c = false := by
  simp only [isLetter, Bool.or_eq_true, beq_iff_eq] at h
  obtain h | rfl := h
  · exact isBlank_of_isAlphanum (by simp [Char.isAlphanum, h])
  · decide

theorem trim_of_isLetter {name : Text} (h : name.all isLetter) : trim name = name :=
  trim_of_noBlank fun c hc => isBlank_of_isLetter (List.all_eq_true.mp h c hc)

theorem classify?_fieldCall {receiver field args : Text} (hr : receiver ≠ [])
    (hrc : receiver.all isCalleeChar) (hf : field ≠ []) (hfc : field.all isLetter)
    (hc : Clear ';' 0 (receiver ++ ' ' :: field ++ ':' :: args)) :
    classify? (receiver ++ ' ' :: field ++ ':' :: args) =
      some (.fieldCall receiver field (arguments args)) := by
  have hslash : '/' ∉ receiver := notMem_of_all hrc (by decide)
  have hreceiver : receiver.all isReceiverChar := List.all_eq_true.mpr fun c hm => by
    simp [isReceiverChar, List.all_eq_true.mp hrc c hm]
  have hfield : fieldCall? (receiver ++ ' ' :: field ++ ':' :: args) =
      some (.fieldCall receiver (trim field) (arguments args)) :=
    fieldCall?_eq_some (notMem_of_all hrc (by decide)) rfl hr hreceiver hf (all_isFieldChar hfc)
  have hassign : assignment? (receiver ++ ' ' :: (field ++ ':' :: args)) = none := by
    refine assignment?_eq_none_behind hrc (by decide) (by decide) fun rest he => ?_
    obtain ⟨first, others, rfl⟩ := List.exists_cons_of_ne_nil hf
    have hfirst : first = '<' := (List.cons.inj (List.cons.inj he).2).1
    rw [hfirst] at hfc
    cases hfc
  rw [trim_of_isLetter hfc] at hfield
  rw [List.append_assoc, List.cons_append] at hc hfield ⊢
  rw [classify?_of_clear hc (commentMark_isPrefixOf_eq_false (head?_append_ne hr hslash _))]
  simp only [forms, List.findSome?_cons, hassign, hfield]

theorem parameters_join {params : List Text} (h : ∀ name ∈ params, name ≠ [] ∧ name.all isLetter) :
    parameters (join [','] params) = params := by
  have htrim : params.map trim = params :=
    (List.map_congr_left fun name hn => trim_of_isLetter (h name hn).2).trans (List.map_id' _)
  cases hps : params with
  | nil => rfl
  | cons first others =>
    have hcomma : ∀ name ∈ params, ',' ∉ name := fun name hn =>
      notMem_of_all (h name hn).2 (by decide)
    have hsplit := List.splitOn_intercalate ',' hcomma (by simp [hps])
    rw [← hps, parameters, join, hsplit, htrim, List.filter_eq_self]
    exact fun name hn => by simpa using (h name hn).1

theorem all_isFieldChar_join {params : List Text} (h : ∀ name ∈ params, name.all isLetter) :
    (join [','] params).all isFieldChar := by
  rw [List.all_eq_true]
  intro c hc
  obtain hc | ⟨name, hn, hc⟩ := mem_join hc
  · cases List.mem_singleton.mp hc
    decide
  · exact isFieldChar_of_isLetter (List.all_eq_true.mp (h name hn) c hc)

def isNameChar (c : Char) : Bool :=
  c.isAlphanum || c == '_'

theorem isWord_of_isNameChar {c : Char} (h : isNameChar c) : isWord c := by
  simp only [isNameChar, Bool.or_eq_true, beq_iff_eq] at h
  obtain h | rfl := h
  · exact isWord_of_isAlphanum h
  · decide

theorem all_isCalleeChar {name : Text} (h : name.all isNameChar) : name.all isCalleeChar :=
  List.all_eq_true.mpr fun c hc => Bool.or_eq_true_iff.mpr (.inl (List.all_eq_true.mp h c hc))

theorem block?_eq_none (h : text.head? ≠ some '[') : block? text = none := by
  cases text with
  | nil => rfl
  | cons c rest =>
    have hc : c ≠ '[' := by simpa using h
    simp [block?, List.isPrefixOf?, Ne.symm hc]

theorem directive?_eq_none (h : text.head? ≠ some sigil) : directive? text = none := by
  cases text with
  | nil => rfl
  | cons c rest =>
    have hc : c ≠ sigil := by simpa using h
    simp [directive?, hc]

theorem classify?_identifier (h : text.all isNameChar) {c : Char} (hc : c ∈ text)
    (hd : c.isDigit = false) (ho : text ≠ ['o', 'b', 'j', 'e', 'c', 't'])
    (ht : text ≠ ['t', 'r', 'u', 'e']) (hf : text ≠ ['f', 'a', 'l', 's', 'e']) :
    classify? text = some (.identifier text) := by
  have hm : c ≠ '-' := by
    rintro rfl
    exact absurd hc (notMem_of_all h (by decide))
  have hcall := call?_eq_none (notMem_of_all h (by decide))
  have hblock := block?_eq_none (head?_ne_of_notMem (notMem_of_all h (by decide)))
  have hinteger := Decimal.isInteger_eq_false hc hd hm
  have hfloat := float?_eq_none (notMem_of_all h (by decide))
  have hdirective := directive?_eq_none (head?_ne_of_notMem (notMem_of_all h (by decide)))
  have hname : isName text := by
    have hne := List.ne_nil_of_mem hc
    simp only [isName, Bool.and_eq_true, List.all_eq_true]
    exact ⟨by simpa using hne, fun d hd => isWord_of_isNameChar (List.all_eq_true.mp h d hd)⟩
  rw [classify?_of_noSpace (notMem_of_all h (by decide)) (notMem_of_all h (by decide))
    (commentMark_isPrefixOf_eq_false (head?_ne_of_notMem (notMem_of_all h (by decide))))]
  simp only [List.findSome?_cons, hcall, object?, if_neg ho, hblock, integer?, hinteger,
    Bool.false_eq_true, if_false, hfloat, boolean?, if_neg ht, if_neg hf, hdirective, identifier?,
    hname, if_true]

theorem classify?_integer (h : Decimal.isInteger text) :
    classify? text = some (.integer text) := by
  have absent (d : Char) (hd : (d == '-' || d.isDigit) = false) : d ∉ text := by
    intro hm
    obtain rfl | hm := Decimal.mem_of_isInteger h hm
    · cases hd
    · rw [hm, Bool.or_true] at hd
      cases hd
  have hobject : text ≠ ['o', 'b', 'j', 'e', 'c', 't'] := by
    rintro rfl
    exact absent 'o' (by decide) List.mem_cons_self
  rw [classify?_of_noSpace (absent ' ' (by decide)) (absent ';' (by decide))
    (commentMark_isPrefixOf_eq_false (head?_ne_of_notMem (absent '/' (by decide))))]
  simp only [List.findSome?_cons, call?_eq_none (absent ':' (by decide)), object?, if_neg hobject,
    block?_eq_none (head?_ne_of_notMem (absent '[' (by decide))), integer?, h, if_true]

theorem nameAfter?_append {name : Text} (hn : isName name) (word front : Text) :
    nameAfter? word (front ++ ' ' :: name) =
      (word.isSuffixOf? (front ++ [' '])).map fun found => (found, name) := by
  obtain ⟨hne, hw⟩ := isName_iff.mp hn
  simp only [nameAfter?, takeEndWhile_append isWord_space hw, dropEndWhile_append isWord_space hw]
  rw [if_neg (by simpa using hne)]

theorem nameAfter?_eq_none {word : Text} {c : Char} (he : text.getLast? = some c)
    (hw : isWord c = false) : nameAfter? word text = none := by
  obtain ⟨front, rfl⟩ := List.getLast?_eq_some_iff.mp he
  simp [nameAfter?, takeEndWhile, hw]

theorem copy?_eq_none_of_getLast? {c : Char} (he : text.getLast? = some c)
    (hw : isWord c = false) : copy? text = none := by
  rw [copy?, nameAfter?_eq_none he hw, Option.map_none]

/-- The forms that a text can have which begins with a character other than those of names, numerals
and comments. -/
theorem classify?_cons {c : Char} {rest : Text} (hw : isWord c = false)
    (hr : isReceiverChar c = false) (hp : c ∉ [':', '-', '/']) (hc : Clear ';' 0 (c :: rest)) :
    classify? (c :: rest) =
      [copy?, block?, directive?, parenthesized?].findSome? fun form => form (c :: rest) := by
  simp only [List.mem_cons, List.not_mem_nil, or_false, not_or] at hp
  obtain ⟨hcolon, hminus, hslash⟩ := hp
  have hcallee : isCalleeChar c = false := (Bool.or_eq_false_iff.mp hr).1
  have hdigit : c.isDigit = false := by
    simp only [isCalleeChar, Char.isAlphanum, Bool.or_eq_false_iff] at hcallee
    exact hcallee.1.1.2
  have hne {d : Char} (hd : isWord d) (others : Text) : c :: rest ≠ d :: others := by
    intro he
    rw [(List.cons.inj he).1, hd] at hw
    cases hw
  have hassign : assignment? (c :: rest) = none := by
    refine @assignment?_eq_none_behind [] rest c rfl hw hcallee fun others he => ?_
    rw [(List.cons.inj he).1] at hr
    cases hr
  have hobject : object? (c :: rest) = none := if_neg (hne (by decide) _)
  have hinteger : Decimal.isInteger (c :: rest) = false :=
    Decimal.isInteger_eq_false List.mem_cons_self hdigit hminus
  have hboolean : boolean? (c :: rest) = none := by
    rw [boolean?, if_neg (hne (by decide) _), if_neg (hne (by decide) _)]
  have hname : isName (c :: rest) = false := by simp [isName, hw]
  have hmark : commentMark.isPrefixOf (c :: rest) = false :=
    commentMark_isPrefixOf_eq_false (by simpa using hslash)
  rw [classify?_of_clear hc hmark]
  simp only [forms, List.findSome?_cons, List.findSome?_nil, hassign,
    fieldCall?_cons_eq_none hr hcolon, call?_cons_eq_none hcallee hcolon, hobject, integer?,
    hinteger, float?_cons_eq_none hdigit hminus, hboolean, identifier?, hname, empty?,
    List.isEmpty_cons, Bool.false_eq_true, if_false]

theorem classify?_directive {name rest : Text} (hn : ' ' ∉ name)
    (hc : Clear ';' 0 (sigil :: (name ++ ' ' :: rest))) :
    classify? (sigil :: (name ++ ' ' :: rest)) =
      (copy? (sigil :: (name ++ ' ' :: rest))).or (some (.directive name rest)) := by
  have hcut : cut? ' ' (name ++ ' ' :: rest) = some (name, rest) :=
    cut?_eq_some_iff.mpr ⟨rfl, hn⟩
  have hdirective : directive? (sigil :: (name ++ ' ' :: rest)) = some (.directive name rest) := by
    simp [directive?, cut, hcut]
  have hblock : block? (sigil :: (name ++ ' ' :: rest)) = none := block?_eq_none (by simp [sigil])
  rw [classify?_cons (by decide) (by decide) (by decide) hc]
  cases hcopy : copy? (sigil :: (name ++ ' ' :: rest)) with
  | some form => simp only [List.findSome?_cons, hcopy, Option.some_or]
  | none => simp only [List.findSome?_cons, hcopy, hblock, hdirective, Option.none_or]

theorem classify?_parenthesized {inner : Text} (hc : Clear ';' 1 inner) :
    classify? ('(' :: inner ++ [')']) = some (.parenthesized inner) := by
  have hclear : Clear ';' 0 ('(' :: inner ++ [')']) :=
    hc.enclosed (by decide) (by decide) (by decide)
  have hlast : ('(' :: inner ++ [')']).getLast? = some ')' := List.getLast?_concat
  have hcopy := copy?_eq_none_of_getLast? hlast (by decide)
  have hblock : block? ('(' :: inner ++ [')']) = none := block?_eq_none (by simp)
  have hdirective : directive? ('(' :: inner ++ [')']) = none :=
    directive?_eq_none (by simp [sigil])
  have hparenthesized := parenthesized?_eq_some inner
  rw [List.cons_append] at hclear hcopy hblock hdirective hparenthesized ⊢
  rw [classify?_cons (by decide) (by decide) (by decide) hclear]
  simp only [List.findSome?_cons, hcopy, hblock, hdirective, hparenthesized]

theorem classify?_block {list body : Text} (hl : list.all isFieldChar) (hn : '\n' ∉ body)
    (hc : Clear ';' 0 ('[' :: list ++ '|' :: body ++ [']'])) :
    classify? ('[' :: list ++ '|' :: body ++ [']']) = some (.block (parameters list) body) := by
  have hblock := block?_eq_some hl hn
  have hlast : ('[' :: list ++ '|' :: body ++ [']']).getLast? = some ']' := List.getLast?_concat
  have hcopy := copy?_eq_none_of_getLast? hlast (by decide)
  rw [List.cons_append, List.cons_append] at hc hblock hcopy ⊢
  rw [classify?_cons (by decide) (by decide) (by decide) hc]
  simp only [List.findSome?_cons, hcopy, hblock]

theorem commentMark_isPrefixOf_name {name : Text} (hn : isName name) (back : Text) :
    commentMark.isPrefixOf (name ++ back) = false := by
  obtain ⟨hne, hw⟩ := isName_iff.mp hn
  have hslash : '/' ∉ name := notMem_of_all hw (by decide)
  exact commentMark_isPrefixOf_eq_false (head?_append_ne hne hslash back)

theorem classify?_assign {name expr : Text} (hn : isName name) (he : expr ≠ []) (hl : '\n' ∉ expr)
    (ho : ∀ front target, isName target → expr ≠ front ++ extendsWord ++ target)
    (hc : Clear ';' 0 (name ++ arrow ++ expr)) :
    classify? (name ++ arrow ++ expr) = some (.assign name expr) := by
  have hassign := assignment?_assign hn he hl ho
  rw [List.append_assoc] at hc hassign ⊢
  rw [classify?_of_clear hc (commentMark_isPrefixOf_name hn _)]
  simp only [forms, List.findSome?_cons, hassign]

theorem classify?_assign_of_getLast? {name expr : Text} {c : Char} (hn : isName name)
    (he : expr.getLast? = some c) (hw : isWord c = false) (hl : '\n' ∉ expr)
    (hc : Clear ';' 0 (name ++ arrow ++ expr)) :
    classify? (name ++ arrow ++ expr) = some (.assign name expr) := by
  have hne : expr ≠ [] := by
    rintro rfl
    cases he
  exact classify?_assign hn hne hl ((nameAfter?_eq_none_iff rfl).mp (nameAfter?_eq_none he hw)) hc

theorem classify?_extend {field expr target : Text} (hf : isName field) (hl : '\n' ∉ expr)
    (ht : isName target) (hc : Clear ';' 0 (field ++ arrow ++ expr ++ extendsWord ++ target)) :
    classify? (field ++ arrow ++ expr ++ extendsWord ++ target) =
      some (.extend field expr target) := by
  have hassign := assignment?_extend hf hl ht
  simp only [List.append_assoc] at hc hassign ⊢
  rw [classify?_of_clear hc (commentMark_isPrefixOf_name hf _)]
  simp only [forms, List.findSome?_cons, hassign]

end Statement

end LineScript
