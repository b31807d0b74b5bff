import Mathlib.Data.List.Basic
import Mathlib.Data.List.TakeWhile
import LineScript.Proofs.Decimal.Numeral
import LineScript.Proofs.Text.Quotes
import LineScript.Statement.Form

namespace LineScript

namespace Text

variable {p : Char → Bool} {c : Char} {name : Text}

theorem takeEndWhile_append (hc : p c = false) (hn : name.all p) (front : Text) :
    takeEndWhile p (front ++ c :: name) = name := by
  have hr : ∀ d ∈ name.reverse, p d := by
    simpa using hn
  rw [takeEndWhile, List.reverse_append, List.reverse_cons, List.append_assoc,
    List.takeWhile_append_of_pos hr]
  simp [hc]

theorem dropEndWhile_append (hc : p c = false) (hn : name.all p) (front : Text) :
    dropEndWhile p (front ++ c :: name) = front ++ [c] := by
  have h := dropEndWhile_append_takeEndWhile p (front ++ c :: name)
  rw [takeEndWhile_append hc hn] at h
  exact List.append_cancel_right (h.trans (by simp))

theorem isName_iff {text : Text} : isName text ↔ text ≠ [] ∧ text.all isWord := by
  simp [isName]

theorem notMem_of_isName {name : Text} {c : Char} (hn : isName name) (hc : isWord c = false) :
    c ∉ name :=
  notMem_of_all (isName_iff.mp hn).2 hc

end Text

namespace Statement

open Text

/-- The text consists of the components of the statement, put together the way its form is. -/
inductive ReadFrom : Statement → Text → Prop where
  | comment (rest : Text) : ReadFrom .comment (commentMark ++ rest)
  | empty : ReadFrom .empty []
  | sequence {pieces : List Text} : 2 ≤ pieces.length →
    splitTopLevel ';' (join [';'] pieces) = pieces →
    ReadFrom (.sequence (pieces.map trim)) (join [';'] pieces)
  | assign {name expr : Text} : isName name → expr ≠ [] → '\n' ∉ expr →
    (∀ front target, isName target → expr ≠ front ++ extendsWord ++ target) →
    ReadFrom (.assign name expr) (name ++ arrow ++ expr)
  | extend {field expr target : Text} : isName field → '\n' ∉ expr → isName target →
    ReadFrom (.extend field expr target) (field ++ arrow ++ expr ++ extendsWord ++ target)
  | fieldCall {receiver field front back : Text} (args : Text) : ' ' ∉ receiver → ':' ∉ field →
    receiver ++ ' ' :: field = front ++ ' ' :: back →
    front ≠ [] → front.all isReceiverChar → back ≠ [] → back.all isFieldChar →
    ReadFrom (.fieldCall receiver (trim field) (arguments args))
      (receiver ++ ' ' :: field ++ ':' :: args)
  | call {callee : Text} (args : Text) : callee ≠ [] → callee.all isCalleeChar →
    ReadFrom (.call callee (arguments args)) (callee ++ ':' :: args)
  | copy (front : Text) {source : Text} : isName source →
    ReadFrom (.copy source) (front ++ copyWord ++ source)
  | object : ReadFrom .object ['o', 'b', 'j', 'e', 'c', 't']
  | block {list body : Text} : list.all isFieldChar → '\n' ∉ body →
    ReadFrom (.block (((list.splitOn ',').map trim).filter fun name => !name.isEmpty) body)
      ('[' :: list ++ '|' :: body ++ [']'])
  | integer {sign digits : Text} : sign = [] ∨ sign = ['-'] → Decimal.isDigits digits →
    ReadFrom (.integer (sign ++ digits)) (sign ++ digits)
  | float {sign whole fraction : Text} : sign = [] ∨ sign = ['-'] → Decimal.isDigits whole →
    Decimal.isDigits fraction →
    ReadFrom (.float (sign ++ whole ++ '.' :: fraction)) (sign ++ whole ++ '.' :: fraction)
  | yes : ReadFrom (.boolean true) ['t', 'r', 'u', 'e']
  | no : ReadFrom (.boolean false) ['f', 'a', 'l', 's', 'e']
  | directive {name : Text} (rest : Text) : ' ' ∉ name →
    ReadFrom (.directive name rest) (sigil :: name ++ ' ' :: rest)
  | bareDirective {name : Text} : name ≠ [] → ' ' ∉ name →
    ReadFrom (.directive name []) (sigil :: name)
  | identifier {name : Text} : isName name → ReadFrom (.identifier name) name
  | parenthesized (inner : Text) : ReadFrom (.parenthesized inner) ('(' :: inner ++ [')'])

theorem isWord_space : isWord ' ' = false := by
  decide

theorem nameAfter?_eq_some_iff {word text front name : Text} (hw : word.getLast? = some ' ') :
    nameAfter? word text = some (front, name) ↔ text = front ++ word ++ name ∧ isName name := by
  obtain ⟨init, rfl⟩ := List.getLast?_eq_some_iff.mp hw
  rw [isName_iff]
  constructor
  · intro h
    rw [nameAfter?] at h
    split at h
    · cases h
    next hne =>
      obtain ⟨found, hf, he⟩ := Option.map_eq_some_iff.mp h
      obtain ⟨rfl, rfl⟩ := Prod.mk.inj he
      rw [List.isSuffixOf?_eq_some_iff_append_eq] at hf
      rw [hf, dropEndWhile_append_takeEndWhile]
      exact ⟨rfl, by simpa using hne, all_takeEndWhile _ _⟩
  · rintro ⟨rfl, hne, hn⟩
    have he : front ++ (init ++ [' ']) ++ name = front ++ init ++ ' ' :: name := by simp
    have hs : (init ++ [' ']).isSuffixOf? (front ++ init ++ [' ']) = some front :=
      List.isSuffixOf?_eq_some_iff_append_eq.mpr (by simp)
    simp only [nameAfter?, he, takeEndWhile_append isWord_space hn,
      dropEndWhile_append isWord_space hn, hs, Option.map_some]
    rw [if_neg (by simpa using hne)]

theorem nameAfter?_eq_none_iff {word text : Text} (hw : word.getLast? = some ' ') :
    nameAfter? word text = none ↔ ∀ front name, isName name → text ≠ front ++ word ++ name := by
  rw [Option.eq_none_iff_forall_ne_some]
  constructor
  · intro h front name hn he
    exact h (front, name) ((nameAfter?_eq_some_iff hw).mpr ⟨he, hn⟩)
  · rintro h ⟨front, name⟩ hs
    obtain ⟨he, hn⟩ := (nameAfter?_eq_some_iff hw).mp hs
    exact h front name hn he

theorem binding?_eq_some_iff {text name expr : Text} : binding? text = some (name, expr) ↔
    text = name ++ arrow ++ expr ∧ isName name ∧ expr ≠ [] ∧ '\n' ∉ expr := by
  rw [isName_iff]
  constructor
  · intro h
    simp only [binding?] at h
    split at h
    · cases h
    next hne =>
      obtain ⟨found, ha, he⟩ := Option.bind_eq_some_iff.mp h
      rw [List.isPrefixOf?_eq_some_iff_append_eq] at ha
      split at he
      · cases he
      next hexpr =>
        cases he
        rw [List.append_assoc, ha, List.takeWhile_append_dropWhile]
        exact ⟨rfl, ⟨by simpa using hne, List.all_takeWhile⟩, by simpa using hexpr⟩
  · rintro ⟨rfl, ⟨hne, hn⟩, hexpr, hl⟩
    have hword : ∀ d ∈ name, isWord d := List.all_eq_true.mp hn
    have htake : (name ++ arrow ++ expr).takeWhile isWord = name := by
      rw [List.append_assoc, List.takeWhile_append_of_pos hword]
      simp [arrow, isWord_space]
    have hdrop : (name ++ arrow ++ expr).dropWhile isWord = arrow ++ expr := by
      rw [List.append_assoc, List.dropWhile_append_of_pos hword]
      simp [arrow, isWord_space]
    have harrow : arrow.isPrefixOf? (arrow ++ expr) = some expr :=
      List.isPrefixOf?_eq_some_iff_append_eq.mpr rfl
    simp only [binding?, htake, hdrop, harrow]
    rw [if_neg (by simpa using hne)]
    simp [hexpr, hl]

theorem hasFieldName_iff {started : Bool} {head : Text} : hasFieldName started head ↔
    ∃ front back, head = front ++ ' ' :: back ∧ (started ∨ front ≠ []) ∧
      front.all isReceiverChar ∧ back ≠ [] ∧ back.all isFieldChar := by
  induction head generalizing started with
  | nil => simp [hasFieldName]
  | cons c rest ih =>
    simp only [hasFieldName, Bool.and_eq_true, Bool.or_eq_true, beq_iff_eq, ih]
    constructor
    · rintro ⟨hc, ⟨⟨⟨hs, rfl⟩, hne⟩, hall⟩ | ⟨front, back, rfl, -, hf, hb⟩⟩
      · exact ⟨[], rest, rfl, .inl hs, rfl, by simpa using hne, hall⟩
      · exact ⟨c :: front, back, rfl, .inr (by simp), by simp [hc, hf], hb⟩
    · rintro ⟨front, back, he, hs, hf, hne, hb⟩
      cases front with
      | nil =>
        obtain ⟨rfl, rfl⟩ := List.cons.inj he
        exact ⟨by decide, .inl ⟨⟨⟨by simpa using hs, rfl⟩, by simpa using hne⟩, hb⟩⟩
      | cons d front =>
        obtain ⟨rfl, rfl⟩ := List.cons.inj he
        rw [List.all_cons, Bool.and_eq_true] at hf
        exact ⟨hf.1, .inr ⟨front, back, rfl, .inl trivial, hf.2, hne, hb⟩⟩

section Sound

variable {text : Text} {form : Statement}

theorem readFrom_of_assignment? (h : assignment? text = some form) : form.ReadFrom text := by
  obtain ⟨⟨name, expr⟩, hb, hs⟩ := Option.map_eq_some_iff.mp h
  obtain ⟨rfl, hn, hexpr, hl⟩ := binding?_eq_some_iff.mp hb
  simp only at hs
  split at hs
  next front target he =>
    obtain ⟨rfl, ht⟩ := (nameAfter?_eq_some_iff rfl).mp he
    subst hs
    have hf : '\n' ∉ front := by
      intro hm
      exact hl (List.mem_append_left _ (List.mem_append_left _ hm))
    simpa using ReadFrom.extend hn hf ht
  next he =>
    subst hs
    exact .assign hn hexpr hl ((nameAfter?_eq_none_iff rfl).mp he)

/-- A field call is cut at the first space and the first colon, in whatever order these were looked
for. -/
theorem readFrom_of_fieldCall? (h : fieldCall? text = some form) : form.ReadFrom text := by
  obtain ⟨⟨head, args⟩, hc, h⟩ := Option.bind_eq_some_iff.mp h
  obtain ⟨rfl, hcolon⟩ := cut?_eq_some_iff.mp hc
  simp only at h
  split at h
  next hf =>
    obtain ⟨front, back, he, hne, hfront, hbne, hback⟩ := hasFieldName_iff.mp hf
    obtain ⟨⟨receiver, rest⟩, hr, h⟩ := Option.bind_eq_some_iff.mp h
    have hspace : ' ' ∈ head := by simp [he]
    obtain ⟨found, hcut⟩ : ∃ found, cut? ' ' head = some found :=
      Option.ne_none_iff_exists'.mp fun hn => cut?_eq_none_iff.mp hn hspace
    obtain ⟨hhead, hfirst⟩ := cut?_eq_some_iff.mp hcut
    have hwhole : cut? ' ' (head ++ ':' :: args) = some (found.1, found.2 ++ ':' :: args) :=
      cut?_eq_some_iff.mpr ⟨by rw [hhead]; simp, hfirst⟩
    cases hr.symm.trans hwhole
    have hfield : ':' ∉ found.2 := fun hm => hcolon (by rw [hhead]; simp [hm])
    have hargs : cut? ':' (found.2 ++ ':' :: args) = some (found.2, args) :=
      cut?_eq_some_iff.mpr ⟨rfl, hfield⟩
    simp only [cut, hargs, Option.getD_some] at h
    cases h
    rw [hhead] at he ⊢
    exact .fieldCall args hfirst hfield he (by simpa using hne) hfront hbne hback
  next => cases h

theorem readFrom_of_call? (h : call? text = some form) : form.ReadFrom text := by
  obtain ⟨⟨callee, args⟩, hc, h⟩ := Option.bind_eq_some_iff.mp h
  simp only at h
  split at h
  · cases h
  next hn =>
    cases h
    obtain ⟨rfl, -⟩ := cut?_eq_some_iff.mp hc
    simp only [Bool.or_eq_true, not_or, Bool.not_eq_true, Bool.not_eq_false'] at hn
    exact .call args (by simpa using hn.1) (by simpa using hn.2)

theorem readFrom_of_copy? (h : copy? text = some form) : form.ReadFrom text := by
  obtain ⟨⟨front, source⟩, hn, rfl⟩ := Option.map_eq_some_iff.mp h
  obtain ⟨rfl, hs⟩ := (nameAfter?_eq_some_iff rfl).mp hn
  exact .copy front hs

theorem readFrom_of_block? (h : block? text = some form) : form.ReadFrom text := by
  obtain ⟨inside, hi, h⟩ := Option.bind_eq_some_iff.mp h
  obtain ⟨⟨list, rest⟩, hc, h⟩ := Option.bind_eq_some_iff.mp h
  obtain ⟨body, hb, h⟩ := Option.bind_eq_some_iff.mp h
  rw [List.isPrefixOf?_eq_some_iff_append_eq] at hi
  rw [List.isSuffixOf?_eq_some_iff_append_eq] at hb
  split at h
  next hp =>
    cases h
    obtain ⟨rfl, -⟩ := cut?_eq_some_iff.mp hc
    rw [Bool.and_eq_true] at hp
    have hl : '\n' ∉ body := by simpa using hp.2
    have he : ['['] ++ (list ++ '|' :: (body ++ [']'])) = '[' :: list ++ '|' :: body ++ [']'] := by
      simp
    rw [← hi, ← hb, he]
    exact .block hp.1 hl
  next => cases h

theorem readFrom_of_float? (h : float? text = some form) : form.ReadFrom text := by
  obtain ⟨hf, he⟩ := Option.ite_none_right_eq_some.mp h
  cases he
  obtain ⟨sign, hs, he⟩ := Decimal.eq_append_signed text
  rw [Decimal.isFraction] at hf
  split at hf
  next whole fraction hc =>
    rw [Bool.and_eq_true] at hf
    rw [he, (cut?_eq_some_iff.mp hc).1, ← List.append_assoc]
    exact .float hs hf.1 hf.2
  next => cases hf

theorem readFrom_of_boolean? (h : boolean? text = some form) : form.ReadFrom text := by
  rw [boolean?] at h
  split at h
  next ht =>
    cases h
    exact ht ▸ .yes
  next =>
    obtain ⟨hf, he⟩ := Option.ite_none_right_eq_some.mp h
    cases he
    exact hf ▸ .no

theorem readFrom_of_directive? (h : directive? text = some form) : form.ReadFrom text := by
  cases text with
  | nil => cases h
  | cons c invocation =>
    rw [directive?] at h
    split at h
    next hs =>
      simp only [Bool.and_eq_true, beq_iff_eq, Bool.not_eq_true'] at hs
      obtain ⟨rfl, hne⟩ := hs
      cases hc : cut? ' ' invocation with
      | none =>
        rw [cut, hc] at h
        cases h
        exact .bareDirective (by simpa using hne) (cut?_eq_none_iff.mp hc)
      | some found =>
        rw [cut, hc] at h
        cases h
        rw [(cut?_eq_some_iff.mp hc).1]
        exact .directive found.2 (cut?_eq_some_iff.mp hc).2
    next => cases h

theorem readFrom_of_parenthesized? (h : parenthesized? text = some form) :
    form.ReadFrom text := by
  obtain ⟨inside, hi, h⟩ := Option.bind_eq_some_iff.mp h
  obtain ⟨inner, hb, h⟩ := Option.bind_eq_some_iff.mp h
  rw [List.isPrefixOf?_eq_some_iff_append_eq] at hi
  rw [List.isSuffixOf?_eq_some_iff_append_eq] at hb
  cases h
  rw [← hi, ← hb]
  exact .parenthesized inner

theorem readFrom_of_form {recognise : Text → Option Statement} (hf : recognise ∈ forms)
    (h : recognise text = some form) : form.ReadFrom text := by
  simp only [forms, List.mem_cons, List.not_mem_nil, or_false] at hf
  rcases hf with rfl | rfl | rfl | rfl | rfl | rfl | rfl | rfl | rfl | rfl | rfl | rfl | rfl
  · exact readFrom_of_assignment? h
  · exact readFrom_of_fieldCall? h
  · exact readFrom_of_call? h
  · exact readFrom_of_copy? h
  · obtain ⟨rfl, he⟩ := Option.ite_none_right_eq_some.mp h
    cases he
    exact .object
  · exact readFrom_of_block? h
  · obtain ⟨hi, he⟩ := Option.ite_none_right_eq_some.mp h
    cases he
    obtain ⟨sign, hs, he⟩ := Decimal.eq_append_signed text
    rw [he]
    exact .integer hs hi
  · exact readFrom_of_float? h
  · exact readFrom_of_boolean? h
  · exact readFrom_of_directive? h
  · obtain ⟨hn, he⟩ := Option.ite_none_right_eq_some.mp h
    cases he
    exact .identifier hn
  · exact readFrom_of_parenthesized? h
  · obtain ⟨hn, he⟩ := Option.ite_none_right_eq_some.mp h
    cases he
    rw [List.isEmpty_iff.mp hn]
    exact .empty

end Sound

section Complete

variable {name expr field target receiver callee args list body : Text}

theorem assignment?_assign (hn : isName name) (he : expr ≠ []) (hl : '\n' ∉ expr)
    (ho : ∀ front target, isName target → expr ≠ front ++ extendsWord ++ target) :
    assignment? (name ++ arrow ++ expr) = some (.assign name expr) := by
  have hb : binding? (name ++ arrow ++ expr) = some (name, expr) :=
    binding?_eq_some_iff.mpr ⟨rfl, hn, he, hl⟩
  have hnone : nameAfter? extendsWord expr = none := (nameAfter?_eq_none_iff rfl).mpr ho
  simp only [assignment?, hb, Option.map_some, hnone]

theorem assignment?_extend (hf : isName field) (hl : '\n' ∉ expr) (ht : isName target) :
    assignment? (field ++ arrow ++ expr ++ extendsWord ++ target) =
      some (.extend field expr target) := by
  have htarget : '\n' ∉ target := notMem_of_isName ht (by decide)
  have hb : binding? (field ++ arrow ++ expr ++ extendsWord ++ target) =
      some (field, expr ++ extendsWord ++ target) := by
    refine binding?_eq_some_iff.mpr ⟨by simp, hf, by simp [extendsWord], ?_⟩
    simp [extendsWord, hl, htarget]
  have hsome : nameAfter? extendsWord (expr ++ extendsWord ++ target) = some (expr, target) :=
    (nameAfter?_eq_some_iff rfl).mpr ⟨rfl, ht⟩
  simp only [assignment?, hb, Option.map_some, hsome]

theorem fieldCall?_eq_some {front back : Text} (hr : ' ' ∉ receiver)
    (he : receiver ++ ' ' :: field = front ++ ' ' :: back) (hf : front ≠ [])
    (hfront : front.all isReceiverChar) (hb : back ≠ []) (hback : back.all isFieldChar) :
    fieldCall? (receiver ++ ' ' :: field ++ ':' :: args) =
      some (.fieldCall receiver (trim field) (arguments args)) := by
  have hcolon : ':' ∉ receiver ++ ' ' :: field := by
    have hnf : ':' ∉ front := notMem_of_all hfront (by decide)
    have hnb : ':' ∉ back := notMem_of_all hback (by decide)
    simp [he, hnf, hnb]
  have hfield : ':' ∉ field := fun hm => hcolon (by simp [hm])
  have hhead : cut? ':' (receiver ++ ' ' :: field ++ ':' :: args) =
      some (receiver ++ ' ' :: field, args) :=
    cut?_eq_some_iff.mpr ⟨rfl, hcolon⟩
  have hname : hasFieldName false (receiver ++ ' ' :: field) :=
    hasFieldName_iff.mpr ⟨front, back, he, .inr hf, hfront, hb, hback⟩
  have hspace : cut? ' ' (receiver ++ ' ' :: field ++ ':' :: args) =
      some (receiver, field ++ ':' :: args) :=
    cut?_eq_some_iff.mpr ⟨by simp, hr⟩
  have hargs : cut? ':' (field ++ ':' :: args) = some (field, args) :=
    cut?_eq_some_iff.mpr ⟨rfl, hfield⟩
  simp only [fieldCall?, hhead, hname, hspace, cut, hargs, bind, Option.bind_some, if_true,
    Option.getD_some]

theorem call?_eq_some (hne : callee ≠ []) (hc : callee.all isCalleeChar) :
    call? (callee ++ ':' :: args) = some (.call callee (arguments args)) := by
  have hcolon : ':' ∉ callee := notMem_of_all hc (by decide)
  have hcut : cut? ':' (callee ++ ':' :: args) = some (callee, args) :=
    cut?_eq_some_iff.mpr ⟨rfl, hcolon⟩
  simp only [call?, hcut, bind, Option.bind_some]
  rw [if_neg (by simpa [hne] using hc)]

theorem block?_eq_some (hl : list.all isFieldChar) (hn : '\n' ∉ body) :
    block? ('[' :: list ++ '|' :: body ++ [']']) = some (.block (parameters list) body) := by
  have hbar : '|' ∉ list := notMem_of_all hl (by decide)
  have hcut : cut? '|' (list ++ '|' :: (body ++ [']'])) = some (list, body ++ [']']) :=
    cut?_eq_some_iff.mpr ⟨rfl, hbar⟩
  have hsuffix : [']'].isSuffixOf? (body ++ [']']) = some body :=
    List.isSuffixOf?_eq_some_iff_append_eq.mpr rfl
  have hform : '[' :: list ++ '|' :: body ++ [']'] = '[' :: (list ++ '|' :: (body ++ [']'])) := by
    simp
  simp only [hform, block?, List.isPrefixOf?, BEq.rfl, if_true, bind, Option.bind_some, hcut,
    hsuffix]
  rw [if_pos (by simpa [hn] using hl)]

theorem parenthesized?_eq_some (inner : Text) :
    parenthesized? ('(' :: inner ++ [')']) = some (.parenthesized inner) := by
  have hsuffix : [')'].isSuffixOf? (inner ++ [')']) = some inner :=
    List.isSuffixOf?_eq_some_iff_append_eq.mpr rfl
  simp [parenthesized?, List.isPrefixOf?, hsuffix]

theorem float?_eq_some {sign whole fraction : Text} (hs : sign = [] ∨ sign = ['-'])
    (hw : Decimal.isDigits whole) (hf : Decimal.isDigits fraction) :
    float? (sign ++ whole ++ '.' :: fraction) =
      some (.float (sign ++ whole ++ '.' :: fraction)) := by
  have hsigned := Decimal.signed_append hs hw ('.' :: fraction)
  have hpoint : '.' ∉ whole := notMem_of_all (Bool.and_eq_true_iff.mp hw).2 (by decide)
  have hcut : cut? '.' (whole ++ '.' :: fraction) = some (whole, fraction) :=
    cut?_eq_some_iff.mpr ⟨rfl, hpoint⟩
  rw [← List.append_assoc] at hsigned
  simp only [float?, Decimal.isFraction, hsigned, hcut, hw, hf, Bool.and_self, if_true]

/-- A form recognises the text that a statement can be read from, unless the statement is a comment
or a sequence, which come before all forms. -/
theorem exists_form_of_readFrom {form : Statement} {text : Text} (h : form.ReadFrom text) :
    commentMark.isPrefixOf text ∨ 2 ≤ (splitTopLevel ';' text).length ∨
      ∃ recognise ∈ forms, recognise text = some form := by
  cases h with
  | comment rest => exact .inl (List.isPrefixOf_iff_prefix.mpr (List.prefix_append _ _))
  | sequence hl hs => exact .inr (.inl (by rw [hs]; exact hl))
  | empty => exact .inr (.inr ⟨empty?, by simp [forms], rfl⟩)
  | assign hn he hl ho =>
    exact .inr (.inr ⟨assignment?, by simp [forms], assignment?_assign hn he hl ho⟩)
  | extend hf hl ht =>
    exact .inr (.inr ⟨assignment?, by simp [forms], assignment?_extend hf hl ht⟩)
  | fieldCall args hr _ he hf hfront hb hback =>
    exact .inr (.inr ⟨fieldCall?, by simp [forms], fieldCall?_eq_some hr he hf hfront hb hback⟩)
  | call args hne hc => exact .inr (.inr ⟨call?, by simp [forms], call?_eq_some hne hc⟩)
  | copy front hs =>
    refine .inr (.inr ⟨copy?, by simp [forms], ?_⟩)
    rw [copy?, (nameAfter?_eq_some_iff rfl).mpr ⟨rfl, hs⟩, Option.map_some]
  | object => exact .inr (.inr ⟨object?, by simp [forms], rfl⟩)
  | block hl hn => exact .inr (.inr ⟨block?, by simp [forms], block?_eq_some hl hn⟩)
  | @integer sign digits hs hd =>
    have hsigned := Decimal.signed_append hs hd []
    rw [List.append_nil] at hsigned
    refine .inr (.inr ⟨integer?, by simp [forms], ?_⟩)
    rw [integer?, Decimal.isInteger, hsigned, if_pos hd]
  | float hs hw hf => exact .inr (.inr ⟨float?, by simp [forms], float?_eq_some hs hw hf⟩)
  | yes | no => exact .inr (.inr ⟨boolean?, by simp [forms], rfl⟩)
  | @directive name rest hn =>
    have hcut : cut? ' ' (name ++ ' ' :: rest) = some (name, rest) :=
      cut?_eq_some_iff.mpr ⟨rfl, hn⟩
    exact .inr (.inr ⟨directive?, by simp [forms], by simp [directive?, cut, hcut]⟩)
  | @bareDirective name hne hn =>
    have hcut : cut? ' ' name = none := cut?_eq_none_iff.mpr hn
    exact .inr (.inr ⟨directive?, by simp [forms], by simp [directive?, cut, hcut, hne]⟩)
  | identifier hn => exact .inr (.inr ⟨identifier?, by simp [forms], if_pos hn⟩)
  | parenthesized inner =>
    exact .inr (.inr ⟨parenthesized?, by simp [forms], parenthesized?_eq_some inner⟩)

end Complete

theorem readFrom_of_classify? {text : Text} {form : Statement} (h : classify? text = some form) :
    form.ReadFrom text := by
  rw [classify?] at h
  split at h
  next hm =>
    obtain ⟨rest, rfl⟩ := List.isPrefixOf_iff_prefix.mp hm
    cases h
    exact .comment rest
  next =>
    split at h
    next first second others hs =>
      cases h
      have hjoin : join [';'] (first :: second :: others) = text := hs ▸ join_splitFrom ';' 0 text
      have hr := @ReadFrom.sequence (first :: second :: others) (by simp) (by rw [hjoin, hs])
      rw [hjoin] at hr
      exact hr
    next =>
      obtain ⟨recognise, hf, h⟩ := List.exists_of_findSome?_eq_some h
      exact readFrom_of_form hf h

theorem classify?_eq_none_iff {text : Text} : classify? text = none ↔
    commentMark.isPrefixOf text = false ∧ (splitTopLevel ';' text).length < 2 ∧
      ∀ recognise ∈ forms, recognise text = none := by
  rw [classify?]
  split
  next hm => simp [hm]
  next hm =>
    cases splitTopLevel ';' text with
    | nil => simp [hm]
    | cons first rest =>
      cases rest with
      | nil => simp [hm]
      | cons second others => exact ⟨nofun, fun h => absurd h.2.1 (by simp)⟩

/-- A text is read as a statement whose components it consists of, and if it is read as none, it
does not consist of the components of any statement. -/
theorem classify?_loses_nothing (text : Text) :
    (∀ form, classify? text = some form → form.ReadFrom text) ∧
      (classify? text = none → ∀ form : Statement, ¬form.ReadFrom text) := by
  refine ⟨fun form => readFrom_of_classify?, fun hn form hr => ?_⟩
  obtain ⟨hm, hl, hf⟩ := classify?_eq_none_iff.mp hn
  obtain hc | hs | ⟨recognise, hr, h⟩ := exists_form_of_readFrom hr
  · rw [hm] at hc
    cases hc
  · omega
  · rw [hf recognise hr] at h
    cases h

theorem classify?_loses_nothing_extends :
    classify? "x <- copy a extends b extends p".toList =
      some (.extend ['x'] "copy a extends b".toList ['p']) ∧
    ReadFrom (.extend ['x'] "copy a extends b".toList ['p'])
      "x <- copy a extends b extends p".toList := by
  have h : classify? "x <- copy a extends b extends p".toList =
      some (.extend ['x'] "copy a extends b".toList ['p']) := by decide +kernel
  exact ⟨h, (classify?_loses_nothing _).1 _ h⟩

end Statement

end LineScript
