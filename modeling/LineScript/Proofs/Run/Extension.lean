import LineScript.Proofs.Run.Closed
import LineScript.Proofs.Run.ReadBack
import LineScript.Proofs.Statement.FieldText

namespace LineScript

open Text Eval
open LineScript.Statement (fieldText isNameChar isLetter)

variable {s t : Session} {line field expr target : Text} {object value : Ref}

theorem exists_of_performExtend {evaluate : Text → Nat → Eval Ref} {depth : Nat} {answer : Ref}
    (h : performExtend evaluate field expr target depth s = .value answer t) :
    ∃ object value u, s.scopes.lookup? target = some object ∧
      evaluate expr (depth + 1) s = .value value u ∧ t.scopes = u.scopes ∧
      (u.store.setField object field value).Extends t.store := by
  obtain ⟨object, r, ho, hrest⟩ := exists_of_bind_eq_value h
  obtain ⟨value, u, hv, hstored⟩ := exists_of_bind_eq_value hrest
  obtain ⟨hl, rfl⟩ := lookup?_of_resolve ho
  cases hstored
  exact ⟨object, value, u, hl, hv, rfl, .alloc _⟩

theorem Store.field?_of_setField {store later : Store} (h : store.Has object)
    (he : (store.setField object field value).Extends later) :
    later.field? object field = some value := by
  have hlt : object.index < (store.setField object field value).size := by
    rw [Store.size_setField]
    exact h
  have hfields : later.fields object = (store.setField object field value).fields object :=
    congrArg Object.fields (he.object_eq object hlt)
  rw [Store.field?, hfields, Store.fields_setField _ h, if_pos rfl, Bindings.get?_insert,
    if_pos rfl]

theorem isName_of_statement? (h : s.statement? line = some (.extend field expr target)) :
    isName field ∧ isName target := by
  obtain ⟨lifted, hc, -⟩ := Session.lifted_of_statement? h
  cases Statement.readFrom_of_classify? hc with
  | extend hf _ ht => exact ⟨hf, ht⟩

theorem field?_of_extension (hs : s.Reachable)
    (hf : s.statement? line = some (.extend field expr target)) {fuel : Nat} {answer : Ref}
    (ha : evalSource (fuel + 1) line s = .value answer t) :
    ∃ object value u, (s.opened line).scopes.lookup? target = some object ∧
      evaluate fuel expr 1 ((s.opened line).record (.classified (.extend field expr target))) =
        .value value u ∧
      t.store.field? object field = some value := by
  let entered := (s.opened line).record (.classified (.extend field expr target))
  rw [evalSource_of_statement? hf] at ha
  obtain ⟨object, value, u, ho, hv, -, hstore⟩ := exists_of_performExtend ha
  have hclosed : entered.Closed :=
    Run.Contains.closed (.single (Run.ofLine_starts hf fuel)) hs.evaluated.closed
  have hgrows := Run.grows_outcome ⟨.evaluation expr 1, fuel, entered⟩
  have houtcome : Run.outcome ⟨.evaluation expr 1, fuel, entered⟩ = .value value u := hv
  rw [houtcome] at hgrows
  have hhas : u.store.Has object := hgrows.has (hclosed.has_of_lookup? ho)
  exact ⟨object, value, u, ho, hv, Store.field?_of_setField hhas hstore⟩

theorem evalSource_fieldText (hr : isName target) (hf : isName field)
    (hrc : target.all isNameChar) (hfc : field.all isLetter)
    (hl : t.scopes.lookup? target = some object) (hm : t.store.field? object field = some value)
    (hk : (t.store.kind value).callable? = none) (fuel : Nat) :
    ∃ u, evalSource (fuel + 1) (fieldText target field) t = .value value u := by
  let entered := (t.record (.evaluating t.tracing 0 (fieldText target field))).record
    (.classified (.fieldCall target field []))
  have hread : perform (evaluate fuel) (.fieldCall target field []) 0 entered =
      .value value entered := by
    have hl : entered.scopes.lookup? target = some object := hl
    have hm : entered.store.field? object field = some value := hm
    have hk : (entered.store.kind value).callable? = none := hk
    simp only [perform, performFieldCall, bind_apply, resolve_apply, look_apply, hl, hm, hk]
    rfl
  refine ⟨entered, ?_⟩
  rw [evalSource, evaluate_of_classify? (Statement.quoteFree_fieldText hr hf)
    (Statement.classify?_fieldText hr hf hrc hfc)]
  exact hread

/-- A line that extends an object stores the very value of the expression. If the target is bound to
the same object still, and the value is no callable, the field is read as that value, provided that
the target has only letters and digits of ASCII and underscores, and the field not even digits. With
other names the line that would read the field is not recognised. -/
theorem extension_reads_back (hs : s.Reachable)
    (hf : s.statement? line = some (.extend field expr target)) {fuel : Nat} {answer : Ref}
    (ha : evalSource (fuel + 1) line s = .value answer t)
    (hkept : t.scopes.lookup? target = (s.opened line).scopes.lookup? target) :
    ∃ object value u, t.scopes.lookup? target = some object ∧
      evaluate fuel expr 1 ((s.opened line).record (.classified (.extend field expr target))) =
        .value value u ∧
      t.store.field? object field = some value ∧
      ((t.store.kind value).callable? = none → target.all isNameChar → field.all isLetter →
        ∀ n, ∃ v, evalSource (n + 1) (fieldText target field) t = .value value v) ∧
      (¬(target.all isNameChar ∧ field.all isLetter) → ∀ n, ∃ v,
        evalSource (n + 1) (fieldText target field) t =
          .failure (.fault (.unrecognised (fieldText target field))) v) := by
  obtain ⟨hfield, htarget⟩ := isName_of_statement? hf
  obtain ⟨object, value, u, ho, hv, hm⟩ := field?_of_extension hs hf ha
  have hl := hkept.trans ho
  refine ⟨object, value, u, hl, hv, hm, fun hk hrc hfc n => ?_, fun hn n => ?_⟩
  · exact evalSource_fieldText htarget hfield hrc hfc hl hm hk n
  · have hnone := Statement.classify?_fieldText_eq_none htarget hfield hn
    exact ⟨_, evaluate_of_classify?_eq_none (Statement.quoteFree_fieldText htarget hfield) hnone
      n 0 t⟩

theorem extension_reads_back_concatenation : ∃ s answer t value v,
    s.Reachable ∧ evalSource (3 + 1) "x <- add:\"a\",\"b\" extends p1".toList s = .value answer t ∧
    t.store.text value = ['a', 'b'] ∧
    evalSource 1 (fieldText ['p', '1'] ['x']) t = .value value v := by
  let s := (evalSource 2 "p1 <- object".toList Session.new).session
  have hs : s.Reachable := Session.Reachable.new.line_of_value?
    (show (evalSource 2 "p1 <- object".toList Session.new).value? = some ⟨8⟩ by decide +kernel)
  have hf : s.statement? "x <- add:\"a\",\"b\" extends p1".toList =
      some (.extend ['x'] "add:_s_1,_s_2".toList ['p', '1']) := by decide +kernel
  have ha : (evalSource (3 + 1) "x <- add:\"a\",\"b\" extends p1".toList s).value? = some ⟨12⟩ := by
    decide +kernel
  have hline := Outcome.eq_of_value? ha
  let t := (evalSource (3 + 1) "x <- add:\"a\",\"b\" extends p1".toList s).session
  have hvalue : (evaluate 3 "add:_s_1,_s_2".toList 1
      ((s.opened "x <- add:\"a\",\"b\" extends p1".toList).record
        (.classified (.extend ['x'] "add:_s_1,_s_2".toList ['p', '1'])))).value? = some ⟨11⟩ := by
    decide +kernel
  obtain ⟨object, value, u, -, hv, -, hread, -⟩ :=
    extension_reads_back hs hf hline (by decide +kernel)
  cases (Outcome.eq_of_value? hvalue).symm.trans hv
  obtain ⟨v, hread⟩ := hread (by decide +kernel) (by decide) (by decide) 0
  exact ⟨s, ⟨12⟩, t, ⟨11⟩, v, hs, hline, by decide +kernel, hread⟩

/-- A field with a digit in its name holds what was stored, and no field call reads it. -/
theorem digit_field_not_read : ∃ s answer t object value u v, s.Reachable ∧
    s.statement? "x1 <- 5 extends p".toList = some (.extend ['x', '1'] ['5'] ['p']) ∧
    evalSource 3 "x1 <- 5 extends p".toList s = .value answer t ∧
    s.scopes.lookup? ['p'] = some object ∧ t.scopes.lookup? ['p'] = some object ∧
    evaluate 2 ['5'] 1 ((s.opened "x1 <- 5 extends p".toList).record
      (.classified (.extend ['x', '1'] ['5'] ['p']))) = .value value u ∧
    t.store.field? object ['x', '1'] = some value ∧ (t.store.kind value).callable? = none ∧
    evalSource 9 (fieldText ['p'] ['x', '1']) t =
      .failure (.fault (.unrecognised (fieldText ['p'] ['x', '1']))) v := by
  let s := (evalSource 2 "p <- object".toList Session.new).session
  have hs : s.Reachable := Session.Reachable.new.line_of_value?
    (show (evalSource 2 "p <- object".toList Session.new).value? = some ⟨8⟩ by decide +kernel)
  have hline : (evalSource 3 "x1 <- 5 extends p".toList s).value? = some ⟨10⟩ := by decide +kernel
  have hvalue : (evaluate 2 ['5'] 1 ((s.opened "x1 <- 5 extends p".toList).record
      (.classified (.extend ['x', '1'] ['5'] ['p'])))).value? = some ⟨9⟩ := by decide +kernel
  have hread : (evalSource 9 (fieldText ['p'] ['x', '1'])
      (evalSource 3 "x1 <- 5 extends p".toList s).session).failure? =
        some (.fault (.unrecognised (fieldText ['p'] ['x', '1']))) := by decide +kernel
  exact ⟨s, ⟨10⟩, _, ⟨7⟩, ⟨9⟩, _, _, hs, by decide +kernel, Outcome.eq_of_value? hline,
    by decide +kernel, by decide +kernel, Outcome.eq_of_value? hvalue, by decide +kernel,
    by decide +kernel, Outcome.eq_of_failure? hread⟩

end LineScript
