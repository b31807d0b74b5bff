import LineScript.Proofs.Run.Closed
import LineScript.Proofs.Run.Temporary

namespace LineScript

open Text Eval

variable {s t u : Session}

theorem original_of_perform (hs : s.Closed) {evaluate : Text → Nat → Eval Ref} {source : Text}
    {depth : Nat} {copied : Ref} (h : perform evaluate (.copy source) depth s = .value copied u) :
    ∃ original, s.scopes.lookup? source = some original ∧ s.store.Has original ∧
      ¬s.store.Has copied ∧ u.store.Has copied ∧ s.store.Extends u.store ∧
      u.store.object copied = s.store.object original := by
  obtain ⟨original, v, hr, hc⟩ := exists_of_bind_eq_value h
  obtain ⟨hl, rfl⟩ := lookup?_of_resolve hr
  cases hc
  exact ⟨original, hl, hs.has_of_lookup? hl, Nat.lt_irrefl _, v.store.has_alloc _, .alloc _,
    v.store.object_alloc_self _⟩

theorem Run.Stores.fields_eq {r : Run} {object other value : Ref} {field : Text}
    (h : r.Stores object field value s t) (ho : s.store.Has other) (hne : object ≠ other) :
    t.store.fields other = s.store.fields other := by
  obtain he | ⟨_, _, hst, -⟩ := h.own.fields ho
  · exact he
  · exact absurd (h.object_eq hst) hne

/-- Evaluations go by steps. A step adds objects under greater numbers than there are, and of those
that are there it changes one at most, in one field, if that is what a statement stores into whose
target was bound to this object. So, whatever steps follow, kinds stay and field names stay in their
order, and a field that has changed was stored into. An object and its copy have the same objects in
their fields to begin with, and what is stored into one is not stored into the other. -/
theorem heap_discipline (hs : s.Visited) :
    s.Closed ∧
    (∀ x y, s.store.Has x → s.store.Has y → x.number = y.number → x = y) ∧
    (∀ fuel text depth,
      s.Leads (Run.Contains ⟨.evaluation text depth, fuel, s⟩)
        (evaluate fuel text depth s).session) ∧
    (∀ (r : Run) t, r.Own s t →
      (∀ old new, s.store.Has old → t.store.Has new → ¬s.store.Has new →
        old.number < new.number) ∧
      ∀ object, s.store.Has object → t.store.kind object = s.store.kind object ∧
        (t.store.fields object = s.store.fields object ∨
          ∃ field value, r.Stores object field value s t ∧
            t.store.fields object = (s.store.fields object).insert field value)) ∧
    (∀ (runs : Run → Prop) t, s.Leads runs t → s.store.Grows t.store ∧
      ∀ object field, s.store.Has object →
        t.store.field? object field ≠ s.store.field? object field →
        Session.StoredBetween runs object field s t) ∧
    ∀ source depth fuel copied u, perform (evaluate fuel) (.copy source) depth s = .value copied u →
      ∃ original, s.scopes.lookup? source = some original ∧ original.number < copied.number ∧
        u.store.kind copied = s.store.kind original ∧
        u.store.fields copied = s.store.fields original ∧
        u.store.fields original = s.store.fields original ∧
        ∀ (runs : Run → Prop) t, u.Leads runs t →
          (∀ object, object = original ∨ object = copied → ∀ field,
            t.store.field? object field ≠ s.store.field? original field →
            Session.StoredBetween runs object field u t) ∧
          ∀ (r : Run) v field value,
            (r.Stores original field value t v → v.store.fields copied = t.store.fields copied) ∧
            (r.Stores copied field value t v →
              v.store.fields original = t.store.fields original) := by
  refine ⟨hs.closed, fun x y _ _ => Ref.eq_of_number_eq,
    fun fuel text depth => Run.leads ⟨.evaluation text depth, fuel, s⟩, fun r t ho => ?_,
    fun runs t hl => ?_, fun source depth fuel copied u hp => ?_⟩
  · exact ⟨fun old new hold _ hnew => Store.number_lt hold hnew,
      fun object hobject => ⟨ho.grows.kind_eq object hobject, ho.fields hobject⟩⟩
  · exact ⟨hl.grows, fun object field hobject hf => hl.storedBetween hobject hf⟩
  obtain ⟨original, hl, horiginal, hnew, hcopied, hext, hobject⟩ :=
    original_of_perform hs.closed hp
  have hfields : u.store.fields original = s.store.fields original :=
    congrArg Object.fields (hext.object_eq original horiginal)
  have hcopy : u.store.fields copied = s.store.fields original := congrArg Object.fields hobject
  have hkept : u.store.Has original := Nat.lt_of_lt_of_le horiginal hext.size_le
  have hne : original ≠ copied := fun he => hnew (he ▸ horiginal)
  -- Both objects are there with the same fields now, so what differs later was stored since.
  refine ⟨original, hl, Store.number_lt horiginal hnew, congrArg Object.kind hobject, hcopy,
    hfields, fun runs t hut => ⟨fun object ho field hf => ?_, fun r v field value =>
      ⟨fun hst => ?_, fun hst => ?_⟩⟩⟩
  · have hu : u.store.Has object ∧ u.store.fields object = s.store.fields original := by
      obtain rfl | rfl := ho
      · exact ⟨hkept, hfields⟩
      · exact ⟨hcopied, hcopy⟩
    refine hut.storedBetween hu.1 fun he => hf (he.trans ?_)
    rw [Store.field?, Store.field?, hu.2]
  · exact hst.fields_eq (hut.grows.has hcopied) hne
  · exact hst.fields_eq (hut.grows.has hkept) hne.symm

theorem Run.Contains.lookup?_of_stores {text field expr target name : Text} {leaf : Statement}
    {depth fuel : Nat} {r : Run} {object value : Ref}
    (hf : Statement.classify? text = some (.extend field expr target)) (hq : QuoteFree text)
    (hl : Statement.classify? expr = some leaf) (hqe : QuoteFree expr) (hi : leaf.inner = [])
    (ha : leaf.args? = none) (h : Run.Contains ⟨.evaluation text depth, fuel, s⟩ r)
    (hst : r.Stores object name value t u) : s.scopes.lookup? target = some object := by
  obtain he | ⟨less, h⟩ := h.statement hf hq
  · cases hst
    cases he
  obtain rfl | ⟨inner, hs, h⟩ := Relation.ReflTransGen.cases_head h
  · cases hst with
    | extend ho _ => exact ho
  · cases hs with
    | stored =>
      obtain he | he := Run.Contains.of_leaf hl hqe hi ha h
      · cases hst
        cases he
      · cases hst
        cases he
        cases hi
    | call _ ha => cases ha

theorem heap_discipline_copy : ∃ s t : Session, s.Visited ∧
    s.scopes.lookup? ['a'] = some ⟨7⟩ ∧ s.scopes.lookup? ['b'] = some ⟨11⟩ ∧
    s.store.field? ⟨7⟩ ['x'] = some ⟨9⟩ ∧ s.store.field? ⟨11⟩ ['x'] = some ⟨9⟩ ∧
    t = (evaluate 3 "x <- 2 extends b".toList 0 s).session ∧
    t.store.field? ⟨7⟩ ['x'] = some ⟨9⟩ ∧ t.store.field? ⟨11⟩ ['x'] = some ⟨13⟩ := by
  let first := (evaluate 3 "a <- object".toList 0 Session.new).session
  let second := (evaluate 3 "x <- 1 extends a".toList 0 first).session
  let s := (evaluate 3 "b <- copy a".toList 0 second).session
  let t := (evaluate 3 "x <- 2 extends b".toList 0 s).session
  have hs : s.Evaluated := ((Session.Evaluated.new.evaluate 3 _ 0).evaluate 3 _ 0).evaluate 3 _ 0
  have hform : Statement.classify? "x <- 2 extends b".toList =
      some (.extend ['x'] ['2'] ['b']) := by decide +kernel
  have hleaf : Statement.classify? ['2'] = some (.integer ['2']) := by decide +kernel
  have hb : s.scopes.lookup? ['b'] = some ⟨11⟩ := by decide +kernel
  have hx : s.store.field? ⟨7⟩ ['x'] = some ⟨9⟩ := by decide +kernel
  have hhas : s.store.Has ⟨7⟩ := Store.has_of_field? hx
  obtain ⟨-, -, hleads, -, hstored, -⟩ := heap_discipline hs.visited
  refine ⟨s, t, hs.visited, by decide +kernel, hb, hx, by decide +kernel, rfl, ?_,
    by decide +kernel⟩
  by_contra hf
  rw [← hx] at hf
  obtain ⟨r, value, v, w, hr, -, hst, -⟩ := (hstored _ t (hleads 3 _ 0)).2 ⟨7⟩ ['x'] hhas hf
  have ho := Run.Contains.lookup?_of_stores hform (by decide +kernel) hleaf (by decide) rfl rfl hr
    hst
  cases hb.symm.trans ho

end LineScript
