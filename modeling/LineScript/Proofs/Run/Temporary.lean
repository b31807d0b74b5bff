import LineScript.Proofs.Run.Texts

namespace LineScript

open Text Eval

namespace Run

inductive Binds : Run → Text → Prop where
  | call {callable : Ref} {args : List Text} {depth fuel : Nat} {s t : Session} {name : Text} :
    bindArguments (evaluate fuel) callable args depth s = .value () t →
    name ∈ s.store.parameters callable → Binds ⟨.call callable args depth, fuel, s⟩ name

inductive Forgets : Run → Prop where
  | call {callable : Ref} {args : List Text} {fuel : Nat} {s : Session} :
    Forgets ⟨.call callable args 0, fuel, s⟩

variable {r : Run} {s t : Session} {name : Text}

theorem binds_of_mapM {callable : Ref} {args : List Text} {depth fuel : Nat} {values : List Ref}
    (hl : (s.store.parameters callable).length = args.length)
    (hd : args.mapM (fun arg => evaluate fuel arg (depth + 1)) s = .value values t)
    (hn : name ∈ s.store.parameters callable) : Binds ⟨.call callable args depth, fuel, s⟩ name :=
  .call ((bindArguments_of_length hl depth).trans (bind_of_value hd _)) hn

/-- The step binds the name temporarily, to a literal or to an argument. -/
inductive Inserts : Run → Text → Session → Session → Prop where
  | literal {text literal after : Text} {depth fuel : Nat} {start s : Session} :
    (literal, after) ∈ (literals text).quoted →
    Inserts ⟨.evaluation text depth, fuel, start⟩ (Session.literalName (s.literals + 1)) s
      (s.withLiteral literal)
  | parameter {callable : Ref} {args : List Text} {depth fuel : Nat} {start s : Session}
    {values : List Ref} {name : Text} :
    (start.store.parameters callable).length = args.length →
    args.mapM (fun arg => evaluate fuel arg (depth + 1)) start = .value values s →
    name ∈ start.store.parameters callable →
    Inserts ⟨.call callable args depth, fuel, start⟩ name s
      (s.bindAll ((start.store.parameters callable).zip values))

/-- A step binds a name temporarily, forgets all names or leaves the name as it is. -/
theorem Own.temporary_cases (h : r.Own s t) (name : Text) :
    t.scopes.temporary.get? name = s.scopes.temporary.get? name ∨ r.Inserts name s t ∨
      r.Forgets ∧ t.scopes.temporary = [] := by
  cases h with
  | literal hq =>
    by_cases hn : name = Session.literalName (s.literals + 1)
    · exact .inr (.inl (hn ▸ .literal hq))
    · exact .inl ((Bindings.get?_insert _ _ _ _).trans (if_neg hn))
  | @bindAll callable _ _ _ start _ _ hl hd =>
    by_cases hn : name ∈ start.store.parameters callable
    · exact .inr (.inl (.parameter hl hd hn))
    · refine .inl (Scopes.temporary_bindAll_of_notMem (fun hm => hn ?_) _)
      obtain ⟨pair, hp, rfl⟩ := List.mem_map.mp hm
      exact (List.of_mem_zip hp).1
  | endCall => exact .inr (.inr ⟨.call, rfl⟩)
  | _ => exact .inl rfl

theorem Own.temporary (h : r.Own s t) (hr : r.Over QuoteFree) (hb : ¬r.Binds name) :
    t.scopes.temporary.get? name = s.scopes.temporary.get? name ∨
      r.Forgets ∧ t.scopes.temporary.get? name = none := by
  obtain he | hi | ⟨hf, he⟩ := h.temporary_cases name
  · exact .inl he
  · cases hi with
    | literal hq =>
      rw [literals_of_quoteFree (hr.texts _ List.mem_cons_self)] at hq
      cases hq
    | parameter hl hd hn => exact absurd (binds_of_mapM hl hd hn) hb
  · exact .inr ⟨hf, by rw [he]; rfl⟩

theorem temporary (hr : r.Over QuoteFree) (hb : ∀ inner, r.Contains inner → ¬inner.Binds name) :
    r.outcome.session.scopes.temporary.get? name = r.start.scopes.temporary.get? name ∨
      (∃ inner, r.Contains inner ∧ inner.Forgets) ∧
        r.outcome.session.scopes.temporary.get? name = none := by
  have h := r.moves
  generalize r.outcome.session = t at h
  induction h with
  | refl => exact .inl rfl
  | tail _ hm ih =>
    obtain ⟨inner, hc, ho⟩ := hm
    obtain he | ⟨hf, he⟩ := ho.temporary (hc.over QuoteFree.hereditary hr) (hb inner hc)
    · rw [he]
      exact ih
    · exact .inr ⟨⟨inner, hc, hf⟩, he⟩

/-- The runs that evaluate texts one after the other, up to the first that has no value. -/
def ofTexts (fuel depth : Nat) : List Text → Session → List Run
  | [], _ => []
  | text :: rest, s => ⟨.evaluation text depth, fuel, s⟩ ::
      match evaluate fuel text depth s with
      | .value _ t => ofTexts fuel depth rest t
      | _ => []

theorem ofTexts_singleton (fuel depth : Nat) (text : Text) (s : Session) :
    ofTexts fuel depth [text] s = [⟨.evaluation text depth, fuel, s⟩] := by
  rw [ofTexts]
  split <;> rfl

theorem temporary_mapM {texts : List Text} {fuel depth : Nat} (hp : ∀ text ∈ texts, QuoteFree text)
    (hs : s.store.Bodies QuoteFree) (hn : ∀ r ∈ ofTexts fuel depth texts s, ∀ inner,
      r.Contains inner → ¬inner.Binds name ∧ ¬inner.Forgets) :
    ((texts.mapM fun text => evaluate fuel text depth) s).session.scopes.temporary.get? name =
      s.scopes.temporary.get? name := by
  induction texts generalizing s with
  | nil => rfl
  | cons text rest ih =>
    obtain ⟨ht, hrest⟩ := List.forall_mem_cons.mp hp
    obtain ⟨hfirst, hlater⟩ := List.forall_mem_cons.mp hn
    have hover : Over QuoteFree ⟨.evaluation text depth, fuel, s⟩ :=
      ⟨by simpa [Activity.texts] using ht, hs⟩
    have first := (temporary hover fun inner hc => (hfirst inner hc).1).resolve_right
      fun ⟨⟨inner, hc, hf⟩, _⟩ => (hfirst inner hc).2 hf
    have bodies := evaluate_course QuoteFree.hereditary fuel text depth ht
    change (evaluate fuel text depth s).session.scopes.temporary.get? name = _ at first
    rw [List.mapM_cons, bind_apply]
    cases he : evaluate fuel text depth s with
    | value value t =>
      rw [he] at first hlater
      have later := ih hrest (bodies_of_value bodies hs he) hlater
      simp only [bind_apply]
      generalize (rest.mapM fun text => evaluate fuel text depth) t = o at later ⊢
      cases o <;> exact later.trans first
    | _ =>
      rw [he] at first
      exact first

theorem Contains.statement {text : Text} {form : Statement} {depth fuel : Nat}
    (hc : Statement.classify? text = some form) (hq : QuoteFree text)
    (h : Contains ⟨.evaluation text depth, fuel, s⟩ r) :
    r.activity = .evaluation text depth ∨ ∃ less, Contains ⟨.statement form depth, less,
      (s.record (.evaluating s.tracing depth text)).record (.classified form)⟩ r := by
  obtain rfl | ⟨first, hf, h⟩ := Relation.ReflTransGen.cases_head h
  · exact .inl rfl
  · cases hf with
    | statement hl hc' =>
      rw [extractLiterals_of_quoteFree hq] at hl
      cases hl
      cases hc.symm.trans hc'
      exact .inr ⟨_, h⟩

theorem Contains.of_leaf {text : Text} {form : Statement} {depth fuel : Nat}
    (hc : Statement.classify? text = some form) (hq : QuoteFree text) (hi : form.inner = [])
    (ha : form.args? = none) (h : Contains ⟨.evaluation text depth, fuel, s⟩ r) :
    r.activity = .evaluation text depth ∨ r.activity = .statement form depth := by
  obtain he | ⟨less, h⟩ := h.statement hc hq
  · exact .inl he
  obtain rfl | ⟨inner, hs, -⟩ := Relation.ReflTransGen.cases_head h
  · exact .inr rfl
  · cases hs with
    | call _ ha' => cases ha.symm.trans ha'
    | part => simp [Statement.inner] at hi
    | _ => cases hi

theorem Contains.quoteFree {text : Text} {depth fuel : Nat}
    (h : Contains ⟨.evaluation text depth, fuel, s⟩ r) (hs : s.store.Bodies QuoteFree) :
    r = ⟨.evaluation text depth, fuel, s⟩ ∨ r.Over QuoteFree := by
  obtain rfl | ⟨first, hf, hc⟩ := Relation.ReflTransGen.cases_head h
  · exact .inl rfl
  · exact .inr (Contains.over QuoteFree.hereditary hc (hf.quoteFree hs))

end Run

/-- Evaluating the first arguments of a call, wherever in a line it is made, leaves the temporary
binding of a name as it is, and so a later argument that is the name has the value that was bound to
it before the call. That fails only if a call made by these arguments binds the name or is made at
depth zero. -/
theorem arguments_keep_temporary {s : Session} (hs : s.Reachable) {line : Text}
    {lineDepth lineFuel : Nat} {callable : Ref} {args : List Text} {depth fuel : Nat} {u : Session}
    (hc : Run.Contains ⟨.evaluation line lineDepth, lineFuel, s⟩
      ⟨.call callable args depth, fuel, u⟩)
    {front : List Text} (hf : front <+: args) (name : Text) :
    let t := ((front.mapM fun arg => evaluate fuel arg (depth + 1)) u).session
    (t.scopes.temporary.get? name = u.scopes.temporary.get? name ∧
      ∀ value, u.scopes.temporary.get? name = some value →
        ∀ arg ∈ args, Statement.classify? arg = some (.identifier name) →
          ∀ n, ∃ v, evaluate (n + 1) arg (depth + 1) t = .value value v) ∨
    ∃ r ∈ Run.ofTexts fuel (depth + 1) front u, ∃ inner, r.Contains inner ∧
      (inner.Binds name ∨ inner.Forgets) := by
  intro t
  obtain he | hover := hc.quoteFree hs.bodies
  · cases he
  obtain hn | hn := Classical.em (∃ r ∈ Run.ofTexts fuel (depth + 1) front u, ∃ inner,
    r.Contains inner ∧ (inner.Binds name ∨ inner.Forgets))
  · exact .inr hn
  have kept : t.scopes.temporary.get? name = u.scopes.temporary.get? name := by
    refine Run.temporary_mapM (fun arg ha => hover.texts arg (hf.subset ha)) hover.bodies ?_
    exact fun r hr inner hc => ⟨fun hb => hn ⟨r, hr, inner, hc, .inl hb⟩,
      fun hb => hn ⟨r, hr, inner, hc, .inr hb⟩⟩
  refine .inl ⟨kept, fun value hv arg ha hi n => ?_⟩
  have hl : t.scopes.lookup? name = some value := by
    rw [Scopes.lookup?, kept, hv]
    rfl
  rw [evaluate_of_classify? (hover.texts arg ha) hi]
  exact ⟨_, resolve_of_lookup? hl⟩

theorem arguments_keep_temporary_in_body : ∃ s u value, s.Reachable ∧
    (Run.ofLine 9 "shift:5".toList s).Contains ⟨.call ⟨7⟩ [['1'], ['x']] 1, 7, u⟩ ∧
    u.scopes.temporary.get? ['x'] = some value ∧
    ∀ n, ∃ v, evaluate (n + 1) ['x'] (1 + 1)
      (([['1']].mapM fun arg => evaluate 7 arg (1 + 1)) u).session = .value value v := by
  let first := (evalSource 9 "pair <- [x,y|add:x,y]".toList Session.new).session
  let s := (evalSource 9 "shift <- [x|pair:1,x]".toList first).session
  let entered := (s.record (.evaluating s.tracing 0 "shift:5".toList)).record
    (.classified (.call "shift".toList [['5']]))
  let bound := (bindArguments (evaluate 8) ⟨10⟩ [['5']] 0 entered).session
  let u := (bound.record (.evaluating bound.tracing 1 "pair:1,x".toList)).record
    (.classified (.call "pair".toList [['1'], ['x']]))
  have hp : (evalSource 9 "pair <- [x,y|add:x,y]".toList Session.new).value? = some ⟨9⟩ := by
    decide +kernel
  have hf : (evalSource 9 "shift <- [x|pair:1,x]".toList first).value? = some ⟨12⟩ := by
    decide +kernel
  have hs : s.Reachable := (Session.Reachable.new.line_of_value? hp).line_of_value? hf
  have hbound : bindArguments (evaluate 8) ⟨10⟩ [['5']] 0 entered = .value () bound :=
    Outcome.eq_of_value? (by decide +kernel)
  have hline : (Run.ofLine 9 "shift:5".toList s).Contains ⟨.call ⟨10⟩ [['5']] 0, 8, entered⟩ :=
    .call_of_quoteFree (by decide +kernel) (by decide +kernel) rfl (by decide +kernel) 0 8
  have hbody : Run.Contains ⟨.call ⟨10⟩ [['5']] 0, 8, entered⟩
      ⟨.evaluation "pair:1,x".toList 1, 8, bound⟩ :=
    .body_of_call hbound (by decide +kernel)
  have hcall : Run.Contains ⟨.evaluation "pair:1,x".toList 1, 8, bound⟩
      ⟨.call ⟨7⟩ [['1'], ['x']] 1, 7, u⟩ :=
    .call_of_quoteFree (by decide +kernel) (by decide +kernel) rfl (by decide +kernel) 1 7
  have hc := (hline.trans hbody).trans hcall
  have hx : u.scopes.temporary.get? ['x'] = some ⟨13⟩ := by decide +kernel
  have hfront : [['1']] <+: [['1'], ['x']] := ⟨[['x']], rfl⟩
  refine ⟨s, u, ⟨13⟩, hs, hc, hx, ?_⟩
  obtain ⟨-, h⟩ | ⟨r, hr, inner, hi, hb⟩ := arguments_keep_temporary hs hc hfront ['x']
  · exact h ⟨13⟩ hx ['x'] (by decide) (by decide +kernel)
  · have hn : Statement.classify? ['1'] = some (.integer ['1']) := by decide +kernel
    rw [Run.ofTexts_singleton, List.mem_singleton] at hr
    subst hr
    obtain ha | ha := hi.of_leaf hn (by decide) rfl rfl
    all_goals obtain hb | hb := hb <;> cases hb <;> cases ha

/-- An argument of a block's body calls another block, whose parameter has the same name. The name
keeps the other block's argument, with which the rest of the body goes on. -/
theorem arguments_disturb_temporary : ∃ s callable u value, s.Reachable ∧
    (Run.ofLine 9 "f:5".toList s).Contains ⟨.call callable ["(g:1)".toList, ['x']] 1, 7, u⟩ ∧
    u.scopes.temporary.get? ['x'] = some value ∧
    ((["(g:1)".toList].mapM fun arg => evaluate 7 arg 2) u).session.scopes.temporary.get? ['x'] ≠
      some value ∧
    ∃ answer t, evalSource 9 "f:5".toList s = .value answer t ∧ t.store.text answer = ['1'] := by
  let first := (evalSource 9 "g <- [x|0]".toList Session.new).session
  let s := (evalSource 9 "f <- [x|add:(g:1),x]".toList first).session
  let entered := (s.record (.evaluating s.tracing 0 "f:5".toList)).record
    (.classified (.call ['f'] [['5']]))
  let bound := (bindArguments (evaluate 8) ⟨10⟩ [['5']] 0 entered).session
  let form : Statement := .call "add".toList ["(g:1)".toList, ['x']]
  have hg : (evalSource 9 "g <- [x|0]".toList Session.new).value? = some ⟨9⟩ := by decide +kernel
  have hf : (evalSource 9 "f <- [x|add:(g:1),x]".toList first).value? = some ⟨12⟩ := by
    decide +kernel
  have hs : s.Reachable := (Session.Reachable.new.line_of_value? hg).line_of_value? hf
  have hbound : bindArguments (evaluate 8) ⟨10⟩ [['5']] 0 entered = .value () bound :=
    Outcome.eq_of_value? (by decide +kernel)
  have hline : (Run.ofLine 9 "f:5".toList s).Contains ⟨.call ⟨10⟩ [['5']] 0, 8, entered⟩ :=
    .call_of_quoteFree (by decide +kernel) (by decide +kernel) rfl (by decide +kernel) 0 8
  have hbody : Run.Contains ⟨.call ⟨10⟩ [['5']] 0, 8, entered⟩
      ⟨.evaluation "add:(g:1),x".toList 1, 8, bound⟩ :=
    .body_of_call hbound (by decide +kernel)
  have hcall : Run.Contains ⟨.evaluation "add:(g:1),x".toList 1, 8, bound⟩ ⟨.call ⟨1⟩ _ 1, 7,
      (bound.record (.evaluating bound.tracing 1 "add:(g:1),x".toList)).record
        (.classified form)⟩ :=
    .call_of_quoteFree (by decide +kernel) (by decide +kernel) rfl (by decide +kernel) 1 7
  refine ⟨s, ⟨1⟩, _, ⟨13⟩, hs, (hline.trans hbody).trans hcall, by decide +kernel,
    by decide +kernel, ?_⟩
  exact ⟨_, _, Outcome.eq_of_value? (a := ⟨16⟩) (by decide +kernel), by decide +kernel⟩

-- The call behind the directive is at depth zero, and `x` is forgotten with the other bindings.
example : (evalSource 10 "h:5".toList (evalSource 10 "h <- [x|add:(!trace inc:1),x]".toList
    Session.new).session).failure? = some (.fault (.unboundName ['x'])) := by
  decide +kernel

end LineScript
