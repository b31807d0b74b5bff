import LineScript.Proofs.Comparison.Outcomes

namespace LineScript

open Text Eval

variable {c : Comparison}

namespace Eval.InStep

theorem operand (function : Native) (param : Text) :
    InStep c Eq (function.operand param) (function.operand param) := by
  apply bind (look (V := Eq) fun _ _ hs =>
    hs.agree.store.map_kind_eq (hs.scopes.temporary.get? param))
  rintro found _ rfl
  cases found with
  | none => exact fault _
  | some kind => exact pure rfl

theorem run (function : Native) : InStep c c.pairs function.run function.run := by
  apply bind (mapM (operand function) function.params)
  intro operands operands' ho
  obtain rfl := List.forall₂_eq_eq_eq ▸ ho
  cases hr : function.result? operands with
  | none => exact fault _
  | some kind => exact create (Native.isData_of_result? hr)

theorem argument (name rest : Text) :
    InStep c (fun target target' => target = trim rest ∧ target' = trim rest)
      (Directive.argument name rest) (Directive.argument name rest) := by
  rw [Directive.argument]
  split
  · exact fault _
  · exact pure ⟨rfl, rfl⟩

theorem reflectTarget (target : Text) :
    InStep c c.pairs (Directive.reflectTarget target) (Directive.reflectTarget target) := by
  apply bind (look (V := Option.Rel c.pairs) fun _ _ hs => hs.scopes.persistent.get? target)
  intro found found' hf
  cases hf with
  | none => exact fault _
  | some hp =>
    apply bind (look (V := Eq) fun _ _ hs => hs.agree.store.kind_eq hp)
    rintro kind _ rfl
    split
    · exact create trivial
    · exact fault _

theorem performInteger (numeral : Text) :
    InStep c c.pairs (performInteger numeral) (performInteger numeral) := by
  rw [LineScript.performInteger]
  split
  · exact fault _
  · split
    · exact fault _
    · exact create trivial

theorem answerText {value value' : Ref} (h : c.pairs value value') :
    InStep c c.pairs (answerText value) (answerText value') := by
  apply bind (look (V := Eq) fun _ _ hs => hs.agree.store.text_eq h)
  rintro text _ rfl
  exact create trivial

theorem assign (name : Text) {value value' : Ref} (h : c.pairs value value') :
    InStep c Eq (Eval.change fun s => s.assign name value)
      (Eval.change fun s => s.assign name value') :=
  change fun _ _ hs => hs.onScopes (hs.scopes.assign name h)

theorem setField {object object' value value' : Ref} (ho : c.pairs object object') (field : Text)
    (h : c.pairs value value') : InStep c Eq (Eval.change fun s => s.setField object field value)
      (Eval.change fun s => s.setField object' field value') :=
  change fun _ _ hs => hs.onStore (hs.stores.setField ho field h)

theorem bindAll (names : List Text) {values values' : List Ref}
    (h : List.Forall₂ c.pairs values values') :
    InStep c Eq (Eval.change fun s => s.bindAll (names.zip values))
      (Eval.change fun s => s.bindAll (names.zip values')) :=
  change fun _ _ hs => hs.onScopes (hs.scopes.bindAll (.zip h names))

theorem extractLiterals (text : Text) :
    InStep c Eq (extractLiterals bindLiteral text) (extractLiterals bindLiteral text) := by
  intro s t hs
  rw [extractLiterals_apply, extractLiterals_apply, hs.literals_eq]
  exact .value rfl (hs.withLiterals _)

end Eval.InStep

namespace Eval.Follows

variable {P : Text → Prop} {evaluate evaluate' : Text → Nat → Eval Ref}

section

variable (nested : ∀ text depth, P text →
  Follows c c.pairs (evaluate text depth) (evaluate' text depth))
include nested

theorem invoke (hbody : ∀ body, c.Body body → P body) {callable callable' : Ref}
    (hp : c.pairs callable callable') (depth : Nat) :
    Follows c c.pairs (invoke evaluate callable depth) (invoke evaluate' callable' depth) := by
  intro s t hs
  have hk := hs.agree.store.kind_eq hp
  rw [LineScript.invoke, LineScript.invoke, bind_apply, bind_apply, look_apply, look_apply, ← hk]
  cases hc : s.store.kind callable with
  | callable code =>
    cases code with
    | native function => exact of_inStep (.run function) hs
    | block body => exact nested body _ (hbody body (hs.stores.body hp hc)) hs
  | _ => exact of_inStep (.fault _) hs

theorem inspectTarget (hd : c.Diagonal) {target : Text} (ht : P target) :
    Follows c c.pairs (Directive.inspectTarget evaluate target)
      (Directive.inspectTarget evaluate' target) := by
  have report (title : Text) {ref ref' : Ref} (hp : c.pairs ref ref') :
      InStep c c.pairs
        (do let report ← look fun s => s.describeObject title ref; create (.string report))
        (do let report ← look fun s => s.describeObject title ref'; create (.string report)) := by
    obtain rfl := hd hp
    apply InStep.bind (.look (V := Eq) fun _ _ hs => hs.agree.describeObject_eq hp title)
    rintro text _ rfl
    exact .create trivial
  apply behind (.look (V := Option.Rel c.pairs) fun _ _ hs => hs.scopes.persistent.get? target)
  intro found found' hf
  cases hf with
  | some hp => exact of_inStep (report target hp)
  | none =>
    refine bind (nested target 0 ht) (fun ref => .bind (.look _) fun _ => .create trivial) ?_
    exact fun _ _ hp => of_inStep (report Directive.anonymous hp)

theorem traced {text : Text} (ht : P text) :
    Follows c c.pairs (Directive.traced evaluate text) (Directive.traced evaluate' text) :=
  behind (.change fun _ _ hs => hs.trace true) fun _ _ _ =>
    afterwards (nested text 0 ht) (fun _ _ hs => hs.trace false) fun _ => List.Subset.refl _

variable (kept : ∀ text depth, KeepsLog (evaluate text depth))
include kept

theorem bindArguments {callable callable' : Ref} (hp : c.pairs callable callable')
    {args : List Text} (hargs : ∀ arg ∈ args, P arg) (depth : Nat) :
    Follows c Eq (bindArguments evaluate callable args depth)
      (bindArguments evaluate' callable' args depth) := by
  apply behind (.look (V := Eq) fun _ _ hs => hs.agree.store.parameters_eq hp)
  rintro params _ rfl
  split
  · exact of_inStep (.fault _)
  · split
    · exact of_inStep (.fault _)
    · refine bind (mapM (fun arg ha => nested arg _ (hargs arg ha)) fun arg => kept arg _)
        (fun values => .change fun s => .bindAll (params.zip values)) fun values values' hv => ?_
      exact of_inStep (.bindAll params hv)

theorem apply (hbody : ∀ body, c.Body body → P body) {callable callable' : Ref}
    (hp : c.pairs callable callable') {args : List Text} (hargs : ∀ arg ∈ args, P arg)
    (depth : Nat) :
    Follows c c.pairs (apply evaluate callable args depth)
      (apply evaluate' callable' args depth) := by
  have called := bind (bindArguments nested kept hp hargs depth)
    (fun _ => .invoke (fun text depth _ => kept text depth) callable depth)
    fun _ _ _ => invoke nested hbody hp depth
  rw [LineScript.apply, LineScript.apply]
  split
  · exact afterwards called (fun _ _ hs => hs.endCall) fun _ => List.subset_cons_self _ _
  · exact called

theorem expand (htrim : ∀ text, P text → P (trim text)) (name : Text) {rest : Text} (hr : P rest) :
    Follows c c.pairs (Directive.expand evaluate name rest)
      (Directive.expand evaluate' name rest) := by
  intro s t hs
  have hs := hs.record (.directive name rest)
  rw [Directive.expand, Directive.expand, record, change_bind_apply, change_bind_apply]
  cases hn : Directive.table.lookup name with
  | none => exact of_inStep (.fault _) hs
  | some directive =>
    cases directive with
    | inspect =>
      by_cases hd : c.Diagonal
      · refine behind (.argument name rest) ?_ hs
        rintro _ _ ⟨rfl, rfl⟩
        exact inspectTarget nested hd (htrim rest hr)
      · have inspected : (s.record (.directive name rest)).Inspected :=
          ⟨_, List.mem_cons_self, hn⟩
        have keeps : KeepsLog (Directive.argument name rest >>= Directive.inspectTarget evaluate) :=
          .argument name rest (.inspectTarget (fun text depth _ => kept text depth) trivial)
        exact .inr ⟨hd, inspected.mono (keeps.log _)⟩
    | panic => exact of_inStep (.fault _) hs
    | reflect =>
      refine of_inStep (.bind (.argument name rest) ?_) hs
      rintro _ _ ⟨rfl, rfl⟩
      exact .reflectTarget _
    | trace => exact traced nested hr hs
    | scope =>
      refine of_inStep (.bind (.look (V := Eq) fun _ _ hs => hs.agree.describeScopes_eq) ?_) hs
      rintro text _ rfl
      exact .create trivial
    | version => exact of_inStep (@InStep.create c (.string identity) trivial) hs
    | exit => exact of_inStep (.fail .exit) hs

theorem performCall (hbody : ∀ body, c.Body body → P body) (callee : Text) {args : List Text}
    (hargs : ∀ arg ∈ args, P arg) (depth : Nat) :
    Follows c c.pairs (performCall evaluate callee args depth)
      (performCall evaluate' callee args depth) := by
  apply behind (.resolve callee)
  intro callable callable' hp
  apply behind (.look (V := Eq) fun _ _ hs => congrArg Kind.callable? (hs.agree.store.kind_eq hp))
  rintro code _ rfl
  cases code with
  | none => exact of_inStep (.fault _)
  | some _ => exact apply nested kept hbody hp hargs depth

theorem performFieldCall (hbody : ∀ body, c.Body body → P body) (receiver field : Text)
    {args : List Text} (hargs : ∀ arg ∈ args, P arg) (depth : Nat) :
    Follows c c.pairs (performFieldCall evaluate receiver field args depth)
      (performFieldCall evaluate' receiver field args depth) := by
  apply behind (.resolve receiver)
  intro object object' ho
  apply behind (.look (V := Option.Rel c.pairs) fun _ _ hs => hs.agree.store.field? ho field)
  intro found found' hf
  cases hf with
  | none =>
    apply behind (.look (V := Eq) fun _ _ hs => (hs.agree.store.fields ho).names_eq)
    rintro known _ rfl
    exact of_inStep (.fault _)
  | some hp =>
    apply behind (.look (V := Eq) fun _ _ hs => congrArg Kind.callable? (hs.agree.store.kind_eq hp))
    rintro code _ rfl
    cases code with
    | none => exact of_inStep (.pure hp)
    | some _ => exact apply nested kept hbody hp hargs depth

theorem perform (hbody : ∀ body, c.Body body → P body) (htrim : ∀ text, P text → P (trim text))
    {statement : Statement} (hinner : ∀ part ∈ statement.inner, P part)
    (hblock : ∀ params body, statement = .block params body → c.Body body) (depth : Nat) :
    Follows c c.pairs (perform evaluate statement depth) (perform evaluate' statement depth) := by
  cases statement with
  | comment | empty | object | float | boolean => exact of_inStep (.create trivial)
  | sequence parts =>
    exact behind (.create trivial) fun _ _ hp => foldlM
      (fun part hm _ _ _ => nested part _ (hinner part hm)) (fun _ part => kept part _) hp
  | assign name expr =>
    refine bind (nested expr _ (hinner expr List.mem_cons_self)) (fun value => ?_) ?_
    · exact .bind (.change fun s => .assign name value) fun _ => .answerText value
    · exact fun _ _ hv => of_inStep (.bind (.assign name hv) fun _ _ _ => .answerText hv)
  | extend field expr target =>
    refine behind (.resolve target) fun object object' ho => ?_
    refine bind (nested expr _ (hinner expr List.mem_cons_self)) (fun value => ?_) ?_
    · exact .bind (.change fun s => .setField object field value) fun _ => .answerText value
    · exact fun _ _ hv => of_inStep (.bind (.setField ho field hv) fun _ _ _ => .answerText hv)
  | fieldCall receiver field args =>
    exact performFieldCall nested kept hbody receiver field hinner depth
  | call callee args => exact performCall nested kept hbody callee hinner depth
  | copy source =>
    exact of_inStep (.bind (.resolve source) fun _ _ hp => .onStore fun _ _ hs => hs.copy hp)
  | block params body =>
    refine of_inStep (.onStore fun _ _ hs => hs.allocCallable params (.block body) ?_)
    intro other he
    cases he
    exact hblock params body rfl
  | integer numeral => exact of_inStep (.performInteger numeral)
  | directive name rest => exact expand nested kept htrim name (hinner rest List.mem_cons_self)
  | identifier name => exact of_inStep (.resolve name)
  | parenthesized inner => exact nested inner _ (hinner inner List.mem_cons_self)

theorem performText (hbody : ∀ body, c.Body body → P body) (htrim : ∀ text, P text → P (trim text))
    {text : Text} (hinner : ∀ statement, Statement.classify? text = some statement →
      (∀ part ∈ statement.inner, P part) ∧
        ∀ params body, statement = .block params body → c.Body body) (depth : Nat) :
    Follows c c.pairs (performText evaluate text depth) (performText evaluate' text depth) := by
  rw [LineScript.performText, LineScript.performText]
  split
  next => exact of_inStep (.fault _)
  next statement hc =>
    obtain ⟨hparts, hblock⟩ := hinner statement hc
    exact behind (.change fun _ _ hs => hs.record _) fun _ _ _ =>
      perform nested kept hbody htrim hparts hblock depth

end

theorem evaluateWith {text : Text} {depth : Nat} {s t : Session} (hs : c.SessionsAgree s t)
    (h : ∀ lifted u, Text.extractLiterals bindLiteral text
        (s.record (.evaluating s.tracing depth text)) = .value (some lifted) u →
      Follows c c.pairs (LineScript.performText evaluate lifted depth)
        (LineScript.performText evaluate' lifted depth)) :
    (evaluateWith evaluate text depth s).Follows c c.pairs
      (evaluateWith evaluate' text depth t) := by
  have entered := hs.record (.evaluating s.tracing depth text)
  rw [evaluateWith_apply, evaluateWith_apply, ← hs.tracing_eq, performLifted, performLifted,
    bind_apply, bind_apply]
  have hl := InStep.extractLiterals (c := c) text entered
  cases ho : Text.extractLiterals bindLiteral text
      (s.record (.evaluating s.tracing depth text)) with
  | value found u =>
    rw [ho] at hl
    generalize Text.extractLiterals bindLiteral text _ = o' at hl ⊢
    cases hl with
    | value he hu =>
      subst he
      cases found with
      | none => exact of_inStep (.fault _) hu
      | some lifted => exact h lifted u ho hu
  | failure why u | exhausted u =>
    rw [extractLiterals_apply] at ho
    cases ho

end Eval.Follows

theorem keepsLog_evaluate (fuel : Nat) (text : Text) (depth : Nat) :
    KeepsLog (evaluate fuel text depth) :=
  evaluate_course ⟨fun _ _ => trivial, fun _ _ => trivial⟩ fuel text depth trivial

theorem evaluate_follows (hb : ∀ body, c.Body body) (he : c.Exhaustible) (fuel : Nat) (text : Text)
    (depth : Nat) : Follows c c.pairs (evaluate fuel text depth) (evaluate fuel text depth) := by
  induction fuel generalizing text depth with
  | zero => exact fun s t hs => .inl (.exhausted he hs)
  | succ fuel ih =>
    intro s t hs
    refine Follows.evaluateWith hs fun lifted u _ => ?_
    exact .performText (P := fun _ => True) (fun text depth _ => ih text depth)
      (keepsLog_evaluate fuel) (fun _ _ => trivial) (fun _ _ => trivial)
      (fun _ _ => ⟨fun _ _ => trivial, fun _ body _ => hb body⟩) depth

end LineScript
