import LineScript.Proofs.Evaluation.Change

namespace LineScript

open Text Eval

structure Hereditary (P : Text → Prop) : Prop where
  piece {part text : Text} : Piece part text → P text → P part
  lifted {text lifted : Text} {s t : Session} :
    extractLiterals bindLiteral text s = .value (some lifted) t → P text → P lifted

theorem QuoteFree.hereditary : Hereditary QuoteFree where
  piece hp h := hp.quoteFree h
  lifted hl _ := quoteFree_lifted hl

theorem Native.isData_of_result? {function : Native} {operands : List Kind} {kind : Kind}
    (h : function.result? operands = some kind) : kind.IsData := by
  rw [result?.eq_def] at h
  split at h <;> cases h <;> trivial

section

variable {evaluate : Text → Nat → Eval Ref} {name rest : Text} {s : Session}

theorem expand_inspect (h : Directive.table.lookup name = some .inspect) :
    Directive.expand evaluate name rest s =
      (Directive.argument name rest >>= Directive.inspectTarget evaluate)
        (s.record (.directive name rest)) := by
  rw [Directive.expand, record, change_bind_apply, h]

theorem expand_trace (h : Directive.table.lookup name = some .trace) :
    Directive.expand evaluate name rest s =
      Directive.traced evaluate rest (s.record (.directive name rest)) := by
  rw [Directive.expand, record, change_bind_apply, h]

end

section

variable {P : Text → Prop}

theorem changes_withLiterals {text : Text} (ht : P text) (s : Session) {quoted : List (Text × Text)}
    (hq : ∀ pair ∈ quoted, pair ∈ (literals text).quoted) :
    Changes P s (s.withLiterals (quoted.map Prod.fst)) := by
  induction quoted generalizing s with
  | nil => exact .refl
  | cons pair rest ih =>
    have hs : Change P s (s.withLiteral pair.1) := .literal ht (hq pair List.mem_cons_self)
    exact .head hs (ih _ fun other ho => hq other (List.mem_cons_of_mem pair ho))

end

namespace Eval.Course

variable {P : Text → Prop}

theorem operand (function : Native) (param : Text) : Course P (function.operand param) := by
  apply bind (look _)
  intro found
  cases found with
  | none => exact fault nofun
  | some kind => exact pure kind

theorem run (function : Native) : Course P function.run := by
  apply bind (mapM fun param _ => operand function param)
  intro operands
  cases hr : function.result? operands with
  | none => exact fault nofun
  | some kind => exact create (Native.isData_of_result? hr)

theorem argument (name rest : Text) {f : Text → Eval Ref}
    (h : Course P (f (trim rest))) : Course P (Directive.argument name rest >>= f) := by
  by_cases he : (trim rest).isEmpty
  · rw [Directive.argument, if_pos he]
    exact fault fun h : Fault.directiveWithoutArgument name = .unbalancedQuotes => nomatch h
  · rw [Directive.argument, if_neg he]
    exact h

theorem reflectTarget (target : Text) : Course P (Directive.reflectTarget target) := by
  apply bind (look _)
  intro found
  cases found with
  | none => exact fault nofun
  | some ref =>
    apply bind (look _)
    intro kind
    split
    · exact create trivial
    · exact fault nofun

theorem performInteger (numeral : Text) : Course P (performInteger numeral) := by
  rw [LineScript.performInteger]
  split
  · exact fault nofun
  · split
    · exact fault nofun
    · exact create trivial

theorem answerText (value : Ref) : Course P (answerText value) :=
  bind (look _) fun _ => create trivial

variable {evaluate : Text → Nat → Eval Ref}

section

variable (nested : ∀ text depth, P text → Course P (evaluate text depth))
include nested

theorem invoke (callable : Ref) (depth : Nat) : Course P (invoke evaluate callable depth) := by
  refine look_bind fun s hs => ?_
  split
  next function _ => exact run function
  next body hk => exact nested body _ (hs callable body hk)
  next => exact fault nofun

theorem bindArguments (callable : Ref) {args : List Text} (hargs : ∀ arg ∈ args, P arg)
    (depth : Nat) : Course P (bindArguments evaluate callable args depth) := by
  apply bind (look _)
  intro params
  split
  · exact fault nofun
  · split
    · exact fault nofun
    · exact bind (mapM fun arg ha => nested arg _ (hargs arg ha)) fun values =>
        change fun s => .bindAll (params.zip values)

theorem apply (callable : Ref) {args : List Text} (hargs : ∀ arg ∈ args, P arg) (depth : Nat) :
    Course P (apply evaluate callable args depth) := by
  have called := bind (bindArguments nested callable hargs depth) fun _ =>
    invoke nested callable depth
  rw [LineScript.apply]
  split
  · exact afterwards called fun s => .endCall
  · exact called

theorem inspectTarget {target : Text} (ht : P target) :
    Course P (Directive.inspectTarget evaluate target) := by
  apply bind (look _)
  intro found
  cases found with
  | some ref => exact bind (look _) fun _ => create trivial
  | none => exact bind (nested target 0 ht) fun ref => bind (look _) fun _ => create trivial

theorem traced {text : Text} (ht : P text) : Course P (Directive.traced evaluate text) :=
  bind (change fun _ => .trace true) fun _ => afterwards (nested text 0 ht) fun _ => .trace false

theorem expand (hereditary : Hereditary P) (name : Text) {rest : Text} (hr : P rest) :
    Course P (Directive.expand evaluate name rest) := by
  apply bind (change fun s => .directive name rest)
  intro _
  have ht : P (trim rest) := hereditary.piece (.trim rest) hr
  cases Directive.table.lookup name with
  | none => exact fault nofun
  | some directive =>
    cases directive with
    | inspect => exact argument name rest (inspectTarget nested ht)
    | panic => exact fault nofun
    | reflect => exact argument name rest (reflectTarget _)
    | trace => exact traced nested hr
    | scope => exact bind (look _) fun _ => create trivial
    | version => exact create trivial
    | exit => exact fail nofun

theorem performCall (callee : Text) {args : List Text} (hargs : ∀ arg ∈ args, P arg)
    (depth : Nat) : Course P (performCall evaluate callee args depth) := by
  refine bind (resolve callee) fun callable => bind (look _) fun code => ?_
  cases code with
  | none => exact fault nofun
  | some _ => exact apply nested callable hargs depth

theorem performFieldCall (receiver field : Text) {args : List Text} (hargs : ∀ arg ∈ args, P arg)
    (depth : Nat) : Course P (performFieldCall evaluate receiver field args depth) := by
  refine bind (resolve receiver) fun object => bind (look _) fun found => ?_
  cases found with
  | none => exact bind (look _) fun _ => fault nofun
  | some member =>
    apply bind (look _)
    intro code
    cases code with
    | none => exact pure member
    | some _ => exact apply nested member hargs depth

theorem perform (hereditary : Hereditary P) {statement : Statement}
    (hinner : ∀ part ∈ statement.inner, P part) (depth : Nat) :
    Course P (perform evaluate statement depth) := by
  cases statement with
  | comment | empty | object | float | boolean => exact create trivial
  | sequence parts =>
    exact bind (create trivial) fun start =>
      foldlM (fun _ part hm => nested part _ (hinner part hm)) start
  | assign name expr =>
    exact bind (nested expr _ (hinner expr List.mem_cons_self)) fun value =>
      bind (change fun s => .assign name value) fun _ => answerText value
  | extend field expr target =>
    exact bind (resolve target) fun object =>
      bind (nested expr _ (hinner expr List.mem_cons_self)) fun value =>
        bind (change fun s => .setField object field value) fun _ => answerText value
  | fieldCall receiver field args => exact performFieldCall nested receiver field hinner depth
  | call callee args => exact performCall nested callee hinner depth
  | copy source =>
    exact bind (resolve source) fun object s _ => ⟨.single (.copy object), nofun⟩
  | block params body =>
    exact fun s _ => ⟨.single (.block params (hinner body List.mem_cons_self)), nofun⟩
  | integer numeral => exact performInteger numeral
  | directive name rest => exact expand nested hereditary name (hinner rest List.mem_cons_self)
  | identifier name => exact resolve name
  | parenthesized text => exact nested text _ (hinner text List.mem_cons_self)

theorem performText (hereditary : Hereditary P) {text : Text} (ht : P text) (depth : Nat) :
    Course P (performText evaluate text depth) := by
  rw [LineScript.performText]
  split
  next => exact fault (by simp)
  next statement hc =>
    have hinner : ∀ part ∈ statement.inner, P part := fun part hm =>
      hereditary.piece (Statement.piece_of_classify? hc part hm) ht
    exact bind (change fun s => .classified statement) fun _ =>
      perform nested hereditary hinner depth

theorem performLifted (hereditary : Hereditary P) {text : Text} (ht : P text) (depth : Nat) :
    Course P (performLifted evaluate text depth) := by
  intro s hs
  have hc : Changes P s (s.withLiterals ((literals text).quoted.map Prod.fst)) :=
    changes_withLiterals ht s fun _ hp => hp
  have hl := extractLiterals_apply text s
  rw [LineScript.performLifted, bind_apply]
  split at hl
  next =>
    rw [hl]
    have hp := performText nested hereditary (hereditary.lifted hl ht) depth _ (hc.bodies hs)
    exact ⟨hc.trans hp.changes, hp.unbalanced⟩
  next hn =>
    rw [hl]
    exact ⟨hc, fun _ => ⟨text, ht, by simpa using hn⟩⟩

theorem evaluateWith (hereditary : Hereditary P) {text : Text} (ht : P text) (depth : Nat) :
    Course P (evaluateWith evaluate text depth) := by
  intro s hs
  have hp := performLifted nested hereditary ht depth
    (s.record (.evaluating s.tracing depth text)) hs
  exact ⟨.head (.evaluating depth ht) hp.changes, hp.unbalanced⟩

end

end Eval.Course

/-- All that an evaluation does to a session is a chain of changes, for every property of texts that
passes to their pieces and to what is left of them without their literals. -/
theorem evaluate_course {P : Text → Prop} (hereditary : Hereditary P) (fuel : Nat) (text : Text)
    (depth : Nat) (ht : P text) : Eval.Course P (evaluate fuel text depth) := by
  induction fuel generalizing text depth with
  | zero => exact .exhausted
  | succ fuel ih => exact Eval.Course.evaluateWith ih hereditary ht depth

end LineScript
