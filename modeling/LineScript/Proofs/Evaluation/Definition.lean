import LineScript.Proofs.Evaluation.Lifting
import LineScript.Proofs.Object.Extends
import LineScript.Proofs.Statement.Forms

namespace LineScript

open Text Eval
open LineScript.Statement (arrow isFieldChar)

def bracketed (list body : Text) : Text :=
  '[' :: list ++ '|' :: body ++ [']']

def reflectName : Text := ['r', 'e', 'f', 'l', 'e', 'c', 't']

def reflectWord : Text := ['!', 'r', 'e', 'f', 'l', 'e', 'c', 't', ' ']

section

variable {name list body : Text}

theorem clear_bracketed (hl : list.all isFieldChar) (hc : Clear ';' 1 body) :
    Clear ';' 0 (bracketed list body) := by
  have hlist : Clear ';' 1 list := .of_notMem (notMem_of_all hl (by decide)) 1
  have hinner : Clear ';' 1 (list ++ '|' :: body) := by
    rw [Clear.append_iff, depthAfter_of_all hl _ (by decide), Clear.cons_iff]
    exact ⟨hlist, by decide, hc⟩
  exact hinner.enclosed (by decide) (by decide) (by decide)

theorem clear_definition (hn : isName name) (hl : list.all isFieldChar) (hc : Clear ';' 1 body) :
    Clear ';' 0 (name ++ arrow ++ bracketed list body) := by
  have hw := (isName_iff.mp hn).2
  have hname : Clear ';' 0 name := .of_notMem (notMem_of_all hw (by decide)) 0
  rw [Clear.append_iff, Clear.append_iff, depthAfter_append, depthAfter_of_all hw _ (by decide)]
  exact ⟨⟨hname, by decide⟩, clear_bracketed hl hc⟩

theorem quote_notMem_bracketed (hl : list.all isFieldChar) (hq : '"' ∉ body) :
    '"' ∉ bracketed list body := by
  have hlist : '"' ∉ list := notMem_of_all hl (by decide)
  simp [bracketed, hlist, hq]

theorem quoteFree_definition (hn : isName name) (hl : list.all isFieldChar) (hq : '"' ∉ body) :
    QuoteFree (name ++ arrow ++ bracketed list body) := by
  have hname : '"' ∉ name := notMem_of_isName hn (by decide)
  have hblock := quote_notMem_bracketed hl hq
  exact quoteFree_of_notMem (by simp [arrow, hname, hblock])

theorem classify?_definition (hn : isName name) (hl : list.all isFieldChar) (hb : '\n' ∉ body)
    (hc : Clear ';' 1 body) : Statement.classify? (name ++ arrow ++ bracketed list body) =
      some (.assign name (bracketed list body)) := by
  have hlast : (bracketed list body).getLast? = some ']' := List.getLast?_concat
  have hlist : '\n' ∉ list := notMem_of_all hl (by decide)
  have hline : '\n' ∉ bracketed list body := by simp [bracketed, hlist, hb]
  exact Statement.classify?_assign_of_getLast? hn hlast (by decide) hline
    (clear_definition hn hl hc)

theorem classify?_bracketed (hl : list.all isFieldChar) (hb : '\n' ∉ body) (hc : Clear ';' 1 body) :
    Statement.classify? (bracketed list body) = some (.block (Statement.parameters list) body) :=
  Statement.classify?_block hl hb (clear_bracketed hl hc)

theorem classify?_reflect (hn : isName name) :
    Statement.classify? (reflectWord ++ name) = some (.directive reflectName name) := by
  have hclear : Clear ';' 0 (reflectWord ++ name) := by
    have hname : ';' ∉ name := notMem_of_isName hn (by decide)
    exact .of_notMem (by simp [reflectWord, hname]) 0
  have hnone : Statement.copyWord.isSuffixOf? (Statement.sigil :: reflectName ++ [' ']) = none := by
    decide
  have hcopy : Statement.copy? (Statement.sigil :: reflectName ++ ' ' :: name) = none := by
    rw [Statement.copy?, Statement.nameAfter?_append hn, hnone]
    rfl
  have hread := Statement.classify?_directive (by decide : ' ' ∉ reflectName) hclear
  exact hread.trans (congrArg (Option.or · _) hcopy)

end

section

variable {line name text body : Text} {params : List Text}

theorem evaluate_block (hq : QuoteFree text)
    (hb : Statement.classify? text = some (.block params body)) (fuel depth : Nat) (s : Session) :
    ∃ ref t, evaluate (fuel + 1) text depth s = .value ref t ∧ s.store.Extends t.store ∧
      t.scopes = s.scopes ∧ t.store.IsCallable ref params (.block body) := by
  rw [evaluate_of_classify? hq hb]
  exact ⟨_, _, rfl, .allocCallable _ _, rfl, s.store.isCallable_allocCallable params _⟩

theorem performAssign_of_value {evaluate : Text → Nat → Eval Ref} {depth : Nat} {s t : Session}
    {ref : Ref} (h : evaluate text (depth + 1) s = .value ref t) :
    performAssign evaluate name text depth s =
      create (.string (t.store.text ref)) (t.assign name ref) := by
  rw [performAssign, bind_of_value h]
  rfl

theorem evalSource_define (hq : QuoteFree line)
    (hl : Statement.classify? line = some (.assign name text)) (hqt : QuoteFree text)
    (hb : Statement.classify? text = some (.block params body)) (fuel : Nat) (s : Session) :
    ∃ answer ref t, evalSource (fuel + 2) line s = .value answer t ∧
      t.store.kind answer = .string "<CallableType>".toList ∧ s.store.Extends t.store ∧
      t.scopes = s.scopes.assign name ref ∧ t.store.IsCallable ref params (.block body) := by
  let entered := (s.record (.evaluating s.tracing 0 line)).record (.classified (.assign name text))
  obtain ⟨ref, t, he, hstore, hscopes, hcallable⟩ := evaluate_block hqt hb fuel 1 entered
  have htext : t.store.text ref = "<CallableType>".toList := by
    rw [Store.text, hcallable.kind]
    rfl
  have hline : evalSource (fuel + 2) line s =
      create (.string (t.store.text ref)) (t.assign name ref) := by
    rw [evalSource, evaluate_of_classify? hq hl, perform]
    exact performAssign_of_value he
  have hadded : t.store.Extends (t.store.alloc ⟨.string (t.store.text ref), []⟩).2 := .alloc _
  refine ⟨_, ref, _, hline, ?_, hstore.trans hadded, ?_, hadded.isCallable hcallable⟩
  · exact (congrArg Object.kind (t.store.object_alloc_self _)).trans (congrArg Kind.string htext)
  · exact congrArg (Scopes.assign · name ref) hscopes

theorem reflectTarget_of_block {ref : Ref} {s : Session}
    (hp : s.scopes.persistent.get? name = some ref)
    (hk : s.store.kind ref = .callable (.block body)) :
    Directive.reflectTarget name s = create (.string body) s := by
  simp only [Directive.reflectTarget, bind_apply, look_apply, hp, hk]

theorem evalSource_reflect {ref : Ref} {s : Session} (hn : isName name)
    (hp : s.scopes.persistent.get? name = some ref)
    (hk : s.store.kind ref = .callable (.block body)) (fuel : Nat) :
    ∃ answer t, evalSource (fuel + 1) (reflectWord ++ name) s = .value answer t ∧
      t.store.kind answer = .string body := by
  have hq : QuoteFree (reflectWord ++ name) := by
    have hname : '"' ∉ name := notMem_of_isName hn (by decide)
    exact quoteFree_of_notMem (by simp [reflectWord, hname])
  have hfound : Directive.table.lookup reflectName = some .reflect := by decide +kernel
  have hargument : Directive.argument reflectName name = pure name := by
    have hne : name.isEmpty = false := by simpa using (isName_iff.mp hn).1
    rw [Directive.argument, trim_of_isName hn, if_neg (by simp [hne])]
  let entered := ((s.record (.evaluating s.tracing 0 (reflectWord ++ name))).record
    (.classified (.directive reflectName name))).record (.directive reflectName name)
  have htarget : Directive.reflectTarget name entered = create (.string body) entered :=
    reflectTarget_of_block hp hk
  rw [evalSource, evaluate_of_classify? hq (classify?_reflect hn), perform, Directive.expand,
    record, change_bind_apply, hfound]
  simp only [hargument, pure_bind]
  exact ⟨_, _, htarget, congrArg Object.kind (Store.object_alloc_self _ _)⟩

end

/-- Defining a block and reflecting it gives the body back as it is written, and the parameters are
the names in the list, whatever else the body holds: only a quote would begin a literal, and a
semicolon outside of its brackets or the end of the line would end the statement. -/
theorem definition_reflects (s : Session) {name list body : Text} (hn : isName name)
    (hl : list.all isFieldChar) (hb : '\n' ∉ body) (hq : '"' ∉ body) (hc : Clear ';' 1 body)
    (fuel : Nat) : ∃ answer ref t,
      evalSource (fuel + 2) (name ++ arrow ++ bracketed list body) s = .value answer t ∧
      t.store.kind answer = .string "<CallableType>".toList ∧
      t.scopes.persistent.get? name = some ref ∧
      t.store.parameters ref = ((list.splitOn ',').map trim).filter (fun part => !part.isEmpty) ∧
      ∀ fuel', ∃ reflected u, evalSource (fuel' + 1) (reflectWord ++ name) t = .value reflected u ∧
        u.store.kind reflected = .string body := by
  obtain ⟨answer, ref, t, hdefine, hanswer, -, hscopes, hcallable⟩ :=
    evalSource_define (quoteFree_definition hn hl hq) (classify?_definition hn hl hb hc)
      (quoteFree_of_notMem (quote_notMem_bracketed hl hq)) (classify?_bracketed hl hb hc) fuel s
  have hbound : t.scopes.persistent.get? name = some ref := by
    rw [hscopes, Scopes.assign, Bindings.get?_insert, if_pos rfl]
  exact ⟨answer, ref, t, hdefine, hanswer, hbound, hcallable.parameters_eq,
    evalSource_reflect hn hbound hcallable.kind⟩

theorem definition_reflects_nested :
    let body := "\\ | ] <- copy x extends y // [(;".toList
    ∃ answer ref t, evalSource 2 (['f'] ++ arrow ++ bracketed "a, b ,,c".toList body) Session.new =
        .value answer t ∧
      t.store.parameters ref = [['a'], ['b'], ['c']] ∧
      ∃ reflected u, evalSource 1 (reflectWord ++ ['f']) t = .value reflected u ∧
        u.store.kind reflected = .string body := by
  intro body
  have hnames : (("a, b ,,c".toList.splitOn ',').map trim).filter (fun part => !part.isEmpty) =
      [['a'], ['b'], ['c']] := by decide +kernel
  obtain ⟨answer, ref, t, hdefine, -, -, hparameters, hreflect⟩ :=
    definition_reflects Session.new (by decide : isName ['f'])
      (by decide : "a, b ,,c".toList.all isFieldChar) (by decide : '\n' ∉ body)
      (by decide : '"' ∉ body) (by decide : Clear ';' 1 body) 0
  exact ⟨answer, ref, t, hdefine, hparameters.trans hnames, hreflect 0⟩

end LineScript
