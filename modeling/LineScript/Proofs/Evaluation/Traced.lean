import LineScript.Proofs.Evaluation.Congruence
import LineScript.Proofs.Evaluation.LiftedOnce
import LineScript.Proofs.Statement.Forms

namespace LineScript

open Text Eval

namespace Session

structure SameButTracing (s t : Session) : Prop where
  store_eq : s.store = t.store
  scopes_eq : s.scopes = t.scopes
  literals_eq : s.literals = t.literals

namespace SameButTracing

variable {s t : Session}

theorem rfl : s.SameButTracing s :=
  ⟨Eq.refl _, Eq.refl _, Eq.refl _⟩

theorem record (e e' : Event) (h : s.SameButTracing t) :
    (s.record e).SameButTracing (t.record e') :=
  ⟨h.store_eq, h.scopes_eq, h.literals_eq⟩

theorem record_left (e : Event) (h : s.SameButTracing t) : (s.record e).SameButTracing t :=
  ⟨h.store_eq, h.scopes_eq, h.literals_eq⟩

theorem unseen : Unseen SameButTracing where
  store_eq := store_eq
  scopes_eq := scopes_eq
  literals_eq := literals_eq
  record := record
  tracing _ h := ⟨h.store_eq, h.scopes_eq, h.literals_eq⟩
  hold _ _ _ _ := ⟨Eq.refl _, Eq.refl _, Eq.refl _⟩

end SameButTracing

end Session

def traceName : Text := ['t', 'r', 'a', 'c', 'e']

def traceWord : Text := ['!', 't', 'r', 'a', 'c', 'e', ' ']

theorem segment_traceWord : Segment traceWord :=
  .of_plain (by simp [traceWord])

namespace Session

theorem lifted?_traceWord (s : Session) (source : Text) :
    s.lifted? (traceWord ++ source) = (s.lifted? source).map (traceWord ++ ·) :=
  lifted?_append segment_traceWord s source

theorem opened_traceWord (s : Session) (source : Text) :
    (s.opened (traceWord ++ source)).SameButTracing (s.opened source) := by
  rw [opened, opened, segment_traceWord.literals_append]
  exact SameButTracing.unseen.withLiterals (SameButTracing.rfl.record _ _) _

end Session

namespace Statement

variable {text : Text} {form : Statement}

theorem copy?_eq_some_iff : copy? text = some form ↔
    ∃ front name, text = front ++ copyWord ++ name ∧ isName name ∧ form = .copy name := by
  rw [copy?, Option.map_eq_some_iff]
  constructor
  · rintro ⟨⟨front, name⟩, hn, rfl⟩
    obtain ⟨ht, hn⟩ := (nameAfter?_eq_some_iff rfl).mp hn
    exact ⟨front, name, ht, hn, rfl⟩
  · rintro ⟨front, name, ht, hn, rfl⟩
    exact ⟨(front, name), (nameAfter?_eq_some_iff rfl).mpr ⟨ht, hn⟩, rfl⟩

theorem ends_of_traceWord {front name : Text} (h : traceWord ++ text = front ++ copyWord ++ name) :
    ∃ inner, text = inner ++ copyWord ++ name := by
  rw [List.append_assoc] at h
  obtain ⟨inner, -, ht⟩ | ⟨shared, hw, hs⟩ := List.append_eq_append_iff.mp h
  · exact ⟨inner, ht.trans (List.append_assoc _ _ _).symm⟩
  · -- `shared` ends the one word and begins the other, so it is empty.
    match shared with
    | [] => exact ⟨[], hs.symm⟩
    | [c] =>
      cases hs
      have hlast := congrArg List.getLast? hw
      simp [traceWord] at hlast
    | c :: d :: rest =>
      have ho : 'o' ∈ traceWord := by
        simp only [copyWord, List.cons_append, List.cons.injEq] at hs
        rw [hw, ← hs.2.1]
        simp
      exact absurd ho (by decide)

theorem copy?_traceWord (text : Text) : copy? (traceWord ++ text) = copy? text := by
  ext form
  rw [copy?_eq_some_iff, copy?_eq_some_iff]
  constructor
  · rintro ⟨front, name, ht, hn⟩
    obtain ⟨inner, ht⟩ := ends_of_traceWord ht
    exact ⟨inner, name, ht, hn⟩
  · rintro ⟨front, name, rfl, hn⟩
    exact ⟨traceWord ++ front, name, by simp only [List.append_assoc], hn⟩

theorem clear_traceWord (h : Clear ';' 0 text) : Clear ';' 0 (traceWord ++ text) := by
  simp only [traceWord, List.cons_append, List.nil_append, Clear.cons_iff]
  simpa [depthStep, isOpening, isClosing] using h

theorem classify?_traceWord (h : Clear ';' 0 text) : classify? (traceWord ++ text) =
    (copy? text).or (some (.directive traceName text)) := by
  rw [← copy?_traceWord]
  exact classify?_directive (by decide : ' ' ∉ traceName) (clear_traceWord h)

end Statement

/-- Nothing but the log tells a text that is traced from one that is not. -/
theorem traced_alike {text : Text} (h : QuoteFree text) (fuel : Nat) :
    Alike Session.SameButTracing (Directive.traced (evaluate (fuel + 1)) text)
      (performText (evaluate fuel) text 0) := by
  intro s t hs
  have entered : Session.SameButTracing
      (Session.record { s with tracing := true } (.evaluating true 0 text)) t :=
    ⟨hs.store_eq, hs.scopes_eq, hs.literals_eq⟩
  have performed := Session.SameButTracing.unseen.performText
    (evaluate_alike Session.SameButTracing.unseen fuel) text (Iff.refl (0 = 0)) entered
  rw [Directive.traced, change_bind_apply, afterwards_apply, evaluate_of_quoteFree h]
  rw [← Outcome.mapSession_id (performText _ text 0 t)]
  exact performed.mapSession fun _ _ hu => ⟨hu.store_eq, hu.scopes_eq, hu.literals_eq⟩

theorem perform_copy_alike {evaluate evaluate' : Text → Nat → Eval Ref} (name : Text)
    (depth : Nat) : Alike Session.SameButTracing (perform evaluate (.copy name) depth)
      (perform evaluate' (.copy name) depth) :=
  .bind (Session.SameButTracing.unseen.resolve name) fun _ =>
    Session.SameButTracing.unseen.onStore _

namespace Session

variable {s : Session} {source lifted : Text}

theorem statement?_traceWord (h : s.lifted? source = some lifted) (hc : Clear ';' 0 lifted) :
    s.statement? (traceWord ++ source) =
      (Statement.copy? lifted).or (some (.directive traceName lifted)) := by
  rw [statement?_eq, lifted?_traceWord, h]
  exact Statement.classify?_traceWord hc

/-- What is left of the line without its literals ends like a copy of what a name is bound to. -/
def EndsInCopy (s : Session) (line name : Text) : Prop :=
  isName name ∧ ∃ front, s.lifted? line = some (front ++ Statement.copyWord ++ name)

end Session

section

variable {s : Session} {source lifted : Text}

/-- A line that ends like a copy makes it, whatever it is to trace. -/
theorem evalSource_traceWord_copy {name : Text} (hn : s.EndsInCopy source name)
    (hc : ∀ lifted, s.lifted? source = some lifted → Clear ';' 0 lifted) (fuel : Nat) :
    evalSource (fuel + 1) (traceWord ++ source) s = perform (evaluate fuel) (.copy name) 0
      ((s.opened (traceWord ++ source)).record (.classified (.copy name))) := by
  obtain ⟨hname, front, hl⟩ := hn
  have hcopy : Statement.copy? (front ++ Statement.copyWord ++ name) = some (.copy name) :=
    Statement.copy?_eq_some_iff.mpr ⟨front, name, rfl, hname, rfl⟩
  refine evalSource_of_statement? ?_ fuel
  rw [Session.statement?_traceWord hl (hc _ hl), hcopy, Option.some_or]

theorem evalSource_traceWord_alike (hl : s.lifted? source = some lifted) (hc : Clear ';' 0 lifted)
    (hn : Statement.copy? lifted = none) (fuel : Nat) :
    (evalSource (fuel + 2) (traceWord ++ source) s).Alike Session.SameButTracing
      (evalSource (fuel + 1) source s) := by
  have hs := Session.statement?_traceWord hl hc
  rw [hn, Option.none_or] at hs
  have hp : evalSource (fuel + 2) (traceWord ++ source) s =
      Directive.expand (evaluate (fuel + 1)) traceName lifted _ := evalSource_of_statement? hs _
  rw [hp, expand_trace (by decide +kernel), evalSource_of_lifted? hl]
  exact traced_alike (Session.quoteFree_of_lifted? hl) fuel
    (((s.opened_traceWord source).record_left _).record_left _)

end

/-- A statement does the same whether it is traced or not, unless it ends like a copy that it is not
itself: then a line that is to trace it makes that copy. -/
theorem traced_as_untraced (s : Session) (source : Text)
    (hclear : ∀ lifted, s.lifted? source = some lifted → Clear ';' 0 lifted) :
    ((∀ name, s.EndsInCopy source name → s.statement? source = some (.copy name)) →
      ∀ fuel, (evalSource (fuel + 2) (traceWord ++ source) s).Alike Session.SameButTracing
        (evalSource (fuel + 1) source s)) ∧
    ∀ name, s.EndsInCopy source name → ∀ fuel,
      (evalSource (fuel + 1) (traceWord ++ source) s).Alike Session.SameButTracing
        (perform (evaluate fuel) (.copy name) 0 (s.opened source)) := by
  have opened := s.opened_traceWord source
  refine ⟨fun hcopy fuel => ?_, fun name hn fuel => ?_⟩
  · cases hl : s.lifted? source with
    | none =>
      have hl' : s.lifted? (traceWord ++ source) = none := by
        rw [s.lifted?_traceWord, hl, Option.map_none]
      rw [evalSource_of_lifted?_eq_none hl, evalSource_of_lifted?_eq_none hl']
      exact .failure _ opened
    | some lifted =>
      cases hc : Statement.copy? lifted with
      | none => exact evalSource_traceWord_alike hl (hclear _ hl) hc fuel
      | some form =>
        obtain ⟨front, name, rfl, hn, rfl⟩ := Statement.copy?_eq_some_iff.mp hc
        have hends : s.EndsInCopy source name := ⟨hn, front, hl⟩
        rw [evalSource_traceWord_copy hends hclear, evalSource_of_statement? (hcopy name hends)]
        exact perform_copy_alike name 0 (opened.record _ _)
  · rw [evalSource_traceWord_copy hn hclear]
    exact perform_copy_alike name 0 (opened.record_left _)

theorem traced_as_untraced_literal :
    let source := "b <- add:(!trace \"x;\"),\"y\"".toList
    (∀ lifted, Session.new.lifted? source = some lifted → Clear ';' 0 lifted) ∧
    (∀ name, ¬Session.new.EndsInCopy source name) ∧
    (evalSource 9 (traceWord ++ source) Session.new).Alike Session.SameButTracing
      (evalSource 8 source Session.new) := by
  intro source
  have hl : Session.new.lifted? source = some "b <- add:(!trace _s_1),_s_2".toList := by
    decide +kernel
  have hclear : ∀ lifted, Session.new.lifted? source = some lifted → Clear ';' 0 lifted := by
    intro lifted h
    cases hl.symm.trans h
    decide +kernel
  have hends : ∀ name, ¬Session.new.EndsInCopy source name := by
    rintro name ⟨hn, front, h⟩
    have hcopy := Statement.copy?_eq_some_iff.mpr
      ⟨front, name, Option.some.inj (hl.symm.trans h), hn, rfl⟩
    have hnone : Statement.copy? "b <- add:(!trace _s_1),_s_2".toList = none := by decide +kernel
    cases hnone.symm.trans hcopy
  exact ⟨hclear, hends, (traced_as_untraced _ source hclear).1
    (fun name hn => absurd hn (hends name)) 7⟩

/-- An assignment of a copy binds the name if it is evaluated, and not if it is to be traced. -/
theorem traced_copy_not_assigned :
    let s := (evalSource 2 "a <- 1".toList Session.new).session
    let source := "b <- copy a".toList
    s.Reachable ∧ (∀ lifted, s.lifted? source = some lifted → Clear ';' 0 lifted) ∧
    (evalSource 4 source s).value?.isSome ∧
    (evalSource 4 source s).session.scopes.persistent.get? ['b'] ≠ none ∧
    (evalSource 5 (traceWord ++ source) s).value?.isSome ∧
    (evalSource 5 (traceWord ++ source) s).session.scopes.persistent.get? ['b'] = none := by
  intro s source
  have hs : s.Reachable := Session.Reachable.new.line_of_value?
    (show (evalSource 2 "a <- 1".toList Session.new).value? = some ⟨8⟩ by decide +kernel)
  have hl : s.lifted? source = some source := by decide +kernel
  refine ⟨hs, fun lifted h => ?_, by decide +kernel, by decide +kernel, by decide +kernel,
    by decide +kernel⟩
  cases hl.symm.trans h
  decide +kernel

end LineScript
