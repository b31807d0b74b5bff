import LineScript.Proofs.Evaluation.Course
import LineScript.Proofs.Object.Extends
import LineScript.Proofs.Session.Reachable

namespace LineScript

open Text

variable {P : Text → Prop} {s t : Session}

theorem Change.log (h : Change P s t) : ∃ events, t.log = events ++ s.log ∧
    ∀ traced depth text, .evaluating traced depth text ∈ events → P text := by
  cases h with
  | evaluating depth ht =>
    refine ⟨[_], rfl, fun traced depth text hm => ?_⟩
    cases List.mem_singleton.mp hm
    exact ht
  | classified | directive | endCall => exact ⟨[_], rfl, by simp⟩
  | _ => exact ⟨[], rfl, by simp⟩

/-- Changes only add to the log, and no text is evaluated that lacks the property. -/
theorem Changes.log (h : Changes P s t) : ∃ events, t.log = events ++ s.log ∧
    ∀ traced depth text, .evaluating traced depth text ∈ events → P text := by
  induction h with
  | refl => exact ⟨[], rfl, by simp⟩
  | tail _ hc ih =>
    obtain ⟨earlier, he, hearlier⟩ := ih
    obtain ⟨later, hl, hlater⟩ := hc.log
    refine ⟨later ++ earlier, by rw [hl, he, List.append_assoc], fun traced depth text hm => ?_⟩
    obtain hm | hm := List.mem_append.mp hm
    · exact hlater traced depth text hm
    · exact hearlier traced depth text hm

theorem Change.literals_eq (h : Change QuoteFree s t) : t.literals = s.literals := by
  cases h with
  | literal ht hq =>
    rw [literals_of_quoteFree ht] at hq
    cases hq
  | _ => rfl

theorem Changes.literals_eq (h : Changes QuoteFree s t) : t.literals = s.literals := by
  induction h with
  | refl => rfl
  | tail _ hc ih => rw [hc.literals_eq, ih]

theorem withLiterals_log (s : Session) (ls : List Text) : (s.withLiterals ls).log = s.log := by
  induction ls generalizing s with
  | nil => rfl
  | cons l ls ih => exact ih (s.withLiteral l)

theorem Store.Bodies.withLiterals (hs : s.store.Bodies P) (ls : List Text) :
    (s.withLiterals ls).store.Bodies P := by
  induction ls generalizing s with
  | nil => exact hs
  | cons l ls ih => exact ih (s := s.withLiteral l) (hs.alloc (by simp))

theorem Store.Bodies.install {store : Store} (h : store.Bodies P) :
    (Native.install store).2.Bodies P :=
  Store.install_induction (fun _ hs => hs.alloc (by simp))
    (fun _ function hs => hs.allocCallable function.params _ nofun) h

theorem Store.Bodies.empty : Store.Bodies P {} := by
  intro ref body hk
  have hn : Store.kind {} ref = .nothing := rfl
  rw [hn] at hk
  cases hk

/-- The session in which what is left of a line without its literals is performed. -/
def Session.opened (s : Session) (line : Text) : Session :=
  (s.record (.evaluating s.tracing 0 line)).withLiterals
    ((Text.literals line).quoted.map Prod.fst)

theorem Store.Bodies.opened (hs : s.store.Bodies P) (line : Text) :
    (s.opened line).store.Bodies P :=
  withLiterals (s := s.record (.evaluating s.tracing 0 line)) hs _

def Session.statement? (s : Session) (line : Text) : Option Statement :=
  match extractLiterals bindLiteral line s with
  | .value (some lifted) _ => Statement.classify? lifted
  | _ => none

theorem Session.lifted_of_statement? {line : Text} {form : Statement}
    (h : s.statement? line = some form) : ∃ lifted, Statement.classify? lifted = some form ∧
      extractLiterals bindLiteral line (s.record (.evaluating s.tracing 0 line)) =
        .value (some lifted) (s.opened line) := by
  have hl := extractLiterals_apply line s
  have hr := extractLiterals_apply line (s.record (.evaluating s.tracing 0 line))
  rw [statement?, hl] at h
  split at hl
  next hclosed =>
    rw [if_pos hclosed] at h hr
    exact ⟨_, h, hr⟩
  next hclosed =>
    rw [if_neg hclosed] at h
    cases h

theorem evalSource_of_statement? {line : Text} {form : Statement}
    (h : s.statement? line = some form) (fuel : Nat) : evalSource (fuel + 1) line s =
      perform (evaluate fuel) form 0 ((s.opened line).record (.classified form)) := by
  obtain ⟨lifted, hc, hl⟩ := Session.lifted_of_statement? h
  rw [evalSource, evaluate_succ, evaluateWith_apply, performLifted, Eval.bind_of_value hl]
  exact performText_of_classify? hc 0 (s.opened line)

theorem Session.statement?_eq (s : Session) (line : Text) :
    s.statement? line = (s.lifted? line).bind Statement.classify? := by
  rw [statement?, lifted?_eq, extractLiterals_apply]
  split <;> simp_all

theorem evalSource_of_lifted? {line lifted : Text} (h : s.lifted? line = some lifted)
    (fuel : Nat) :
    evalSource (fuel + 1) line s = performText (evaluate fuel) lifted 0 (s.opened line) :=
  evaluate_of_lifted? h fuel 0

theorem evalSource_of_lifted?_eq_none {line : Text} (h : s.lifted? line = none) (fuel : Nat) :
    evalSource (fuel + 1) line s = .failure (.fault .unbalancedQuotes) (s.opened line) :=
  evaluate_of_lifted?_eq_none h fuel 0

theorem evalSource_changes (hs : s.store.Bodies QuoteFree) (fuel : Nat) (line : Text) :
    Changes QuoteFree (s.opened line) (evalSource (fuel + 1) line s).session ∧
    ∀ u, evalSource (fuel + 1) line s = .failure (.fault .unbalancedQuotes) u →
      (literals line).closed = false := by
  have nested := fun text depth => evaluate_course QuoteFree.hereditary fuel text depth
  have hl := extractLiterals_apply line (s.record (.evaluating s.tracing 0 line))
  rw [evalSource, evaluate_succ, evaluateWith_apply, performLifted, Eval.bind_apply]
  split at hl
  next =>
    rw [hl]
    have hp := Eval.Course.performText nested QuoteFree.hereditary (quoteFree_lifted hl) 0 _
      (hs.opened line)
    refine ⟨hp.changes, fun u hu => ?_⟩
    obtain ⟨text, ht, hc⟩ := hp.unbalanced hu
    rw [literals_of_quoteFree ht] at hc
    cases hc
  next hn =>
    rw [hl]
    exact ⟨.refl, fun _ _ => by simpa using hn⟩

theorem Session.Reachable.bodies (h : s.Reachable) : s.store.Bodies QuoteFree := by
  induction h with
  | new => exact Store.Bodies.empty.install
  | another _ ih => exact ih.install
  | line fuel text _ hended ih =>
    cases fuel with
    | zero => exact hended.elim
    | succ fuel => exact (evalSource_changes ih fuel text).1.bodies (ih.opened text)

/-- Only the line itself has literals lifted: whatever is evaluated inside it has no unescaped quote
and stays as it is, and so will the bodies of blocks. -/
theorem literals_lifted_once (hs : s.Reachable) (fuel : Nat) (line : Text) :
    let t := (evalSource (fuel + 1) line s).session
    (∃ nested, t.log = nested ++ .evaluating s.tracing 0 line :: s.log ∧
      ∀ traced depth text, .evaluating traced depth text ∈ nested →
        unescapedQuotes text = 0 ∧ ∀ u, extractLiterals bindLiteral text u = .value (some text) u) ∧
    t.literals = s.literals + unescapedQuotes line / 2 ∧
    (∀ u, evalSource (fuel + 1) line s = .failure (.fault .unbalancedQuotes) u →
      unescapedQuotes line % 2 = 1) ∧
    ∀ ref body, t.store.kind ref = .callable (.block body) → unescapedQuotes body = 0 := by
  intro t
  obtain ⟨changes, unbalanced⟩ := evalSource_changes hs.bodies fuel line
  refine ⟨?_, ?_, fun u hu => ?_, changes.bodies (hs.bodies.opened line)⟩
  · obtain ⟨nested, hlog, hn⟩ := changes.log
    rw [Session.opened, withLiterals_log] at hlog
    refine ⟨nested, hlog, fun traced depth text hm => ?_⟩
    exact ⟨hn traced depth text hm, extractLiterals_of_quoteFree (hn traced depth text hm)⟩
  · rw [changes.literals_eq, Session.opened, Session.withLiterals_literals, List.length_map,
      length_quoted]
    rfl
  · have hc := unbalanced u hu
    rw [closed_eq] at hc
    simpa using hc

theorem literals_lifted_once_nested : Session.new.Reachable ∧
    (evalSource 7 "f <- [x|add:\"a\\\"\",x]; f:(add:\"b\",\"\")".toList
      Session.new).session.literals = 3 :=
  ⟨.new, (literals_lifted_once .new 6 _).2.1.trans (by decide +kernel)⟩

end LineScript
