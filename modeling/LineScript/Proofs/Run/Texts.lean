import LineScript.Proofs.Evaluation.LiftedOnce
import LineScript.Proofs.Run.Own

namespace LineScript

open Text Eval

def Activity.texts : Activity → List Text
  | evaluation text _ => [text]
  | statement form _ => form.inner
  | call _ args _ => args
  | directive _ rest => [rest]
  | _ => []

namespace Run

variable {P : Text → Prop} {r r' : Run}

structure Over (P : Text → Prop) (r : Run) : Prop where
  texts : ∀ text ∈ r.activity.texts, P text
  bodies : r.start.store.Bodies P

theorem inner_of_args? {form : Statement} {args : List Text} (h : form.args? = some args) :
    form.inner = args := by
  cases form with
  | fieldCall | call =>
    cases h
    rfl
  | _ => cases h

theorem bodies_of_value {α : Type} {m : Eval α} {s t : Session} {a : α} (hm : Eval.Course P m)
    (hs : s.store.Bodies P) (h : m s = .value a t) : t.store.Bodies P := by
  have hc := (hm s hs).changes.bodies hs
  rw [h] at hc
  exact hc

theorem bodies_of_extractLiterals {text : Text} {found : Option Text} {s t : Session}
    (hs : s.store.Bodies P) (h : extractLiterals bindLiteral text s = .value found t) :
    t.store.Bodies P := by
  rw [extractLiterals_apply] at h
  obtain ⟨-, rfl⟩ := Outcome.value.inj h
  exact hs.withLiterals _

theorem Starts.over (hereditary : Hereditary P) (h : r.Starts r') (hr : r.Over P) : r'.Over P := by
  obtain ⟨ht, hb⟩ := hr
  have nested (fuel : Nat) : ∀ text depth, P text → Eval.Course P (evaluate fuel text depth) :=
    fun text depth => evaluate_course hereditary fuel text depth
  cases h with
  | @statement text lifted form depth fuel s t hl hc =>
    have hp := hereditary.lifted hl (ht text List.mem_cons_self)
    have hs := bodies_of_extractLiterals (s := s.record _) hb hl
    exact ⟨fun part hm => hereditary.piece (Statement.piece_of_classify? hc part hm) hp, hs⟩
  | @part done rest part depth fuel s t last hd =>
    have hdone : ∀ text ∈ (Statement.sequence done).inner, P text := fun text hm =>
      ht text (List.mem_append_left _ hm)
    have hc := Eval.Course.perform (nested fuel) hereditary hdone depth
    refine ⟨fun text hm => ?_, bodies_of_value hc hb hd⟩
    cases List.mem_singleton.mp hm
    exact ht _ (List.mem_append_right _ List.mem_cons_self)
  | assigned | stored | inner | directive => exact ⟨ht, hb⟩
  | call hc ha => exact ⟨inner_of_args? ha ▸ ht, hb⟩
  | @argument callable done rest arg depth fuel s t values hn hd =>
    have hdone : ∀ text ∈ done, P text := fun text hm => ht text (List.mem_append_left _ hm)
    have hc := Eval.Course.mapM fun text hm => nested fuel text (depth + 1) (hdone text hm)
    refine ⟨fun text hm => ?_, bodies_of_value hc hb hd⟩
    cases List.mem_singleton.mp hm
    exact ht _ (List.mem_append_right _ List.mem_cons_self)
  | @invocation callable args depth fuel s t hi =>
    exact ⟨nofun, bodies_of_value (Eval.Course.bindArguments (nested fuel) callable ht depth) hb hi⟩
  | native hk => exact ⟨nofun, hb⟩
  | body hk =>
    refine ⟨fun text hm => ?_, hb⟩
    cases List.mem_singleton.mp hm
    exact hb _ _ hk
  | @inspected name rest =>
    refine ⟨fun text hm => ?_, hb⟩
    cases List.mem_singleton.mp hm
    exact hereditary.piece (.trim rest) (ht rest List.mem_cons_self)
  | traced hn => exact ⟨ht, hb⟩

theorem Contains.over (hereditary : Hereditary P) (h : r.Contains r') (hr : r.Over P) :
    r'.Over P := by
  induction h with
  | refl => exact hr
  | tail _ hs ih => exact hs.over hereditary ih

/-- What a line of a session starts has no unescaped quotes any more. -/
theorem Starts.quoteFree {text : Text} {depth fuel : Nat} {s : Session}
    (h : Starts ⟨.evaluation text depth, fuel, s⟩ r) (hs : s.store.Bodies QuoteFree) :
    r.Over QuoteFree := by
  cases h with
  | statement hl hc =>
    have hp := quoteFree_lifted hl
    have hs := bodies_of_extractLiterals (s := s.record _) hs hl
    exact ⟨fun part hm => (Statement.piece_of_classify? hc part hm).quoteFree hp, hs⟩

end Run

end LineScript
