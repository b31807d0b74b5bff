import LineScript.Proofs.Run.Own
import LineScript.Proofs.Session.Reachable

namespace LineScript

/-- Sessions that are new or that evaluations lead to, of any text at any depth and however they
end. A new session may be opened behind the objects of an earlier one. -/
inductive Session.Evaluated : Session → Prop where
  | new : Evaluated Session.new
  | another {s : Session} : Evaluated s → Evaluated (Session.new s.store)
  | evaluate {s : Session} (fuel : Nat) (text : Text) (depth : Nat) :
    Evaluated s → Evaluated (evaluate fuel text depth s).session

def Run.Arises (r : Run) : Prop :=
  ∃ text depth fuel s, s.Evaluated ∧ Run.Contains ⟨.evaluation text depth, fuel, s⟩ r

/-- Steps that the given runs do on their own lead from the first session to the second. -/
def Session.Leads (runs : Run → Prop) : Session → Session → Prop :=
  Relation.ReflTransGen fun s t => ∃ r, runs r ∧ r.Own s t

def Session.Visited (t : Session) : Prop :=
  ∃ s : Session, s.Evaluated ∧ s.Leads Run.Arises t

theorem Session.Reachable.evaluated {s : Session} (h : s.Reachable) : s.Evaluated := by
  induction h with
  | new => exact .new
  | another _ ih => exact .another ih
  | line fuel text _ _ ih => exact .evaluate fuel text 0 ih

namespace Session.Leads

variable {runs others : Run → Prop} {s t : Session}

theorem mono (hr : ∀ r, runs r → others r) (h : s.Leads runs t) : s.Leads others t :=
  Relation.ReflTransGen.mono (fun _ _ ⟨r, hm, ho⟩ => ⟨r, hr r hm, ho⟩) _ _ h

theorem invariant {I : Session → Prop} (step : ∀ r s t, runs r → r.Own s t → I s → I t)
    (h : s.Leads runs t) (hs : I s) : I t := by
  induction h with
  | refl => exact hs
  | tail _ hm ih =>
    obtain ⟨r, hr, ho⟩ := hm
    exact step r _ _ hr ho ih

/-- What is not the same at both ends was changed by one of the steps. -/
theorem exists_step {α : Type} (f : Session → α) (h : s.Leads runs t) (hn : f t ≠ f s) :
    ∃ r u v, runs r ∧ s.Leads runs u ∧ r.Own u v ∧ f v ≠ f u ∧ v.Leads runs t := by
  induction h with
  | refl => exact absurd rfl hn
  | @tail u v hsu hm ih =>
    by_cases hu : f u = f s
    · obtain ⟨r, hr, ho⟩ := hm
      exact ⟨r, u, v, hr, hsu, ho, hu.symm ▸ hn, .refl⟩
    · obtain ⟨r, before, after, hr, hb, ho, hne, ha⟩ := ih hu
      exact ⟨r, before, after, hr, hb, ho, hne, ha.tail hm⟩

end Session.Leads

namespace Run

variable {r r' : Run} {form : Statement}

theorem Arises.contains (h : r.Arises) (hc : r.Contains r') : r'.Arises := by
  obtain ⟨text, depth, fuel, s, hs, h⟩ := h
  exact ⟨text, depth, fuel, s, hs, h.trans hc⟩

theorem leads (r : Run) : r.start.Leads r.Contains r.outcome.session :=
  r.moves

theorem Contains.leads (h : r.Contains r') : r.start.Leads r.Contains r'.start :=
  h.moves

theorem Arises.leads (h : r.Arises) : r.start.Leads Arises r.outcome.session :=
  r.leads.mono fun _ hc => h.contains hc

theorem Arises.start (h : r.Arises) : r.start.Visited := by
  obtain ⟨text, depth, fuel, s, hs, h⟩ := h
  exact ⟨s, hs, h.leads.mono fun _ hc => ⟨text, depth, fuel, s, hs, hc⟩⟩

theorem Contains.exists_text {text : Text} {depth fuel : Nat} {s : Session}
    (h : Contains ⟨.evaluation text depth, fuel, s⟩ r) {depth' : Nat}
    (hf : r.activity = .statement form depth') :
    ∃ source, Statement.classify? source = some form := by
  cases h with
  | refl => cases hf
  | tail _ hs =>
    cases hs with
    | statement _ hc =>
      cases hf
      exact ⟨_, hc⟩
    | _ => cases hf

theorem Arises.exists_text (h : r.Arises) {depth : Nat} (hf : r.activity = .statement form depth) :
    ∃ source, Statement.classify? source = some form := by
  obtain ⟨_, _, _, _, _, h⟩ := h
  exact h.exists_text hf

end Run

namespace Session

variable {s t : Session}

theorem Evaluated.arises (h : s.Evaluated) (text : Text) (depth fuel : Nat) :
    Run.Arises ⟨.evaluation text depth, fuel, s⟩ :=
  ⟨text, depth, fuel, s, h, .refl⟩

theorem Evaluated.leads (h : s.Evaluated) (fuel : Nat) (text : Text) (depth : Nat) :
    s.Leads Run.Arises (LineScript.evaluate fuel text depth s).session :=
  (h.arises text depth fuel).leads

theorem Evaluated.visited (h : s.Evaluated) : s.Visited :=
  ⟨s, h, .refl⟩

/-- What is so at first and not broken by any step of an evaluation is so all the time. -/
theorem Visited.invariant {I : Session → Prop} (new : I Session.new)
    (another : ∀ s, I s → I (Session.new s.store))
    (step : ∀ (r : Run) s t, r.Arises → r.Own s t → I s → I t) (h : s.Visited) : I s := by
  obtain ⟨origin, ho, hs⟩ := h
  refine hs.invariant step ?_
  clear hs
  induction ho with
  | new => exact new
  | another _ ih => exact another _ ih
  | evaluate fuel text depth ho ih => exact (ho.leads fuel text depth).invariant step ih

end Session

end LineScript
