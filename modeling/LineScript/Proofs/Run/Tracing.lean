import LineScript.Proofs.Evaluation.Traced
import LineScript.Proofs.Run.Own

namespace LineScript

open Text Eval

def Event.isTrace : Event → Bool
  | directive name _ => Directive.table.lookup name == some .trace
  | _ => false

namespace Session

/-- Between the sessions tracing stayed as it was, or something was traced and it is off. -/
def KeepsTracing (s t : Session) : Prop :=
  ∃ events, t.log = events ++ s.log ∧ t.tracing = (s.tracing && !events.any Event.isTrace)

namespace KeepsTracing

variable {s t u : Session}

theorem of_eq (hl : t.log = s.log) (ht : t.tracing = s.tracing) : s.KeepsTracing t :=
  ⟨[], hl, by simp [ht]⟩

theorem of_event {e : Event} (he : e.isTrace = false) (hl : t.log = e :: s.log)
    (ht : t.tracing = s.tracing) : s.KeepsTracing t :=
  ⟨[e], hl, by simp [ht, he]⟩

theorem rfl : s.KeepsTracing s :=
  of_eq (Eq.refl _) (Eq.refl _)

theorem trans (h : s.KeepsTracing t) (h' : t.KeepsTracing u) : s.KeepsTracing u := by
  obtain ⟨earlier, hl, ht⟩ := h
  obtain ⟨later, hl', ht'⟩ := h'
  refine ⟨later ++ earlier, by rw [hl', hl, List.append_assoc], ?_⟩
  rw [ht', ht, List.any_append, Bool.not_or, Bool.and_assoc, Bool.and_comm (!earlier.any _)]

theorem of_chain (h : Relation.ReflTransGen KeepsTracing s t) : s.KeepsTracing t := by
  induction h with
  | refl => exact rfl
  | tail _ ht ih => exact ih.trans ht

end KeepsTracing

end Session

namespace Run

variable {r r' whole : Run} {s t : Session}

theorem Own.keepsTracing (h : r.Own s t) (hn : ∀ name rest, r.activity ≠ .directive name rest) :
    s.KeepsTracing t := by
  cases h with
  | evaluating | classified | endCall => exact .of_event rfl rfl rfl
  | directive | trace => exact absurd rfl (hn _ _)
  | _ => exact .of_eq rfl rfl

theorem covers_keepsTracing (hn : ∀ name rest, r.activity ≠ .directive name rest)
    (nested : ∀ r', r.Starts r' → r'.start.KeepsTracing r'.outcome.session) :
    Covers Session.KeepsTracing r :=
  ⟨fun h => h.keepsTracing hn, fun hs => .single (nested _ hs)⟩

theorem keepsTracing_directive {name rest : Text} {fuel : Nat}
    (nested : ∀ r', Starts ⟨.directive name rest, fuel, s⟩ r' →
      r'.start.KeepsTracing r'.outcome.session) :
    s.KeepsTracing (Directive.expand (evaluate fuel) name rest s).session := by
  by_cases hn : Directive.table.lookup name = some .trace
  · -- The flag is cleared, whatever it was before; the event of the directive accounts for that.
    obtain ⟨events, hl, -⟩ := nested _ (.traced hn)
    rw [expand_trace hn, Directive.traced, change_bind_apply, afterwards_apply,
      Outcome.session_mapSession]
    refine ⟨events ++ [.directive name rest], hl.trans ?_, ?_⟩
    · rw [List.append_assoc]
      rfl
    · simp [Event.isTrace, hn]
  · refine .of_chain (Outcome.ReachedBy.expand (fun _ _ => ?_) ?_ (fun hi ht hp => ?_) fun ht => ?_)
    · exact .single (.of_eq rfl rfl)
    · exact .of_event (by simp [Event.isTrace, hn]) rfl rfl
    · exact .single (nested _ (.inspected hi ht hp))
    · exact absurd ht hn

/-- A run leaves tracing as it was unless something was traced. -/
theorem keepsTracing (r : Run) : r.start.KeepsTracing r.outcome.session := by
  induction r using Run.induction with
  | step r nested =>
    obtain ⟨activity, fuel, s⟩ := r
    cases activity with
    | directive name rest => exact keepsTracing_directive nested
    | _ => exact .of_chain (covers_keepsTracing (by simp) nested).outcome

end Run

theorem Session.Reachable.tracing_eq {s : Session} (h : s.Reachable) : s.tracing = false := by
  induction h with
  | new | another => rfl
  | @line s fuel text _ _ ih =>
    obtain ⟨events, -, ht⟩ := (Run.ofLine fuel text s).keepsTracing
    have hs : (Run.ofLine fuel text s).start.tracing = false := ih
    rw [hs, Bool.false_and, Run.outcome_ofLine] at ht
    exact ht

/-- Whether evaluations are traced decides nothing but what the log says, and between lines they are
not, whatever the lines have ended in. -/
theorem tracing_only_logged :
    (∀ s t : Session, s.SameButTracing t → ∀ fuel text depth,
      (evaluate fuel text depth s).Alike Session.SameButTracing (evaluate fuel text depth t)) ∧
    ∀ s : Session, s.Reachable → s.tracing = false :=
  ⟨fun _ _ h fuel text depth =>
    evaluate_alike Session.SameButTracing.unseen fuel text depth depth Iff.rfl h,
    fun _ h => h.tracing_eq⟩

theorem tracing_only_logged_failing :
    let line := "!trace add:(!trace b),2".toList
    let s := (evalSource 9 line Session.new).session
    (evalSource 9 line Session.new).failure? = some (.fault (.unboundName ['b'])) ∧
    (evaluate 9 line 0 Session.new).Alike Session.SameButTracing
      (evaluate 9 line 0 { Session.new with tracing := true }) ∧
    s.Reachable ∧ s.tracing = false := by
  intro line s
  have hf : (evalSource 9 line Session.new).failure? = some (.fault (.unboundName ['b'])) := by
    decide +kernel
  have hs : s.Reachable := Session.Reachable.new.line_of_failure? hf
  have hsame : Session.new.SameButTracing { Session.new with tracing := true } :=
    ⟨rfl, rfl, rfl⟩
  exact ⟨hf, tracing_only_logged.1 _ _ hsame 9 line 0, hs, tracing_only_logged.2 s hs⟩

namespace Run

variable {r r' whole : Run} {s t : Session}

def IsTrace (r : Run) : Prop :=
  ∃ name rest, r.activity = .directive name rest ∧ Directive.table.lookup name = some .trace

def Traced (r : Run) : Prop :=
  ∃ directive : Run, directive.IsTrace ∧ directive.Starts r

/-- The second run is the first or inside it, and not in anything else that is traced. -/
def Encloses : Run → Run → Prop :=
  Relation.ReflTransGen fun r r' => r.Starts r' ∧ ¬r.IsTrace

theorem Traced.tracing (h : r.Traced) : r.start.tracing = true := by
  obtain ⟨directive, ⟨name, rest, ha, hn⟩, hs⟩ := h
  cases hs with
  | traced => rfl
  | inspected hi =>
    cases ha
    cases hn.symm.trans hi
  | _ => cases ha

theorem Contains.exists_enclosing (h : whole.Contains r) (ht : whole.Traced) :
    ∃ nearest, whole.Contains nearest ∧ nearest.Traced ∧ nearest.Encloses r := by
  induction h with
  | refl => exact ⟨whole, .refl, ht, .refl⟩
  | @tail r r' hc hs ih =>
    -- What a directive traces is the innermost one from here on.
    by_cases hr : r.IsTrace
    · exact ⟨r', hc.tail hs, ⟨r, hr, hs⟩, .refl⟩
    · obtain ⟨nearest, hn, ht, he⟩ := ih
      exact ⟨nearest, hn, ht, he.tail ⟨hs, hr⟩⟩

theorem Starts.keepsTracing (h : r.Starts r') (hn : ¬r.IsTrace) :
    r.start.KeepsTracing r'.start := by
  obtain ⟨activity, fuel, s⟩ := r
  cases activity with
  | directive name rest =>
    cases h with
    | inspected hi => exact .of_event (by simp [Event.isTrace, hi]) rfl rfl
    | traced ht => exact absurd ⟨name, rest, rfl, ht⟩ hn
  | _ => exact .of_chain ((covers_keepsTracing (by simp) fun r' _ => r'.keepsTracing).start h)

theorem Encloses.keepsTracing (h : r.Encloses r') : r.start.KeepsTracing r'.start := by
  induction h with
  | refl => exact .rfl
  | tail _ hs ih => exact ih.trans (hs.1.keepsTracing hs.2)

theorem Records.evaluation {traced : Bool} {depth : Nat} {text : Text}
    (h : r.Records s (.evaluating traced depth text)) :
    r.activity = .evaluation text depth ∧ r.start = s ∧ s.tracing = traced := by
  cases h
  exact ⟨rfl, rfl, rfl⟩

end Run

/-- While something is traced, so is every evaluation until a directive that traces has begun and
ended inside. For each evaluation what counts is the innermost thing traced around it: it is traced
just in case nothing else was since that began. -/
theorem traced_until_next_trace {whole : Run} (h : whole.Traced) :
    whole.start.tracing = true ∧
    ∃ events, whole.outcome.session.log = events ++ whole.start.log ∧
      ∀ later traced depth text earlier,
        events = later ++ .evaluating traced depth text :: earlier →
        ((∀ e ∈ earlier, e.isTrace = false) → traced = true) ∧
        ∃ nearest r between front, whole.Contains nearest ∧ nearest.Traced ∧
          nearest.start.log = front ++ whole.start.log ∧ nearest.Encloses r ∧
          r.activity = .evaluation text depth ∧ earlier = between ++ front ∧
          r.start.log = earlier ++ whole.start.log ∧
          (traced = true ↔ ∀ e ∈ between, e.isTrace = false) := by
  obtain ⟨events, hl, hevents⟩ := Run.exists_records whole.moves
  refine ⟨h.tracing, events, hl, fun later traced depth text earlier hsplit => ?_⟩
  obtain ⟨r, _, hr, hrecords, hlog⟩ := hevents later _ earlier hsplit
  obtain ⟨ha, rfl, ht⟩ := hrecords.evaluation
  obtain ⟨nearest, hn, hnearest, he⟩ := hr.exists_enclosing h
  obtain ⟨between, hb, hkept⟩ := he.keepsTracing
  obtain ⟨front, hf, -⟩ := Run.exists_records hn.moves
  have hearlier : earlier = between ++ front := by
    rw [hlog, hf, ← List.append_assoc] at hb
    exact List.append_cancel_right hb
  -- From there on tracing is kept, unless something was traced: then it is off.
  have htraced : traced = true ↔ ∀ e ∈ between, e.isTrace = false := by
    rw [← ht, hkept, hnearest.tracing]
    simp
  refine ⟨fun hnone => htraced.mpr fun e hm => ?_, ?_⟩
  · exact hnone e (hearlier ▸ List.mem_append_left _ hm)
  · exact ⟨nearest, r, between, front, hn, hnearest, hf, he, ha, hearlier, hlog, htraced⟩

namespace Run

def ofTrace (fuel : Nat) (line name rest : Text) (s : Session) : Run :=
  let read := (s.record (.evaluating s.tracing 0 line)).record (.classified (.directive name rest))
  ⟨.evaluation rest 0, fuel, { read.record (.directive name rest) with tracing := true }⟩

theorem ofLine_contains_ofTrace {line name rest : Text} (hq : QuoteFree line)
    (hc : Statement.classify? line = some (.directive name rest))
    (hn : Directive.table.lookup name = some .trace) (fuel : Nat) (s : Session) :
    (ofLine (fuel + 1) line s).Contains (ofTrace fuel line name rest s) ∧
      (ofTrace fuel line name rest s).Traced := by
  let read := (s.record (.evaluating s.tracing 0 line)).record (.classified (.directive name rest))
  have hline : (ofLine (fuel + 1) line s).Starts
      ⟨.statement (.directive name rest) 0, fuel, read⟩ := .of_quoteFree hq hc 0 fuel s
  have hs : Starts ⟨.directive name rest, fuel, read⟩ (ofTrace fuel line name rest s) := .traced hn
  have hcontains := Relation.ReflTransGen.refl |>.tail hline |>.tail .directive |>.tail hs
  exact ⟨hcontains, _, ⟨name, rest, rfl, hn⟩, hs⟩

end Run

theorem traced_until_next_trace_argument :
    let whole := Run.ofTrace 8 "!trace add:(!trace 1),2".toList traceName
      "add:(!trace 1),2".toList Session.new
    whole.Traced ∧ ∃ later earlier,
      whole.outcome.session.log =
        (later ++ .evaluating false 1 ['2'] :: earlier) ++ whole.start.log ∧
      ∃ nearest between front, whole.Contains nearest ∧ nearest.Traced ∧
        nearest.start.log = front ++ whole.start.log ∧ earlier = between ++ front ∧
        ∃ e ∈ between, e.isTrace = true := by
  intro whole
  have ht : whole.Traced := (Run.ofLine_contains_ofTrace (by decide +kernel) (by decide +kernel)
    (by decide +kernel) 8 Session.new).2
  let log := whole.outcome.session.log
  have hlog : log = (log.take 2 ++ .evaluating false 1 ['2'] :: (log.drop 3).take 9) ++
      whole.start.log := by decide +kernel
  obtain ⟨-, events, hl, hevents⟩ := traced_until_next_trace ht
  obtain ⟨-, nearest, r, between, front, hn, hnearest, hf, -, -, hb, -, hiff⟩ :=
    hevents _ _ _ _ _ (List.append_cancel_right (hl.symm.trans hlog))
  have hother : ∃ e ∈ between, e.isTrace = true := by simpa using hiff
  exact ⟨ht, log.take 2, (log.drop 3).take 9, hlog, nearest, between, front, hn, hnearest, hf, hb,
    hother⟩

/-- A statement is not traced to its end if it traces an argument of its own. -/
theorem nested_trace_ends_tracing :
    let line := "!trace add:(!trace 1),2".toList
    let whole := Run.ofTrace 8 line traceName "add:(!trace 1),2".toList Session.new
    (Run.ofLine 9 line Session.new).Contains whole ∧ whole.Traced ∧
    ∃ events, whole.outcome.session.log = events ++ whole.start.log ∧
      .evaluating false 1 ['2'] ∈ events := by
  intro line whole
  have h : (Run.ofLine 9 line Session.new).Contains whole ∧ whole.Traced :=
    Run.ofLine_contains_ofTrace (by decide +kernel) (by decide +kernel) (by decide +kernel) 8 _
  exact ⟨h.1, h.2, whole.outcome.session.log.take 12, by decide +kernel, by decide +kernel⟩

end LineScript
