import LineScript.Proofs.Comparison.Evaluation
import LineScript.Proofs.Text.Lossless

namespace LineScript

open Text Eval

/-- What names are bound to, and the fields of that, and so on. -/
inductive Session.Reaches (s : Session) : Ref → Prop where
  | named {entry : Text × Ref} :
    entry ∈ s.scopes.temporary ∨ entry ∈ s.scopes.persistent ∨ entry ∈ s.scopes.builtin →
    Reaches s entry.2
  | field {object : Ref} {entry : Text × Ref} :
    Reaches s object → entry ∈ s.store.fields object → Reaches s entry.2

def Session.Blockless (s : Session) : Prop :=
  ∀ ref body, s.Reaches ref → s.store.kind ref ≠ .callable (.block body)

/-- No square bracket opens outside of the literals. -/
def Text.Unbracketed (text : Text) : Prop :=
  ∀ segment ∈ (literals text).lead :: (literals text).segments, '[' ∉ segment

instance (text : Text) : Decidable text.Unbracketed :=
  inferInstanceAs (Decidable (∀ segment ∈ _, '[' ∉ segment))

def Session.lifted (s : Session) (text : Text) : Text :=
  (Text.literals text).lead ++ (namedPieces s.literals (Text.literals text).quoted).flatten

namespace Comparison

variable {c : Comparison} {s t : Session}

/-- A session with itself. Only what can be reached and what will be made counts, and there are no
blocks among that. -/
def withItself (s : Session) : Comparison where
  pairs a b := a = b ∧ (s.Reaches a ∨ ¬s.store.Has a)
  ordered := by
    rintro a b a' b' ⟨rfl, -⟩ ⟨rfl, -⟩
    exact Iff.rfl
  first := s.store
  second := s.store
  Body _ := False
  Exhaustible := False

theorem diagonal_withItself (s : Session) : (withItself s).Diagonal :=
  fun _ _ h => h.1

theorem sessionsAgree_withItself (hs : s.Blockless) : (withItself s).SessionsAgree s s := by
  have layer {bindings : Bindings Ref} (h : ∀ entry ∈ bindings, s.Reaches entry.2) :
      bindings.Paired (withItself s).pairs bindings :=
    List.forall₂_same.mpr fun entry hm => ⟨rfl, rfl, .inl (h entry hm)⟩
  have default_of_not_has {ref : Ref} (h : ¬s.store.Has ref) : s.store.object ref = default :=
    Store.object_of_size_le (Nat.le_of_not_lt h)
  refine ⟨⟨?_, fun k => ⟨rfl, .inr (by simp [Store.Has])⟩, ?_, fun _ => rfl, fun _ => rfl⟩,
    ⟨?_, ?_, ?_⟩, rfl, rfl, rfl⟩
  · rintro a _ ⟨rfl, hr | hn⟩
    · exact ⟨rfl, layer fun entry hm => .field hr hm⟩
    · rw [default_of_not_has hn]
      exact ⟨rfl, .nil⟩
  · rintro a _ body ⟨rfl, hr | hn⟩ hk
    · exact hs a body hr hk
    · rw [Store.kind, default_of_not_has hn] at hk
      cases hk
  · exact layer fun entry hm => .named (.inl hm)
  · exact layer fun entry hm => .named (.inr (.inl hm))
  · exact layer fun entry hm => .named (.inr (.inr hm))

theorem SessionsAgree.exists_pair (h : c.SessionsAgree s t) {ref : Ref} (hr : s.Reaches ref) :
    ∃ other, c.pairs ref other := by
  induction hr with
  | named hm =>
    obtain hm | hm | hm := hm
    · exact h.scopes.temporary.exists_pair _ hm
    · exact h.scopes.persistent.exists_pair _ hm
    · exact h.scopes.builtin.exists_pair _ hm
  | field _ hm ih =>
    obtain ⟨other, hp⟩ := ih
    exact (h.agree.store.fields hp).exists_pair _ hm

theorem SessionsAgree.blockless (h : c.SessionsAgree s t) (hb : ∀ body, ¬c.Body body) :
    s.Blockless := by
  intro ref body hr hk
  obtain ⟨other, hp⟩ := h.exists_pair hr
  exact hb body (h.stores.body hp hk)

theorem StoresAgree.eq {store store' : Store} (h : c.StoresAgree store store') (hd : c.Diagonal)
    (hf : c.first = c.second) : store = store' := by
  have hsize : store.size = store'.size := congrArg Ref.index (hd (h.fresh 0))
  have hobject (ref : Ref) : store.object ref = store'.object ref := by
    by_cases hp : ∃ other, c.pairs ref other
    · obtain ⟨other, hp⟩ := hp
      obtain rfl := hd hp
      exact congrArg₂ Object.mk (h.agree.kind_eq hp) ((h.agree.fields hp).eq (hd ·))
    · have hleft := h.left (not_exists.mp hp)
      have hright := h.right fun other ho => hp ⟨other, hd ho ▸ ho⟩
      rw [hleft, hf, hright]
  obtain ⟨objects⟩ := store
  obtain ⟨objects'⟩ := store'
  refine congrArg Store.mk (Array.ext hsize fun i hi hi' => ?_)
  simpa [Store.object, hi, hi'] using hobject ⟨i⟩

theorem SessionsAgree.eq (h : c.SessionsAgree s t) (hd : c.Diagonal) (hf : c.first = c.second) :
    s = t := by
  obtain ⟨store, ⟨temporary, persistent, builtin⟩, _, _, _⟩ := s
  obtain ⟨store', ⟨temporary', persistent', builtin'⟩, _, _, _⟩ := t
  obtain ⟨hs, ⟨ht, hp, hb⟩, rfl, rfl, rfl⟩ := h
  obtain rfl : store = store' := hs.eq hd hf
  obtain rfl : temporary = temporary' := ht.eq (hd ·)
  obtain rfl : persistent = persistent' := hp.eq (hd ·)
  obtain rfl : builtin = builtin' := hb.eq (hd ·)
  rfl

end Comparison

theorem Outcome.InStep.eq {c : Comparison} {o o' : Outcome Ref} (h : o.InStep c c.pairs o')
    (hd : c.Diagonal) (hf : c.first = c.second) : o = o' := by
  cases h with
  | value hv hs => rw [hd hv, hs.eq hd hf]
  | failure why hs => rw [hs.eq hd hf]
  | exhausted _ hs => rw [hs.eq hd hf]

theorem Outcome.InStep.ended {c : Comparison} {o o' : Outcome Ref} (h : o.InStep c c.pairs o')
    (he : ¬c.Exhaustible) : o.Ended := by
  cases h with
  | value | failure => trivial
  | exhausted hx _ => exact he hx

theorem Outcome.InStep.blockless {c : Comparison} {o o' : Outcome Ref}
    (h : o.InStep c c.pairs o') (hb : ∀ body, ¬c.Body body) : o.session.Blockless := by
  cases h with
  | value _ hs | failure _ hs | exhausted _ hs => exact hs.blockless hb

structure Text.Short (bound : Nat) (text : Text) : Prop where
  quoteFree : QuoteFree text
  unbracketed : '[' ∉ text
  length_lt : text.length < bound

theorem Text.Short.piece {bound : Nat} {part text : Text} (h : text.Short bound)
    (hp : Piece part text) : part.Short bound :=
  ⟨hp.quoteFree h.quoteFree, fun hm => h.unbracketed (hp.subset hm),
    Nat.lt_of_le_of_lt hp.length_le h.length_lt⟩

/-- What a text without literals and blocks keeps for evaluation is shorter, and it is no block. -/
theorem Statement.short_of_classify? {bound : Nat} {text : Text} {statement : Statement}
    (hq : QuoteFree text) (hu : '[' ∉ text) (hl : text.length ≤ bound)
    (hc : classify? text = some statement) : (∀ part ∈ statement.inner, part.Short bound) ∧
      ∀ params body, statement ≠ .block params body := by
  refine ⟨fun part hm => ?_, ?_⟩
  · have hp := piece_of_classify? hc part hm
    exact ⟨hp.quoteFree hq, fun h => hu (hp.subset h),
      Nat.lt_of_lt_of_le (length_lt_of_classify? hc part hm) hl⟩
  · rintro params body rfl
    cases readFrom_of_classify? hc with
    | block => exact hu List.mem_cons_self

section

variable {c : Comparison} (hb : ∀ body, ¬c.Body body)
include hb

theorem performText_follows {bound : Nat} {evaluate evaluate' : Text → Nat → Eval Ref}
    (nested : ∀ text depth, text.Short bound →
      Follows c c.pairs (evaluate text depth) (evaluate' text depth))
    (kept : ∀ text depth, KeepsLog (evaluate text depth)) {text : Text} (hq : QuoteFree text)
    (hu : '[' ∉ text) (hl : text.length ≤ bound) (depth : Nat) :
    Follows c c.pairs (performText evaluate text depth) (performText evaluate' text depth) := by
  refine .performText nested kept (fun body h => (hb body h).elim)
    (fun text h => h.piece (.trim text)) (fun statement hc => ?_) depth
  obtain ⟨hinner, hblock⟩ := Statement.short_of_classify? hq hu hl hc
  exact ⟨hinner, fun params body he => (hblock params body he).elim⟩

theorem evaluate_follows_of_short {bound n m : Nat} (hn : bound ≤ n) (hm : bound ≤ m) {text : Text}
    (h : text.Short bound) (depth : Nat) :
    Follows c c.pairs (evaluate n text depth) (evaluate m text depth) := by
  induction bound generalizing n m text depth with
  | zero => exact absurd h.length_lt (Nat.not_lt_zero _)
  | succ bound ih =>
    obtain ⟨n, rfl⟩ := Nat.exists_eq_add_one_of_ne_zero (Nat.ne_zero_of_lt hn)
    obtain ⟨m, rfl⟩ := Nat.exists_eq_add_one_of_ne_zero (Nat.ne_zero_of_lt hm)
    intro s t hs
    refine Follows.evaluateWith hs fun lifted u hl => ?_
    rw [extractLiterals_of_quoteFree h.quoteFree] at hl
    cases hl
    exact performText_follows hb
      (fun text depth ht => ih (Nat.le_of_succ_le_succ hn) (Nat.le_of_succ_le_succ hm) ht depth)
      (keepsLog_evaluate n) h.quoteFree h.unbracketed (Nat.le_of_lt_succ h.length_lt) depth

end

theorem bracket_notMem_literalName (n : Nat) : '[' ∉ Session.literalName n := by
  intro hm
  simp only [Session.literalName, List.mem_cons] at hm
  obtain h | h | h | hm := hm
  · cases h
  · cases h
  · cases h
  · cases Decimal.isDigit_of_mem_ofNat hm

theorem bracket_notMem_namedPieces (n : Nat) {quoted : List (Text × Text)}
    (h : ∀ after ∈ quoted.map Prod.snd, '[' ∉ after) : '[' ∉ (namedPieces n quoted).flatten := by
  induction quoted generalizing n with
  | nil => exact List.not_mem_nil
  | cons pair quoted ih =>
    obtain ⟨hafter, hrest⟩ := List.forall_mem_cons.mp h
    simp only [namedPieces, List.flatten_cons, List.mem_append, not_or]
    exact ⟨⟨bracket_notMem_literalName _, hafter⟩, ih _ hrest⟩

/-- Texts without blocks, evaluated where no block can be reached, have an outcome, which is a value
or a failure, and it is there as soon as evaluations may nest one deeper than the text without its
literals is long. No block can be reached afterwards either. -/
theorem evaluate_ends {s : Session} (hs : s.Blockless) {text : Text} (ht : text.Unbracketed)
    (depth : Nat) : ∃ o : Outcome Ref, o.Ended ∧ o.session.Blockless ∧
      ∀ fuel, (s.lifted text).length + 1 ≤ fuel → evaluate fuel text depth s = o := by
  let c := Comparison.withItself s
  have hb : ∀ body, ¬c.Body body := fun _ h => h
  obtain ⟨hlead, hsegments⟩ := List.forall_mem_cons.mp ht
  have hu : '[' ∉ s.lifted text := by
    rw [Session.lifted, List.mem_append, not_or]
    exact ⟨hlead, bracket_notMem_namedPieces _ hsegments⟩
  -- The state is compared with itself, under any two limits that are large enough.
  have inStep (n m : Nat) (hn : (s.lifted text).length ≤ n) (hm : (s.lifted text).length ≤ m) :
      (evaluate (n + 1) text depth s).InStep c c.pairs (evaluate (m + 1) text depth s) := by
    refine Or.resolve_right (Follows.evaluateWith (Comparison.sessionsAgree_withItself hs)
      fun lifted u hl => ?_) fun h => h.1 (Comparison.diagonal_withItself s)
    have hq := quoteFree_lifted hl
    rw [extractLiterals_apply] at hl
    split at hl
    · cases hl
      exact performText_follows hb (fun text depth h => evaluate_follows_of_short hb hn hm h depth)
        (keepsLog_evaluate n) hq hu (Nat.le_refl _) depth
    · cases hl
  have first := inStep (s.lifted text).length (s.lifted text).length (Nat.le_refl _) (Nat.le_refl _)
  refine ⟨_, first.ended id, first.blockless hb, fun fuel hf => ?_⟩
  obtain ⟨n, rfl⟩ := Nat.exists_eq_add_of_le' hf
  have hn : (s.lifted text).length ≤ n + (s.lifted text).length := Nat.le_add_left _ _
  exact (inStep _ _ hn (Nat.le_refl _)).eq (Comparison.diagonal_withItself s) rfl

theorem Session.Blockless.of_bodies {s : Session} (h : s.store.Bodies fun _ => False) :
    s.Blockless :=
  fun ref body _ hk => h ref body hk

theorem evaluate_ends_concatenation : Session.new.Blockless ∧
    (Session.new.lifted "x <- add:\"[\",(add:\"\",_s_1)".toList).length = 29 ∧
    ∃ o : Outcome Ref, o.Ended ∧ o.session.Blockless ∧ ∀ fuel, 30 ≤ fuel →
      evaluate fuel "x <- add:\"[\",(add:\"\",_s_1)".toList 0 Session.new = o := by
  have hs : Session.new.Blockless := .of_bodies (Store.Bodies.install .empty)
  have hl : (Session.new.lifted "x <- add:\"[\",(add:\"\",_s_1)".toList).length = 29 := by
    decide +kernel
  have ht : Text.Unbracketed "x <- add:\"[\",(add:\"\",_s_1)".toList := by decide +kernel
  obtain ⟨o, he, hb, ho⟩ := evaluate_ends hs ht 0
  rw [hl] at ho
  exact ⟨hs, hl, o, he, hb, ho⟩

end LineScript
