import LineScript.Proofs.Run.Heap
import LineScript.Proofs.Run.Temporary
import LineScript.Proofs.Statement.Forms

namespace LineScript

open Text Eval

namespace Statement

/-- What a parameter can be called: letters, underscores and spaces. -/
def CanBeParameter (name : Text) : Prop :=
  name ≠ [] ∧ ∀ c ∈ name, isLetter c ∨ c = ' '

theorem CanBeParameter.ne_literalName {name : Text} (h : CanBeParameter name) (n : Nat) :
    name ≠ Session.literalName n := by
  rintro rfl
  obtain ⟨c, hc⟩ := List.exists_mem_of_ne_nil _ (Decimal.ofNat_ne_nil n)
  have hd := Decimal.isDigit_of_mem_ofNat hc
  have hm : c ∈ Session.literalName n := by simp [Session.literalName, hc]
  obtain hl | rfl := h.2 c hm
  · rw [isDigit_of_isLetter hl] at hd
    cases hd
  · cases hd

theorem canBeParameter_of_readFrom {params : List Text} {body text : Text}
    (h : ReadFrom (.block params body) text) : ∀ name ∈ params, CanBeParameter name := by
  intro name hn
  cases h with
  | @block list _ hl _ =>
    obtain ⟨hm, hne⟩ := List.mem_filter.mp hn
    obtain ⟨part, hp, rfl⟩ := List.mem_map.mp hm
    refine ⟨by simpa using hne, fun c hc => ?_⟩
    obtain ⟨hmem, hcomma⟩ := mem_of_mem_splitOn hp (mem_of_mem_trim hc)
    have hf := List.all_eq_true.mp hl c hmem
    simp only [isFieldChar, isLetter, Bool.or_eq_true, beq_iff_eq] at hf ⊢
    tauto

instance (name : Text) : Decidable (CanBeParameter name) :=
  decidable_of_iff (name ≠ [] ∧ name.all fun c => isLetter c || c == ' ') (by simp [CanBeParameter])

theorem canBeParameter_native (function : Native) :
    ∀ name ∈ function.params, CanBeParameter name := by
  cases function <;> decide

end Statement

open Statement (CanBeParameter)

structure Object.WellNamed (o : Object) : Prop where
  fields : ∀ entry ∈ o.fields, isName entry.1
  parameters : ∀ names, o.kind = .parameterNames names → ∀ name ∈ names, CanBeParameter name

def Store.WellNamed (store : Store) : Prop :=
  ∀ ref, (store.object ref).WellNamed

namespace Store.WellNamed

variable {store : Store}

theorem empty : Store.WellNamed {} :=
  fun _ => ⟨nofun, nofun⟩

theorem alloc (h : store.WellNamed) {o : Object} (ho : o.WellNamed) :
    (store.alloc o).2.WellNamed := by
  intro ref
  rw [object_alloc_eq]
  split
  · exact ho
  · exact h ref

theorem setField (h : store.WellNamed) {name : Text} (hn : isName name) (ref value : Ref) :
    (store.setField ref name value).WellNamed := by
  intro other
  constructor
  · intro entry hm
    change entry ∈ (store.setField ref name value).fields other at hm
    obtain he | ⟨-, -, he⟩ := store.fields_setField_eq ref name value other
    · rw [he] at hm
      exact (h other).fields entry hm
    · rw [he] at hm
      obtain rfl | hm := Bindings.mem_insert hm
      · exact hn
      · exact (h ref).fields entry hm
  · intro names hk
    exact (h other).parameters names ((store.kind_setField ref name value other).symm.trans hk)

theorem allocCallable (h : store.WellNamed) {params : List Text}
    (hp : ∀ name ∈ params, CanBeParameter name) (code : Callable) :
    (store.allocCallable params code).2.WellNamed := by
  have hnames : Object.WellNamed ⟨.parameterNames params, []⟩ :=
    ⟨nofun, fun names he => by cases he; exact hp⟩
  have hcallable := h.alloc (o := ⟨.callable code, []⟩) ⟨nofun, nofun⟩
  exact (hcallable.alloc hnames).setField (by decide) _ _

theorem install (h : store.WellNamed) : (Native.install store).2.WellNamed :=
  install_induction (fun _ hs => hs.alloc ⟨nofun, nofun⟩)
    (fun _ function hs => hs.allocCallable (Statement.canBeParameter_native function) _) h

theorem parameters (h : store.WellNamed) (callable : Ref) :
    ∀ name ∈ store.parameters callable, CanBeParameter name := by
  intro name hm
  rw [Store.parameters] at hm
  split at hm
  next names hk =>
    obtain ⟨ref, -, hk⟩ := Option.map_eq_some_iff.mp hk
    exact (h ref).parameters names hk name hm
  next => cases hm

end Store.WellNamed

theorem Scopes.mem_temporary_bindAll {scopes : Scopes} {bound : List (Text × Ref)}
    {entry : Text × Ref} (h : entry ∈ (scopes.bindAll bound).temporary) :
    entry ∈ bound ∨ entry ∈ scopes.temporary := by
  induction bound generalizing scopes with
  | nil => exact .inr h
  | cons pair bound ih =>
    obtain h | h := ih h
    · exact .inl (List.mem_cons_of_mem pair h)
    · obtain rfl | h := Bindings.mem_insert h
      · exact .inl List.mem_cons_self
      · exact .inr h

namespace Session

/-- The entry binds the name of a literal that was lifted to a string. -/
def IsLiteral (s : Session) (entry : Text × Ref) : Prop :=
  ∃ n text, 1 ≤ n ∧ n ≤ s.literals ∧ entry.1 = literalName n ∧ s.store.kind entry.2 = .string text

structure WellNamed (s : Session) : Prop where
  temporary : ∀ entry ∈ s.scopes.temporary, s.IsLiteral entry ∨ CanBeParameter entry.1
  persistent : ∀ entry ∈ s.scopes.persistent, isName entry.1
  store : s.store.WellNamed

variable {s t : Session}

theorem IsLiteral.later {entry : Text × Ref} (h : s.IsLiteral entry) (hl : s.literals ≤ t.literals)
    (hg : s.store.Grows t.store) : t.IsLiteral entry := by
  obtain ⟨n, text, hlo, hhi, hn, hk⟩ := h
  have hhas : s.store.Has entry.2 := Store.has_of_kind_ne (by rw [hk]; nofun)
  exact ⟨n, text, hlo, Nat.le_trans hhi hl, hn, (hg.kind_eq _ hhas).trans hk⟩

theorem WellNamed.new {store : Store} (h : store.WellNamed) : (Session.new store).WellNamed :=
  ⟨nofun, nofun, h.install⟩

end Session

namespace Run

variable {r : Run} {s t : Session} {name : Text}

theorem Own.literals_le (h : r.Own s t) : s.literals ≤ t.literals := by
  cases h with
  | literal => exact Nat.le_succ _
  | _ => exact Nat.le_refl _

theorem Own.wellNamed_store (h : r.Own s t) (hr : r.Arises) (hs : s.store.WellNamed) :
    t.store.WellNamed := by
  cases h with
  | literal => exact hs.alloc ⟨nofun, nofun⟩
  | create hk => exact hs.alloc ⟨nofun, fun names he => by subst he; cases hk⟩
  | @copy _ _ _ _ object => exact hs.alloc (hs object)
  | block =>
    obtain ⟨source, hc⟩ := hr.exists_text rfl
    exact hs.allocCallable
      (Statement.canBeParameter_of_readFrom (Statement.readFrom_of_classify? hc)) _
  | setField =>
    obtain ⟨source, hc⟩ := hr.exists_text rfl
    cases Statement.readFrom_of_classify? hc with
    | extend hf => exact hs.setField hf _ _
  | _ => exact hs

end Run

theorem Session.Visited.wellNamed_store {s : Session} (h : s.Visited) : s.store.WellNamed :=
  h.invariant Store.WellNamed.empty.install (fun _ hs => hs.install) fun _ _ _ hr ho hs =>
    ho.wellNamed_store hr hs

namespace Run

variable {r : Run} {s t : Session} {name : Text}

theorem Own.wellNamed (h : r.Own s t) (hr : r.Arises) (hs : s.WellNamed) : t.WellNamed := by
  have old : ∀ entry ∈ s.scopes.temporary, t.IsLiteral entry ∨ CanBeParameter entry.1 :=
    fun entry hm => (hs.temporary entry hm).imp_left fun hl => hl.later h.literals_le h.grows
  refine ⟨?_, ?_, h.wellNamed_store hr hs.store⟩
  · cases h with
    | @literal _ literal =>
      intro entry hm
      obtain rfl | hm := Bindings.mem_insert hm
      · exact .inl ⟨s.literals + 1, literal, Nat.le_add_left _ _, Nat.le_refl _, rfl,
          congrArg Object.kind (s.store.object_alloc_self _)⟩
      · exact old entry hm
    | @bindAll callable =>
      intro entry hm
      obtain hm | hm := Scopes.mem_temporary_bindAll hm
      · exact .inr (hr.start.wellNamed_store.parameters callable _ (List.of_mem_zip hm).1)
      · exact old entry hm
    | endCall => exact nofun
    | _ => exact old
  · cases h with
    | assign =>
      intro entry hm
      obtain rfl | hm := Bindings.mem_insert hm
      · obtain ⟨source, hc⟩ := hr.exists_text rfl
        cases Statement.readFrom_of_classify? hc with
        | assign hn => exact hn
      · exact hs.persistent entry hm
    | bindAll =>
      intro entry hm
      exact hs.persistent entry (Scopes.persistent_bindAll _ _ ▸ hm)
    | _ => exact hs.persistent

end Run

theorem Session.Visited.wellNamed {s : Session} (h : s.Visited) : s.WellNamed :=
  h.invariant (.new .empty) (fun _ hs => .new hs.store) fun _ _ _ hr ho hs => ho.wellNamed hr hs

namespace Session

variable {s t : Session} {n : Nat}

theorem WellNamed.get?_eq_none (h : s.WellNamed) (hn : s.literals < n) :
    s.scopes.temporary.get? (literalName n) = none := by
  rw [Option.eq_none_iff_forall_ne_some]
  intro value hv
  obtain ⟨m, _, _, hm, he, -⟩ | hp := h.temporary _ (Bindings.mem_of_get? hv)
  · have hmn : n = m := literalName_injective he
    omega
  · exact hp.ne_literalName n rfl

theorem Leads.literals_le {runs : Run → Prop} (h : s.Leads runs t) : s.literals ≤ t.literals :=
  h.invariant (I := fun u => s.literals ≤ u.literals)
    (fun _ _ _ _ ho hs => Nat.le_trans hs ho.literals_le) (Nat.le_refl _)

end Session

namespace Run

variable {r : Run} {s t : Session} {name : Text} {n : Nat}

theorem Inserts.name_cases (h : r.Inserts name s t) (hr : r.Arises) :
    (name = Session.literalName (s.literals + 1) ∧ t.literals = s.literals + 1) ∨
      CanBeParameter name := by
  cases h with
  | literal => exact .inl ⟨rfl, rfl⟩
  | @parameter callable _ _ _ _ _ _ _ _ _ hn =>
    exact .inr (hr.start.wellNamed_store.parameters callable name hn)

theorem Inserts.literals_eq (h : r.Inserts (Session.literalName n) s t) (hr : r.Arises) :
    n = s.literals + 1 ∧ n = t.literals := by
  obtain ⟨he, ht⟩ | hp := h.name_cases hr
  · have hn := Session.literalName_injective he
    exact ⟨hn, hn.trans ht.symm⟩
  · exact absurd rfl (hp.ne_literalName n)

/-- No step binds the name of a literal that was lifted before. -/
theorem Own.literal_eq_none (h : r.Own s t) (hr : r.Arises) (hn : n ≤ s.literals)
    (hs : s.scopes.temporary.get? (Session.literalName n) = none) :
    t.scopes.temporary.get? (Session.literalName n) = none := by
  obtain he | hi | ⟨-, he⟩ := h.temporary_cases (Session.literalName n)
  · rw [he, hs]
  · have hlater := (hi.literals_eq hr).1
    omega
  · rw [he]
    rfl

end Run

/-- In all sessions that evaluations pass through, what is bound temporarily are literals, each
under the name with its number, and arguments, under names that a block can list; variables and
fields are called by words. A step that binds a name temporarily either lifts a literal, whose
number is the next and whose name is not bound, or binds an argument, whose name is none of a
literal. So no literal's name is bound a second time, and it stays unbound once it is forgotten. -/
theorem names_never_reused {s : Session} (hs : s.Visited) :
    s.WellNamed ∧
    (∀ (r : Run) t name, r.Own s t →
      t.scopes.temporary.get? name = s.scopes.temporary.get? name ∨ r.Inserts name s t ∨
        t.scopes.temporary = []) ∧
    (∀ (r : Run) t name, r.Arises → r.Inserts name s t →
      (name = Session.literalName (s.literals + 1) ∧ t.literals = s.literals + 1 ∧
        s.scopes.temporary.get? name = none) ∨
      CanBeParameter name ∧ ∀ n, name ≠ Session.literalName n) ∧
    (∀ (r : Run) t n, r.Arises → r.Inserts (Session.literalName n) s t →
      ∀ u, t.Leads Run.Arises u → ∀ (r' : Run) v, r'.Arises →
        ¬r'.Inserts (Session.literalName n) u v) ∧
    ∀ n, n ≤ s.literals → s.scopes.temporary.get? (Session.literalName n) = none →
      ∀ t, s.Leads Run.Arises t → t.scopes.temporary.get? (Session.literalName n) = none := by
  refine ⟨hs.wellNamed, fun r t name ho => ?_, fun r t name hr hi => ?_, fun r t n hr hi u hl => ?_,
    fun n hn hnone t hl => ?_⟩
  · exact (ho.temporary_cases name).imp_right fun h => h.imp_right And.right
  · obtain ⟨rfl, ht⟩ | hp := hi.name_cases hr
    · exact .inl ⟨rfl, ht, hs.wellNamed.get?_eq_none (Nat.lt_succ_self _)⟩
    · exact .inr ⟨hp, hp.ne_literalName⟩
  · intro r' v hr' hi'
    have hfirst := (hi.literals_eq hr).2
    have hagain := (hi'.literals_eq hr').1
    have hle := hl.literals_le
    omega
  · let Forgotten (u : Session) : Prop :=
      n ≤ u.literals ∧ u.scopes.temporary.get? (Session.literalName n) = none
    have step (r : Run) (u v : Session) (hr : r.Arises) (ho : r.Own u v) (hu : Forgotten u) :
        Forgotten v :=
      ⟨Nat.le_trans hu.1 ho.literals_le, ho.literal_eq_none hr hu.1 hu.2⟩
    exact (hl.invariant step ⟨hn, hnone⟩).2

theorem names_never_reused_forgotten : ∃ s t u : Session, s.Visited ∧ u.Visited ∧
    t = s.withLiteral ['b'] ∧ u = (evaluate 4 "f:\"b\"".toList 0 s).session ∧
    t.scopes.temporary.names = [Session.literalName 1, Session.literalName 2] ∧
    (∀ v, t.Leads Run.Arises v → ∀ (r : Run) w, r.Arises →
      ¬r.Inserts (Session.literalName 2) v w) ∧
    u.literals = 2 ∧
    ∀ v, u.Leads Run.Arises v → v.scopes.temporary.get? (Session.literalName 1) = none := by
  let s := (evaluate 4 "f <- [x|add:x,\"a\"]".toList 0 Session.new).session
  let t := s.withLiteral ['b']
  let u := (evaluate 4 "f:\"b\"".toList 0 s).session
  have hs : s.Evaluated := Session.Evaluated.new.evaluate 4 _ 0
  have hu : u.Evaluated := hs.evaluate 4 _ 0
  have hsl : s.literals + 1 = 2 := by decide +kernel
  have hul : u.literals = 2 := by decide +kernel
  have hgone : u.scopes.temporary.get? (Session.literalName 1) = none := by decide +kernel
  have hquoted : (['b'], []) ∈ (literals "f:\"b\"".toList).quoted := by decide +kernel
  let r : Run := ⟨.evaluation "f:\"b\"".toList 0, 4, s⟩
  have hr : r.Arises := hs.arises _ 0 4
  have hi : r.Inserts (Session.literalName 2) s t := hsl ▸ .literal hquoted
  refine ⟨s, t, u, hs.visited, hu.visited, rfl, rfl, by decide +kernel, ?_, hul, ?_⟩
  · exact (names_never_reused hs.visited).2.2.2.1 r t 2 hr hi
  · exact (names_never_reused hu.visited).2.2.2.2 1 (by rw [hul]; decide) hgone

end LineScript
