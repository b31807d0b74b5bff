import LineScript.Dialogue
import LineScript.Proofs.Comparison.Evaluation
import LineScript.Proofs.Run.Closed

namespace LineScript

open Text Eval

structure Client where
  session : Session
  transcript : List (Text × Reply) := []

namespace Client

def sessionIn (client : Client) (store : Store) : Session :=
  { client.session with store }

theorem sessionIn_self (client : Client) : client.sessionIn client.session.store = client.session :=
  rfl

def feed (fuel : Nat) (store : Store) (client : Client) (line : Text) : Client :=
  let (reply, session) := processLine fuel line (client.sessionIn store)
  ⟨session, client.transcript ++ [(line, reply)]⟩

/-- A client that is opened behind the objects of a store and then has the store to itself. -/
def alone (fuel : Nat) (store : Store) (lines : List Text) : Client :=
  lines.foldl (fun client line => client.feed fuel client.session.store line)
    ⟨Session.new store, []⟩

theorem alone_append_singleton (fuel : Nat) (store : Store) (lines : List Text) (line : Text) :
    alone fuel store (lines ++ [line]) =
      (alone fuel store lines).feed fuel (alone fuel store lines).session.store line := by
  rw [alone, List.foldl_append]
  rfl

end Client

structure Process where
  store : Store := {}
  clients : List Client := []

inductive Move where
  | opening
  | line (client : Nat) (text : Text)
deriving DecidableEq

def Move.lineFor? (client : Nat) : Move → Option Text
  | opening => none
  | line other text => if other = client then some text else none

namespace Process

def step (fuel : Nat) (p : Process) : Move → Process
  | .opening =>
    let session := Session.new p.store
    ⟨session.store, p.clients ++ [⟨session, []⟩]⟩
  | .line i text =>
    match p.clients[i]? with
    | none => p
    | some client =>
      let client := client.feed fuel p.store text
      ⟨client.session.store, p.clients.set i client⟩

def run (fuel : Nat) (moves : List Move) : Process :=
  moves.foldl (step fuel) {}

end Process

structure Pairing (pairs : Ref → Ref → Prop) (store store' : Store) : Prop where
  ordered {a b a' b' : Ref} :
    pairs a b → pairs a' b' → (a.number < a'.number ↔ b.number < b'.number)
  has {a b : Ref} : pairs a b → store.Has a ∧ store'.Has b

section

variable {pairs : Ref → Ref → Prop} {store store' : Store}

theorem Pairing.nothing : Pairing (fun _ _ => False) store store' :=
  ⟨nofun, nofun⟩

/-- The pairs that there are, and those of the objects that both sides will make. -/
def Pairing.Onward (pairs : Ref → Ref → Prop) (store store' : Store) (a b : Ref) : Prop :=
  pairs a b ∨ ∃ k, a = ⟨store.size + k⟩ ∧ b = ⟨store'.size + k⟩

theorem Pairing.ordered_onward (h : Pairing pairs store store') {a b a' b' : Ref}
    (hab : Onward pairs store store' a b) (hab' : Onward pairs store store' a' b') :
    a.number < a'.number ↔ b.number < b'.number := by
  have old {a b : Ref} (hp : pairs a b) : a.index < store.size ∧ b.index < store'.size := h.has hp
  obtain hp | ⟨k, rfl, rfl⟩ := hab <;> obtain hp' | ⟨k', rfl, rfl⟩ := hab'
  · exact h.ordered hp hp'
  · have := old hp
    simp only [Ref.number]
    omega
  · have := old hp'
    simp only [Ref.number]
    omega
  · simp only [Ref.number]
    omega

def Pairing.comparison (h : Pairing pairs store store') : Comparison where
  pairs := Onward pairs store store'
  ordered := h.ordered_onward
  first := store
  second := store'
  Body _ := True
  Exhaustible := True

theorem Store.Agree.storesAgree (h : Agree pairs store store') (hp : Pairing pairs store store') :
    hp.comparison.StoresAgree store store' where
  agree := by
    rintro a b (hab | ⟨k, rfl, rfl⟩)
    · exact ⟨h.kind_eq hab, (h.fields hab).imp fun _ _ _ => .inl⟩
    · rw [object_of_size_le (Nat.le_add_right _ _), object_of_size_le (Nat.le_add_right _ _)]
      exact ⟨rfl, .nil⟩
  fresh k := .inr ⟨k, rfl, rfl⟩
  body _ _ := trivial
  left _ := rfl
  right _ := rfl

theorem Session.Agree.sessionsAgree {s t : Session} (h : Agree pairs s t)
    (hp : Pairing pairs s.store t.store) : hp.comparison.SessionsAgree s t :=
  ⟨h.store.storesAgree hp, ⟨h.scopes.temporary.imp fun _ _ _ => .inl,
    h.scopes.persistent.imp fun _ _ _ => .inl, h.scopes.builtin.imp fun _ _ _ => .inl⟩,
    h.tracing_eq, h.literals_eq, h.log_eq⟩

theorem Session.Agree.withStore {s t : Session} (h : Agree pairs { s with store } t)
    (ho : ∀ a b, pairs a b → store'.object a = store.object a) :
    Agree pairs { s with store := store' } t :=
  ⟨fun a b hp => ho a b hp ▸ h.store hp, h.scopes, h.tracing_eq, h.literals_eq, h.log_eq⟩

end

namespace Comparison

variable {c : Comparison} {s t : Session}

def within (c : Comparison) (store : Store) (a b : Ref) : Prop :=
  c.pairs a b ∧ store.Has a

theorem StoresAgree.pairing {store store' : Store} (h : c.StoresAgree store store') :
    Pairing (c.within store) store store' :=
  ⟨fun hp hp' => c.ordered hp.1 hp'.1, fun hp => ⟨hp.2, (h.has_iff hp.1).mp hp.2⟩⟩

theorem SessionsAgree.agree_within (h : c.SessionsAgree s t) (hs : s.Closed) :
    Session.Agree (c.within s.store) s t := by
  have layer {bindings others : Bindings Ref} (hb : s.store.HasAll bindings)
      (hp : bindings.Paired c.pairs others) : bindings.Paired (c.within s.store) others :=
    hp.imp fun entry hm _ hv => ⟨hv, hb entry hm⟩
  refine ⟨fun a b hp => ⟨h.agree.store.kind_eq hp.1, ?_⟩, ⟨?_, ?_, ?_⟩, h.tracing_eq,
    h.literals_eq, h.log_eq⟩
  · exact layer (hs.store a) (h.agree.store.fields hp.1)
  · exact layer hs.temporary h.scopes.temporary
  · exact layer hs.persistent h.scopes.persistent
  · exact layer hs.builtin h.scopes.builtin

end Comparison

section

variable (fuel : Nat) (line : Text) (s : Session)

/-- What processing a line adds to evaluating it is at most an event. -/
theorem processLine_session : ∃ events, (processLine fuel line s).2 =
    { (evalSource fuel (dropEndWhile isLineEnd line) s).session with
      log := events ++ (evalSource fuel (dropEndWhile isLineEnd line) s).session.log } := by
  rw [processLine]
  cases evalSource fuel (dropEndWhile isLineEnd line) s with
  | failure why t =>
    cases why with
    | exit => exact ⟨[], rfl⟩
    | fault cause => exact ⟨[_], rfl⟩
  | _ => exact ⟨[], rfl⟩

theorem log_subset_processLine : s.log ⊆ (processLine fuel line s).2.log := by
  obtain ⟨events, he⟩ := processLine_session fuel line s
  rw [he]
  exact List.Subset.trans ((keepsLog_evaluate fuel _ 0).log s) (List.subset_append_right _ _)

variable {s}

theorem closed_processLine (hs : s.Closed) : (processLine fuel line s).2.Closed := by
  obtain ⟨events, he⟩ := processLine_session fuel line s
  have hc := (Run.sound (.ofLine fuel (dropEndWhile isLineEnd line) s) hs).closed
  rw [he]
  exact ⟨hc.store, hc.temporary, hc.persistent, hc.builtin⟩

theorem grows_processLine : s.store.Grows (processLine fuel line s).2.store := by
  obtain ⟨events, he⟩ := processLine_session fuel line s
  rw [he]
  exact (Run.ofLine fuel (dropEndWhile isLineEnd line) s).grows_outcome

theorem Comparison.SessionsAgree.processLine {c : Comparison} {t : Session}
    (h : c.SessionsAgree s t) (hb : ∀ body, c.Body body) (he : c.Exhaustible)
    (hn : ¬(processLine fuel line s).2.Inspected) :
    (processLine fuel line s).1 = (processLine fuel line t).1 ∧
      c.SessionsAgree (processLine fuel line s).2 (processLine fuel line t).2 := by
  have hlog : (evalSource fuel (dropEndWhile isLineEnd line) s).session.log ⊆
      (LineScript.processLine fuel line s).2.log := by
    obtain ⟨events, hl⟩ := processLine_session fuel line s
    rw [hl]
    exact List.subset_append_right _ _
  have hstep : (evalSource fuel (dropEndWhile isLineEnd line) s).InStep c c.pairs
      (evalSource fuel (dropEndWhile isLineEnd line) t) :=
    (evaluate_follows hb he fuel _ 0 h).resolve_right fun hi => hn (hi.2.mono hlog)
  rw [LineScript.processLine, LineScript.processLine]
  generalize evalSource fuel (dropEndWhile isLineEnd line) s = o at hstep ⊢
  generalize evalSource fuel (dropEndWhile isLineEnd line) t = o' at hstep ⊢
  cases hstep with
  | value hv hu => exact ⟨congrArg Reply.value (hu.agree.store.text_eq hv), hu⟩
  | failure why hu =>
    cases why with
    | exit => exact ⟨rfl, hu⟩
    | fault cause => exact ⟨rfl, hu.record _⟩
  | exhausted _ hu => exact ⟨rfl, hu⟩

end

namespace Client

/-- A client, its objects in the store, has replied what the lone one has, and has come to the same
but for the numbers of the objects. -/
structure Matches (pairs : Ref → Ref → Prop) (store : Store) (client lone : Client) : Prop where
  transcript_eq : client.transcript = lone.transcript
  closed : (client.sessionIn store).Closed
  pairing : Pairing pairs store lone.session.store
  agree : Session.Agree pairs (client.sessionIn store) lone.session

variable {pairs : Ref → Ref → Prop} {store store' : Store} {client lone : Client}

theorem Matches.feed (h : client.Matches pairs store lone) {fuel : Nat} {line : Text}
    (hn : ¬(client.feed fuel store line).session.Inspected) :
    let next := client.feed fuel store line
    next.Matches (h.pairing.comparison.within next.session.store) next.session.store
        (lone.feed fuel lone.session.store line) ∧
      ∀ a, (∀ b, ¬h.pairing.comparison.pairs a b) →
        next.session.store.object a = store.object a := by
  have hstart := h.agree.sessionsAgree h.pairing
  obtain ⟨hreply, hnext⟩ :=
    hstart.processLine fuel line (fun _ => trivial) trivial hn
  have hclosed := closed_processLine fuel line h.closed
  refine ⟨⟨?_, hclosed, hnext.stores.pairing, hnext.agree_within hclosed⟩,
    fun a ha => hnext.stores.left ha⟩
  simp only [Client.feed, h.transcript_eq, hreply, lone.sessionIn_self]

theorem Matches.opening (hc : store.Closed) (fuel : Nat) (before : Store) :
    let c := (@Pairing.nothing store before).comparison
    Matches (c.within (Session.new store).store) (Session.new store).store ⟨Session.new store, []⟩
      (.alone fuel before []) := by
  have hnew := Comparison.SessionsAgree.new (Store.Agree.storesAgree nofun
    (@Pairing.nothing store before))
  have hclosed := Session.Closed.new hc
  exact ⟨rfl, hclosed, hnew.stores.pairing, hnew.agree_within hclosed⟩

theorem Matches.later (h : client.Matches pairs store lone) (hg : store.Grows store')
    (hc : store'.Closed) (ho : ∀ a b, pairs a b → store'.object a = store.object a) :
    client.Matches pairs store' lone where
  transcript_eq := h.transcript_eq
  closed := h.closed.onStore hg hc
  pairing := ⟨h.pairing.ordered, fun hp => ⟨hg.has (h.pairing.has hp).1, (h.pairing.has hp).2⟩⟩
  agree := h.agree.withStore ho

end Client

namespace Process

/-- Every client of the process matches one that is alone, and no two have an object in common. -/
structure Apart (fuel : Nat) (before : Store) (pairs : Nat → Ref → Ref → Prop) (p : Process) :
    Prop where
  closed : p.store.Closed
  clients {i : Nat} {client : Client} : p.clients[i]? = some client →
    client.Matches (pairs i) p.store (.alone fuel before (client.transcript.map Prod.fst))
  has {i : Nat} {a b : Ref} : pairs i a b → p.store.Has a
  disjoint {i j : Nat} {a b b' : Ref} : pairs i a b → pairs j a b' → i = j

variable {fuel : Nat} {before : Store} {pairs : Nat → Ref → Ref → Prop} {p : Process}

/-- One client makes objects and changes its own, or a new one is opened. -/
theorem Apart.update (h : p.Apart fuel before pairs) {p' : Process} {i : Nat} {client : Client}
    {own : Ref → Ref → Prop} (hg : p.store.Grows p'.store) (hc : p'.store.Closed)
    (hothers : ∀ j, j ≠ i → p'.clients[j]? = p.clients[j]?) (hi : p'.clients[i]? = some client)
    (hclient : client.Matches own p'.store
      (.alone fuel before (client.transcript.map Prod.fst)))
    (hown : ∀ a b, own a b → pairs i a b ∨ ¬p.store.Has a)
    (hframe : ∀ a, p.store.Has a → (∀ b, ¬pairs i a b) → p'.store.object a = p.store.object a) :
    p'.Apart fuel before fun j => if j = i then own else pairs j := by
  refine ⟨hc, fun {j other} hj => ?_, fun {j a b} hp => ?_, fun {j k a b b'} hp hp' => ?_⟩
  · by_cases he : j = i
    · subst he
      cases hi.symm.trans hj
      rw [if_pos rfl]
      exact hclient
    · rw [if_neg he]
      refine (h.clients (hothers j he ▸ hj)).later hg hc fun a b hp => ?_
      exact hframe a (h.has hp) fun b' hp' => he (h.disjoint hp hp')
  · by_cases he : j = i
    · rw [if_pos he] at hp
      exact (hclient.pairing.has hp).1
    · rw [if_neg he] at hp
      exact hg.has (h.has hp)
  · -- A pair that is new belongs to no other client, since its object was not there before.
    have apart {k : Nat} (hk : k ≠ i) {a b b' : Ref} (ho : own a b) (hp : pairs k a b') :
        False := by
      obtain ho | hn := hown a b ho
      · exact hk (h.disjoint hp ho)
      · exact hn (h.has hp)
    by_cases hj : j = i <;> by_cases hk : k = i
    · rw [hj, hk]
    · rw [if_pos hj] at hp
      rw [if_neg hk] at hp'
      exact (apart hk hp hp').elim
    · rw [if_neg hj] at hp
      rw [if_pos hk] at hp'
      exact (apart hj hp' hp).elim
    · rw [if_neg hj] at hp
      rw [if_neg hk] at hp'
      exact h.disjoint hp hp'

theorem Apart.opening (h : p.Apart fuel before pairs) :
    ∃ pairs', (p.step fuel .opening).Apart fuel before pairs' := by
  have hlone := Client.Matches.opening h.closed fuel before
  have hext : p.store.Extends (Session.new p.store).store :=
    Store.install_induction (fun _ hs => hs.trans (.alloc _))
      (fun _ _ hs => hs.trans (.allocCallable _ _)) .rfl
  refine ⟨_, h.update (i := p.clients.length) (.of_extends hext) hlone.closed.store
    (fun j hj => ?_) List.getElem?_concat_length hlone ?_ fun a ha _ => hext.object_eq a ha⟩
  · obtain hlt | hgt := Nat.lt_or_gt_of_ne hj
    · exact List.getElem?_append_left hlt
    · rw [List.getElem?_eq_none (Nat.le_of_lt hgt)]
      exact List.getElem?_eq_none (by simpa [step] using Nat.succ_le_of_lt hgt)
  · rintro a b ⟨hp | ⟨k, rfl, -⟩, -⟩
    · exact hp.elim
    · exact .inr (Nat.not_lt.mpr (Nat.le_add_right _ _))

theorem Apart.line (h : p.Apart fuel before pairs) {i : Nat} {client : Client} {text : Text}
    (hi : p.clients[i]? = some client)
    (hn : ¬(client.feed fuel p.store text).session.Inspected) :
    ∃ pairs', (p.step fuel (.line i text)).Apart fuel before pairs' := by
  have hclient := h.clients hi
  obtain ⟨hnext, hframe⟩ := hclient.feed hn
  have hlt : i < p.clients.length := (List.getElem?_eq_some_iff.mp hi).1
  have hlone : Client.alone fuel before ((client.feed fuel p.store text).transcript.map Prod.fst) =
      (Client.alone fuel before (client.transcript.map Prod.fst)).feed fuel
        (Client.alone fuel before (client.transcript.map Prod.fst)).session.store text := by
    rw [← Client.alone_append_singleton]
    simp [Client.feed]
  rw [← hlone] at hnext
  simp only [step, hi]
  have hg : p.store.Grows (client.feed fuel p.store text).session.store :=
    grows_processLine fuel text (s := client.sessionIn p.store)
  refine ⟨_, h.update (i := i) hg hnext.closed.store
    (fun j hj => List.getElem?_set_ne (Ne.symm hj)) (List.getElem?_set_self hlt) hnext ?_ ?_⟩
  · rintro a b ⟨hp | ⟨k, rfl, -⟩, -⟩
    · exact .inl hp
    · exact .inr (Nat.not_lt.mpr (Nat.le_add_right _ _))
  · intro a ha hfree
    refine hframe a fun b hp => ?_
    obtain hp | ⟨k, rfl, -⟩ := hp
    · exact hfree b hp
    · exact absurd ha (Nat.not_lt.mpr (Nat.le_add_right _ _))

def Inspected (p : Process) : Prop :=
  ∃ client ∈ p.clients, client.session.Inspected

instance (p : Process) : Decidable p.Inspected :=
  inferInstanceAs (Decidable (∃ client ∈ p.clients, client.session.Inspected))

theorem Inspected.step (h : p.Inspected) (move : Move) : (p.step fuel move).Inspected := by
  obtain ⟨other, hm, ho⟩ := h
  cases move with
  | opening => exact ⟨other, List.mem_append_left _ hm, ho⟩
  | line i text =>
    simp only [Process.step]
    split
    next => exact ⟨other, hm, ho⟩
    next client hi =>
      have hlt : i < p.clients.length := (List.getElem?_eq_some_iff.mp hi).1
      obtain ⟨j, hj⟩ := List.mem_iff_getElem?.mp hm
      by_cases he : j = i
      · subst he
        cases hi.symm.trans hj
        refine ⟨_, List.mem_set hlt _, ho.mono ?_⟩
        exact log_subset_processLine fuel text (other.sessionIn p.store)
      · refine ⟨other, List.mem_of_getElem? (i := j) ?_, ho⟩
        rw [List.getElem?_set_ne (Ne.symm he)]
        exact hj

theorem Inspected.foldl (h : p.Inspected) (moves : List Move) :
    (moves.foldl (Process.step fuel) p).Inspected := by
  induction moves generalizing p with
  | nil => exact h
  | cons move moves ih => exact ih (h.step move)

theorem Apart.step (h : p.Apart fuel before pairs) {move : Move}
    (hn : ¬(p.step fuel move).Inspected) :
    ∃ pairs', (p.step fuel move).Apart fuel before pairs' := by
  cases move with
  | opening => exact h.opening
  | line i text =>
    cases hi : p.clients[i]? with
    | none =>
      simp only [Process.step, hi]
      exact ⟨pairs, h⟩
    | some client =>
      have hlt : i < p.clients.length := (List.getElem?_eq_some_iff.mp hi).1
      refine h.line hi fun hfed => hn ?_
      simp only [Process.step, hi]
      exact ⟨_, List.mem_set hlt _, hfed⟩

theorem Apart.foldl (h : p.Apart fuel before pairs) {moves : List Move}
    (hn : ¬(moves.foldl (Process.step fuel) p).Inspected) :
    ∃ pairs', (moves.foldl (Process.step fuel) p).Apart fuel before pairs' := by
  induction moves generalizing p pairs with
  | nil => exact ⟨pairs, h⟩
  | cons move moves ih =>
    obtain ⟨_, h⟩ := h.step fun hi => hn (hi.foldl moves)
    exact ih h hn

theorem length_clients_foldl (p : Process) (moves : List Move) :
    (moves.foldl (Process.step fuel) p).clients.length =
      p.clients.length + moves.count .opening := by
  induction moves generalizing p with
  | nil => rfl
  | cons move moves ih =>
    rw [List.foldl_cons, ih]
    cases move with
    | opening =>
      simp only [Process.step, List.length_append, List.length_singleton, List.count_cons_self]
      omega
    | line i text =>
      have hl : (p.step fuel (.line i text)).clients.length = p.clients.length := by
        simp only [Process.step]
        split
        · rfl
        · exact List.length_set
      rw [hl, List.count_cons_of_ne (by simp)]

theorem exists_client_step (fuel : Nat) {i : Nat} {client : Client}
    (hi : p.clients[i]? = some client) (move : Move) :
    ∃ next, (p.step fuel move).clients[i]? = some next ∧ next.transcript.map Prod.fst =
      client.transcript.map Prod.fst ++ (move.lineFor? i).toList := by
  have hlt : i < p.clients.length := (List.getElem?_eq_some_iff.mp hi).1
  cases move with
  | opening => exact ⟨client, (List.getElem?_append_left hlt).trans hi, by simp [Move.lineFor?]⟩
  | line j text =>
    by_cases he : j = i
    · subst he
      simp only [Process.step, hi, List.getElem?_set_self hlt]
      exact ⟨_, rfl, by simp [Client.feed, Move.lineFor?]⟩
    · refine ⟨client, ?_, by simp [Move.lineFor?, he]⟩
      simp only [Process.step]
      split
      · exact hi
      · exact (List.getElem?_set_ne he).trans hi

theorem exists_client_foldl (fuel : Nat) {i : Nat} {client : Client}
    (hi : p.clients[i]? = some client) (moves : List Move) :
    ∃ next, (moves.foldl (Process.step fuel) p).clients[i]? = some next ∧
      next.transcript.map Prod.fst =
        client.transcript.map Prod.fst ++ moves.filterMap (Move.lineFor? i) := by
  induction moves generalizing p client with
  | nil => exact ⟨client, hi, (List.append_nil _).symm⟩
  | cons move moves ih =>
    obtain ⟨next, hnext, hlines⟩ := exists_client_step fuel hi move
    obtain ⟨last, hlast, hl⟩ := ih hnext
    refine ⟨last, hlast, ?_⟩
    rw [hl, hlines, List.append_assoc, List.filterMap_cons]
    cases move.lineFor? i <;> rfl

end Process

/-- Whatever a process has its clients do, in any order, as long as none of them describes an
object: a client replies to its lines what it would reply if it were opened behind any other objects
and had no others beside it, and comes to the same bindings, in the same order, of objects with the
same kinds and fields. These objects differ at most in their numbers, and not in the order of the
numbers; in particular two of them are the same object if and only if their counterparts are. -/
theorem clients_isolated (fuel : Nat) (before after : List Move) (store : Store)
    (hn : ¬(Process.run fuel (before ++ .opening :: after)).Inspected) :
    let p := Process.run fuel (before ++ .opening :: after)
    let i := before.count .opening
    let lone := Client.alone fuel store (after.filterMap (Move.lineFor? i))
    ∃ client pairs, p.clients[i]? = some client ∧ client.transcript = lone.transcript ∧
      Pairing pairs p.store lone.session.store ∧
      Session.Agree pairs (client.sessionIn p.store) lone.session := by
  intro p i lone
  have hstart : Process.Apart fuel store (fun _ _ _ => False) {} :=
    ⟨.empty, nofun, nofun, nofun⟩
  obtain ⟨pairs, hapart⟩ := hstart.foldl hn
  let opened := (Process.run fuel before).step fuel .opening
  have hopened : opened.clients[i]? = some ⟨Session.new (Process.run fuel before).store, []⟩ := by
    have hl : i = (Process.run fuel before).clients.length := by
      rw [Process.run, Process.length_clients_foldl]
      exact (Nat.zero_add _).symm
    rw [hl]
    exact List.getElem?_concat_length
  have hp : p = after.foldl (Process.step fuel) opened := by
    change List.foldl _ _ (before ++ .opening :: after) = _
    rw [List.foldl_append, List.foldl_cons]
    rfl
  obtain ⟨client, hclient, hlines⟩ := Process.exists_client_foldl fuel hopened after
  rw [← hp] at hclient
  have hmatches := hapart.clients hclient
  rw [hlines] at hmatches
  exact ⟨client, pairs i, hclient, hmatches.transcript_eq, hmatches.pairing, hmatches.agree⟩

theorem clients_isolated_two : ∃ before after : List Move,
    before = [.opening, .line 0 "a <- 1".toList] ∧
    after = [.line 1 "a <- object".toList, .line 0 "b <- a".toList,
      .line 1 "x <- a extends a".toList] ∧
    let p := Process.run 4 (before ++ .opening :: after)
    let lone := Client.alone 4 {} ["a <- object".toList, "x <- a extends a".toList]
    ¬p.Inspected ∧ ∃ client pairs, p.clients[1]? = some client ∧
      client.transcript = lone.transcript ∧ Pairing pairs p.store lone.session.store ∧
      Session.Agree pairs (client.sessionIn p.store) lone.session := by
  let before : List Move := [.opening, .line 0 "a <- 1".toList]
  let after : List Move := [.line 1 "a <- object".toList, .line 0 "b <- a".toList,
    .line 1 "x <- a extends a".toList]
  have hn : ¬(Process.run 4 (before ++ .opening :: after)).Inspected := by decide +kernel
  have hi : before.count .opening = 1 := by decide +kernel
  have hl : after.filterMap (Move.lineFor? 1) =
      (["a <- object".toList, "x <- a extends a".toList] : List Text) := by decide +kernel
  have h := clients_isolated 4 before after {} hn
  rw [hi] at h
  obtain ⟨client, pairs, hclient, ht, hp, ha⟩ := h
  rw [hl] at ht hp ha
  exact ⟨before, after, rfl, rfl, hn, client, pairs, hclient, ht, hp, ha⟩

end LineScript
