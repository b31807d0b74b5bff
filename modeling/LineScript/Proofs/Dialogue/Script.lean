import LineScript.Proofs.Dialogue.Bytes

namespace LineScript

open Text CommandLine

/-- The replies to all of the lines, each in the session that the line before it leaves, and the
session at the end. -/
def converse (fuel : Nat) : Session → List Text → List Reply × Session
  | s, [] => ([], s)
  | s, line :: lines =>
    let (reply, t) := processLine fuel line s
    let (replies, u) := converse fuel t lines
    (reply :: replies, u)

section

variable (fuel : Nat) (s : Session)

theorem processLine_dropEndWhile (line : Text) :
    processLine fuel (dropEndWhile isLineEnd line) s = processLine fuel line s := by
  rw [processLine, processLine, dropEndWhile_dropEndWhile]

theorem runLines_map (lines : List Text) :
    runLines fuel s (lines.map (dropEndWhile isLineEnd)) = runLines fuel s lines := by
  induction lines generalizing s with
  | nil => rfl
  | cons line lines ih => simp only [List.map_cons, runLines, processLine_dropEndWhile, ih]

theorem converse_map (lines : List Text) :
    converse fuel s (lines.map (dropEndWhile isLineEnd)) = converse fuel s lines := by
  induction lines generalizing s with
  | nil => rfl
  | cons line lines ih => simp only [List.map_cons, converse, processLine_dropEndWhile, ih]

variable {fuel s}

theorem runLines_congr {lines others : List Text}
    (h : lines.map (dropEndWhile isLineEnd) = others.map (dropEndWhile isLineEnd)) :
    runLines fuel s lines = runLines fuel s others := by
  rw [← runLines_map, h, runLines_map]

theorem converse_congr {lines others : List Text}
    (h : lines.map (dropEndWhile isLineEnd) = others.map (dropEndWhile isLineEnd)) :
    converse fuel s lines = converse fuel s others := by
  rw [← converse_map, h, converse_map]

end

/-- A run over lines gives the replies to them as far as the first that ends the session; what comes
behind the line with that reply is not looked at. -/
theorem exists_replies (fuel : Nat) (s : Session) (lines : List Text) :
    ∃ front : List Reply, (∀ reply ∈ front, reply.isLast = false) ∧
      ((converse fuel s lines).1 = front ∧ runLines fuel s lines = front ∨
        ∃ last back, last.isLast = true ∧ (converse fuel s lines).1 = front ++ last :: back ∧
          ∀ later, runLines fuel s (lines.take (front.length + 1) ++ later) = front ++ [last]) := by
  induction lines generalizing s with
  | nil => exact ⟨[], by simp, .inl ⟨rfl, rfl⟩⟩
  | cons line lines ih =>
    rcases hp : processLine fuel line s with ⟨reply, t⟩
    have hc : (converse fuel s (line :: lines)).1 = reply :: (converse fuel t lines).1 := by
      rw [converse, hp]
    have hr (lines : List Text) : runLines fuel s (line :: lines) =
        reply :: if reply.isLast then [] else runLines fuel t lines := by
      rw [runLines, hp]
    cases hl : reply.isLast with
    | true =>
      refine ⟨[], by simp, .inr ⟨reply, _, hl, hc, fun later => ?_⟩⟩
      rw [List.length_nil, Nat.zero_add, List.take_succ_cons, List.cons_append, hr, if_pos hl]
      rfl
    | false =>
      obtain ⟨front, hf, h⟩ := ih t
      refine ⟨reply :: front, List.forall_mem_cons.mpr ⟨hl, hf⟩, ?_⟩
      simp only [hl, Bool.false_eq_true, if_false] at hr
      obtain ⟨ha, hg⟩ | ⟨last, back, hlast, ha, hg⟩ := h
      · exact .inl ⟨by rw [hc, ha], by rw [hr, hg]⟩
      · refine .inr ⟨last, back, hlast, by rw [hc, ha, List.cons_append], fun later => ?_⟩
        rw [List.length_cons, List.take_succ_cons, List.cons_append, hr, hg, List.cons_append]

section

variable {front : List Reply} (hf : ∀ reply ∈ front, reply.isLast = false) (banner : Bool)
include hf

theorem notMem_of_isLast {last : Reply} (hl : last.isLast = true) : last ∉ front :=
  fun hm => Bool.false_ne_true ((hf last hm).symm.trans hl)

theorem conclude_front : conclude banner front none =
    ⟨0, (if banner then LineScript.banner ++ ['\n'] else []) ++ front.flatMap Reply.output,
      front.flatMap Reply.errors⟩ := by
  have hu : Reply.unfinished ∉ front := notMem_of_isLast hf rfl
  simp [conclude, hu]

theorem conclude_exit : conclude banner (front ++ [.exit]) none =
    ⟨0, (if banner then LineScript.banner ++ ['\n'] else []) ++ front.flatMap Reply.output ++
      "Bye!\n".toList, front.flatMap Reply.errors⟩ := by
  have hu : Reply.unfinished ∉ front := notMem_of_isLast hf rfl
  have hb : Reply.exit.output = "Bye!\n".toList := by decide
  have he : Reply.exit.errors = [] := rfl
  simp [conclude, hu, ← hb, he]

end

theorem conclude_unfinished (banner : Bool) (front : List Reply) :
    (conclude banner (front ++ [.unfinished]) none).code = 134 := by
  simp [conclude]

theorem runScript_utf8Encode (fuel : Nat) (script : Text) :
    runScript fuel (some script.utf8Encode) =
      conclude false (runLines fuel Session.new (scriptLines script)) none := by
  simp only [runScript, decode?_utf8Encode]

theorem runInput_utf8Encode (fuel : Nat) (banner : Bool) (trouble script : Text) :
    runInput fuel banner trouble script.utf8Encode =
      conclude banner (runLines fuel Session.new (scriptLines script)) none := by
  simp only [runInput, readableLines_utf8Encode, Bool.false_eq_true, if_false]

/-- A session over a script, whatever went on in it before. Its replies are those to the lines of
the script one after the other. The first of them that is a farewell ends it and nothing behind that
line matters; else it ends normally with the script. Returns before the feeds of the script change
neither what is written nor what becomes of the session. This is what a program does with an encoded
script. -/
theorem script_session (fuel : Nat) (s : Session) (banner : Bool) (script : Text) :
    let greeting := if banner then LineScript.banner ++ ['\n'] else []
    let given (text : Text) := runLines fuel s (scriptLines text)
    let result (text : Text) := conclude banner (given text) none
    (∃ front : List Reply, (∀ reply ∈ front, reply.isLast = false) ∧
      let output := greeting ++ front.flatMap Reply.output
      let errors := front.flatMap Reply.errors
      ((converse fuel s (feedLines script)).1 = front ∧ given script = front ∧
          result script = ⟨0, output, errors⟩ ∨
        ∃ last back, (converse fuel s (feedLines script)).1 = front ++ last :: back ∧
          given script = front ++ [last] ∧
          (last = .exit ∧ result script = ⟨0, output ++ "Bye!\n".toList, errors⟩ ∨
            last = .unfinished ∧ (result script).code = 134) ∧
          ∀ other, (feedLines other).take (front.length + 1) =
            (feedLines script).take (front.length + 1) → given other = given script)) ∧
    (∀ written, WithReturns script written →
      converse fuel s (feedLines written) = converse fuel s (feedLines script) ∧
      given written = given script ∧ result written = result script) ∧
    ∀ text : Text,
      runScript fuel (some text.utf8Encode) =
        conclude false (runLines fuel Session.new (scriptLines text)) none ∧
      ∀ trouble, runInput fuel banner trouble text.utf8Encode =
        conclude banner (runLines fuel Session.new (scriptLines text)) none := by
  intro greeting given result
  have hgiven (text : Text) : given text = runLines fuel s (feedLines text) :=
    runLines_congr (map_scriptLines text)
  refine ⟨?_, fun written hw => ?_, fun text => ⟨runScript_utf8Encode fuel text,
    fun trouble => runInput_utf8Encode fuel banner trouble text⟩⟩
  · obtain ⟨front, hf, h⟩ := exists_replies fuel s (feedLines script)
    refine ⟨front, hf, ?_⟩
    obtain ⟨ha, hg⟩ | ⟨last, back, hl, ha, hg⟩ := h
    · have hs : given script = front := (hgiven script).trans hg
      refine .inl ⟨ha, hs, ?_⟩
      rw [← conclude_front hf banner, ← hs]
    · have hs (other : Text) (ho : (feedLines other).take (front.length + 1) =
          (feedLines script).take (front.length + 1)) : given other = front ++ [last] := by
        rw [hgiven, ← List.take_append_drop (front.length + 1) (feedLines other), ho, hg]
      have he := hs script rfl
      have hr : result script = conclude banner (front ++ [last]) none := by rw [← he]
      refine .inr ⟨last, back, ha, he, ?_, fun other ho => (hs other ho).trans he.symm⟩
      cases last with
      | exit => exact .inl ⟨rfl, hr.trans (conclude_exit hf banner)⟩
      | unfinished => exact .inr ⟨rfl, hr ▸ conclude_unfinished banner front⟩
      | value text | report text => exact absurd hl Bool.false_ne_true
  · have hg : given written = given script := runLines_congr hw.map_scriptLines
    exact ⟨converse_congr hw.map_feedLines, hg, congrArg (conclude banner · none) hg⟩

theorem script_session_returns :
    let script := "missing\ninc:41\n!exit\n99".toList
    let written := "missing\r\ninc:41\r\r\n!exit\n99".toList
    let other := "missing\ninc:41\n!exit\n\"\n".toList
    let report := "Achtung! LookupError: no such object in current scope: `missing`".toList ++
      "\n\t-> \"missing\"".toList
    let result : Result := ⟨0, "42\nBye!\n".toList, report ++ ['\n']⟩
    WithReturns script written ∧ (feedLines other).take 3 = (feedLines script).take 3 ∧
      runScript 2 (some written.utf8Encode) = result ∧
      runScript 2 (some other.utf8Encode) = result := by
  intro script written other report result
  have hw : WithReturns script written := by
    have h := ((WithReturns.refl "!exit\n99".toList).feed 2).append_left "inc:41".toList
    simpa [script, written] using (h.feed 1).append_left "missing".toList
  have hl : (feedLines other).take 3 = (feedLines script).take 3 := by decide +kernel
  have hg : runLines 2 .new (scriptLines script) =
      [.report report, .value "42".toList] ++ [.exit] := by decide +kernel
  obtain ⟨⟨front, hf, h⟩, hr, hb⟩ := script_session 2 .new false script
  have hres : conclude false (runLines 2 .new (scriptLines script)) none = result := by
    rw [hg]
    decide +kernel
  refine ⟨hw, hl, ?_, ?_⟩
  · have hgw : runLines 2 .new (scriptLines written) = runLines 2 .new (scriptLines script) :=
      (hr written hw).2.1
    rw [(hb written).1, hgw, hres]
  · have hgo : runLines 2 .new (scriptLines other) = runLines 2 .new (scriptLines script) := by
      obtain ⟨-, ha, -⟩ | ⟨last, back, -, ha, -, ho⟩ := h
      · have hm : Reply.exit ∈ front := by
          rw [← ha]
          simp [hg]
        exact absurd (hf _ hm) Bool.noConfusion
      · obtain ⟨hfront, -⟩ := List.append_inj' (ha.symm.trans hg) rfl
        refine ho other ?_
        rw [hfront]
        exact hl
    rw [(hb other).1, hgo, hres]

end LineScript
