import LineScript.Proofs.Evaluation.Lifting
import LineScript.Proofs.Text.Scan

namespace LineScript

open Text

/-- The failure comes first in the evaluation of the text, behind the literals. -/
theorem evaluate_of_odd {text : Text} (h : unescapedQuotes text % 2 = 1) (fuel depth : Nat)
    (s : Session) : ∃ t, evaluate (fuel + 1) text depth s = .failure (.fault .unbalancedQuotes) t ∧
      t.literals = s.literals + (unescapedQuotes text - 1) / 2 := by
  have hl : s.lifted? text = none := by
    rw [Session.lifted?_eq, closed_eq, h]
    rfl
  refine ⟨_, evaluate_of_lifted?_eq_none hl fuel depth, ?_⟩
  rw [Session.withLiterals_literals, List.length_map, length_quoted]
  change s.literals + _ = _
  omega

/-- Lifting the literals out of a text fails if and only if the number of its unescaped quotes is
odd. By then every pair of them has had its literal bound, as it has if lifting does not fail, and
an evaluation of the text fails with a syntax error. One pass over the characters does the same, and
need not be made if there are no quotes at all. If the names have neither quotes nor backslashes,
nothing is bound when literals are lifted out of what is left, and it stays as it is. -/
theorem extractLiterals_fails_iff_odd {σ : Type} (bind : Text → StateM σ Text) (text : Text)
    (s : σ) :
    let quotes := unescapedQuotes text
    ∃ result t calls, extractLiterals bind text s = (result, t) ∧
      extractLiterals (recording bind) text (s, []) = (result, (t, calls)) ∧
      (result = none ↔ quotes % 2 = 1) ∧
      calls.length = (if quotes % 2 = 1 then (quotes - 1) / 2 else quotes / 2) ∧
      (quotes % 2 = 1 → ∀ fuel depth session, ∃ later,
        evaluate (fuel + 1) text depth session = .failure (.fault .unbalancedQuotes) later ∧
          later.literals = session.literals + (quotes - 1) / 2) ∧
      Fault.category .unbalancedQuotes = .syntaxError ∧
      scanText bind [] text s = (result, t) ∧
      ('"' ∉ text → scanText bind [] text s = (some text, s)) ∧
      ((∀ call ∈ calls, ∀ c ∈ call.2, c ≠ '\\' ∧ c ≠ '"') → ∀ output, result = some output →
        ∀ {τ : Type} (again : Text → StateM τ Text) (u : τ),
          extractLiterals (recording again) output (u, []) = (some output, (u, []))) := by
  intro quotes
  have hcontents : (literals text).contents.length = quotes / 2 := by
    rw [Literals.contents, List.length_map, length_quoted]
  refine ⟨(extractLiterals bind text s).1, (extractLiterals bind text s).2, _, rfl,
    extractLiterals_recording bind text s, extractLiterals_eq_none_iff bind, ?_,
    fun h => evaluate_of_odd h, rfl, ?_, fun h => ?_, fun h output ho τ again u => ?_⟩
  · rw [List.length_zip, length_mapM_run, Nat.min_self, hcontents]
    split <;> omega
  · exact (congrFun (extractLiterals_eq_scanText bind text) s).symm
  · rw [← extractLiterals_eq_scanText, extractLiterals_eq_pure bind (quoteFree_of_notMem h)]
    rfl
  · have hnames : ∀ name ∈ ((literals text).contents.mapM bind s).1, ∀ c ∈ name,
        c ≠ '\\' ∧ c ≠ '"' := by
      intro name hm
      rw [← map_snd_calls] at hm
      obtain ⟨call, hc, rfl⟩ := List.mem_map.mp hm
      exact h call hc
    have hfree : QuoteFree output := by
      rw [extractLiterals_run] at ho
      split at ho
      · rw [← Option.some.inj ho]
        exact quoteFree_interleave text hnames
      · cases ho
    rw [extractLiterals_eq_pure _ hfree]
    rfl

theorem extractLiterals_fails_iff_odd_texts :
    let odd := ['"', 'a', '"', '\\', '"', '"', 'b', '\\', '"']
    let bare := ['a', '\\']
    let even := ['\\', '\\', '"', 'a', '"', '"', '"', '\\']
    unescapedQuotes odd % 2 = 1 ∧
      (∃ later, evaluate (0 + 1) odd 0 Session.new = .failure (.fault .unbalancedQuotes) later ∧
        later.literals = 1) ∧
      '"' ∉ bare ∧ scanText keepLiteral [] bare [] = (some bare, []) ∧
      extractLiterals (recording keepLiteral) even ([], []) =
        (some ['\\', '\\', 'x', 'x', '\\'], ([['a'], []], [(['a'], ['x']), ([], ['x'])])) ∧
      extractLiterals (recording keepLiteral) ['\\', '\\', 'x', 'x', '\\'] ([], []) =
        (some ['\\', '\\', 'x', 'x', '\\'], ([], [])) := by
  intro odd bare even
  have heven : extractLiterals (recording keepLiteral) even ([], []) =
      (some ['\\', '\\', 'x', 'x', '\\'], ([['a'], []], [(['a'], ['x']), ([], ['x'])])) := rfl
  obtain ⟨-, -, -, -, -, -, -, hodd, -⟩ := extractLiterals_fails_iff_odd keepLiteral odd []
  obtain ⟨-, -, -, -, -, -, -, -, -, -, hbare, -⟩ :=
    extractLiterals_fails_iff_odd keepLiteral bare []
  obtain ⟨result, t, calls, -, hr, -, -, -, -, -, -, hagain⟩ :=
    extractLiterals_fails_iff_odd keepLiteral even []
  cases heven.symm.trans hr
  obtain ⟨later, hf, hl⟩ := hodd (by decide) 0 0 Session.new
  exact ⟨by decide, ⟨later, hf, hl.trans (by decide)⟩, by decide, hbare (by decide), heven,
    hagain (by simp) _ rfl keepLiteral []⟩

end LineScript
