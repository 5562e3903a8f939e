import ChartParse.Proofs.Chart.Recognition
import ChartParse.Proofs.Derivation.Language

/-!
The language that is parsed, among all that the rules of a grammar generate by rewriting.

A sentence is parsed exactly if it is generated without the rules that put a word beside another
symbol. Such rules are taken into a grammar like all others, as binary ones, but the cells that
binary rules look at hold labels of derivations, and no word is one. Where there are none, the
language of the grammar is parsed (`parses_iff_mem_language`); where there are some, it need not be
(`not_parsed_wordPair`).
-/

namespace ChartParse.Chart

variable {σ : Type} [Zero σ] [Add σ] [LT σ] [DecidableLT σ]

theorem isSome_parse_iff (grammar : Grammar σ) (words : List String) :
    (parse grammar none words).value.isSome = true ↔ words ∈ grammar.applied.language := by
  rw [value_parse, Option.isSome_iff_ne_none, Ne, get?_cellOf_eq_none_iff, not_not,
    grammar.mem_language_iff_derives]

/-- Of the sentences that a list of rules generates, those are parsed without a beam that it
generates without the rules that do not apply. That is all of them if every symbol of the rules with
two symbols on the right is a nonterminal. -/
theorem parses_iff_mem_language {start : String} {rules : List (Rule σ)} {grammar : Grammar σ}
    (accepted : (Grammar.empty start).addRules rules = .ok grammar) (words : List String)
    {width : Option Int} (unpruned : width = none ∨ width = some 0) :
    ((parse grammar (width.bind beamOfWidth) words).value.isSome = true ↔
      words ∈ (contextFree start rules (rules.filter (Rule.applies rules))).language) ∧
    ((parse grammar (width.bind beamOfWidth) words).value.isSome = true →
      words ∈ (contextFree start rules rules).language) ∧
    ((∀ rule ∈ rules, rule.applies rules = true) →
      ((parse grammar (width.bind beamOfWidth) words).value.isSome = true ↔
        words ∈ (contextFree start rules rules).language)) := by
  obtain ⟨rfl, same⟩ : start = grammar.start ∧ rules = grammar.rules := by
    obtain ⟨start, rules⟩ := Grammar.rules_of_addRules accepted
    exact ⟨start.symm, rules.symm⟩
  subst same
  rw [beamOfWidth_unpruned unpruned]
  have parsed := isSome_parse_iff grammar words
  refine ⟨parsed, fun isSome => ?_, fun applies => ?_⟩
  · exact derives_mono (List.filter_subset_self _) (parsed.1 isSome)
  · have all : grammar.rules.filter (Rule.applies grammar.rules) = grammar.rules :=
      List.filter_eq_self.2 applies
    rw [parsed, Grammar.applied, all]

theorem parses_iff_mem_language_crowded :
    let rules := crowded.rules
    ∃ grammar, (Grammar.empty "S").addRules rules = .ok grammar ∧
      ((some 0 : Option Int) = none ∨ (some 0 : Option Int) = some 0) ∧
      (∀ rule ∈ rules, rule.applies rules = true) ∧
      ["a", "b"] ∈ (contextFree "S" rules rules).language ∧
      ["b", "a"] ∉ (contextFree "S" rules rules).language := by
  intro rules
  have accepted : (Grammar.empty "S").addRules rules = .ok crowded := by rfl
  have applies : ∀ rule ∈ rules, rule.applies rules = true := by decide
  refine ⟨crowded, accepted, Or.inr rfl, applies, ?_, ?_⟩
  · refine ((parses_iff_mem_language accepted ["a", "b"] (Or.inr rfl)).2.2 applies).1 ?_
    decide +kernel
  · rw [← (parses_iff_mem_language accepted ["b", "a"] (Or.inr rfl)).2.2 applies]
    decide +kernel

/-- A word beside a word. -/
def wordPair : List (Rule Int) :=
  [⟨"S", ["a", "b"], 0⟩]

/-- The rule generates its two words, but it makes no parse of them. -/
theorem not_parsed_wordPair :
    ∃ grammar, (Grammar.empty "S").addRules wordPair = .ok grammar ∧
      ["a", "b"] ∈ (contextFree "S" wordPair wordPair).language ∧
      (parse grammar none ["a", "b"]).value = none := by
  refine ⟨⟨"S", wordPair, by decide, Index.ofRules wordPair, rfl⟩, rfl, ?_, by decide +kernel⟩
  have output : (Rule.contextFree wordPair ⟨"S", ["a", "b"], 0⟩).Rewrites [.nonterminal "S"]
      [.terminal "a", .terminal "b"] := ContextFreeRule.Rewrites.input_output
  exact (produces_iff.2 ⟨_, List.mem_singleton_self _, output⟩).single

end ChartParse.Chart
