import ChartParse.Proofs.Decimal.Numeral
import ChartParse.Proofs.Grammar.Provenance
import ChartParse.Proofs.Text.Lines

/-!
Files of rules as they may be laid out.

`RuleFile.Layout` says of a text that it sets out some rules: one on a line, in three columns, with
any blanks around the columns and between the symbols, and with blank lines, comments and line ends
of any kind. However the rules are laid out, what is read is these rules, in their order
(`load_of_layout`).

The pieces of a line come off in the opposite order to that in which they are put on: the line end,
the comment, the blanks at both ends, the two tabs, and the blanks in the columns. What is to come
off must not stand in what is to stay.
-/

namespace ChartParse

open Text

/-! ### Layouts -/

namespace RuleFile

/-- What may stand in a column: anything but tabs, line ends and the mark of a comment. -/
def Plain (text : List Char) : Prop :=
  ∀ c ∈ text, c ≠ '\t' ∧ c ≠ '\n' ∧ c ≠ '\r' ∧ c ≠ '#'

/-- A symbol that is found again among blanks. -/
def Legible (symbol : String) : Prop :=
  symbol ≠ "" ∧ ∀ c ∈ symbol.toList, isBlank c = false ∧ c ≠ '#'

/-- A rule that can stand on a line. There may be blanks inside its left-hand side. -/
structure Writable {σ : Type} (rule : Rule σ) : Prop where
  named : rule.lhs ≠ ""
  first : ∀ c ∈ rule.lhs.toList.head?, isBlank c = false
  last : ∀ c ∈ rule.lhs.toList.getLast?, isBlank c = false
  plain : Plain rule.lhs.toList
  few : rule.rhs.length = 1 ∨ rule.rhs.length = 2
  symbols : ∀ symbol ∈ rule.rhs, Legible symbol

/-- Blanks, tabs among them, that end no line. -/
def Margin (text : List Char) : Prop :=
  ∀ c ∈ text, isBlank c = true ∧ c ≠ '\n' ∧ c ≠ '\r'

/-- Blanks that end neither a line nor a column. -/
def Padding (text : List Char) : Prop :=
  ∀ c ∈ text, isBlank c = true ∧ c ≠ '\t' ∧ c ≠ '\n' ∧ c ≠ '\r'

-- The characters of a text are looked at, not all that there are.
instance (text : List Char) : Decidable (Plain text) :=
  List.decidableBAll _ text

instance (symbol : String) : Decidable (Legible symbol) :=
  @instDecidableAnd _ _ inferInstance (List.decidableBAll _ symbol.toList)

instance (text : List Char) : Decidable (Margin text) :=
  List.decidableBAll _ text

instance (text : List Char) : Decidable (Padding text) :=
  List.decidableBAll _ text

instance {σ : Type} (rule : Rule σ) : Decidable (Writable rule) :=
  letI : ∀ c? : Option Char, Decidable (∀ c ∈ c?, isBlank c = false) :=
    Option.decidableForallMem
  decidable_of_iff
    (rule.lhs ≠ "" ∧ (∀ c ∈ rule.lhs.toList.head?, isBlank c = false) ∧
      (∀ c ∈ rule.lhs.toList.getLast?, isBlank c = false) ∧ Plain rule.lhs.toList ∧
      (rule.rhs.length = 1 ∨ rule.rhs.length = 2) ∧ ∀ symbol ∈ rule.rhs, Legible symbol)
    ⟨fun ⟨named, first, last, plain, few, symbols⟩ => ⟨named, first, last, plain, few, symbols⟩,
      fun ⟨named, first, last, plain, few, symbols⟩ => ⟨named, first, last, plain, few, symbols⟩⟩

/-- Symbols set apart by blanks. -/
inductive Spaced : List String → List Char → Prop
  | last (symbol : String) : Spaced [symbol] symbol.toList
  | more {symbol : String} {others : List String} {gap text : List Char} (apart : gap ≠ [])
      (padding : Padding gap) (rest : Spaced others text) :
      Spaced (symbol :: others) (symbol.toList ++ (gap ++ text))

/-- The comment at the end of a line, if there is one. -/
inductive Comment : List Char → Prop
  | none : Comment []
  | mark {text : List Char} (endless : Endless text) : Comment ('#' :: text)

/-- A weight, a left-hand side and the symbols, with tabs between them. -/
inductive Columns : Rule Float → List Char → Prop
  | intro {rule : Rule Float} {weight before after lead symbols : List Char}
      (writable : Writable rule) (weighs : Decimal.ofText? weight = some rule.weight)
      (plain : Plain weight)
      (paddedLeft : Padding before) (paddedRight : Padding after) (led : Padding lead)
      (spaced : Spaced rule.rhs symbols) :
      Columns rule
        (weight ++ '\t' :: ((before ++ rule.lhs.toList ++ after) ++ '\t' :: (lead ++ symbols)))

/-- A line and the rules on it: none or one. -/
inductive Line : List Char → List (Rule Float) → Prop
  | bare {margin comment : List Char} (blank : Margin margin) (ends : Comment comment) :
      Line (margin ++ comment) []
  | rule {before columns after comment : List Char} {rule : Rule Float} (left : Margin before)
      (holds : Columns rule columns) (right : Margin after) (ends : Comment comment) :
      Line (before ++ columns ++ after ++ comment) [rule]

inductive LineEnd : List Char → Prop
  | feed : LineEnd ['\n']
  | carriage : LineEnd ['\r']
  | both : LineEnd ['\r', '\n']

/-- A text that sets out some rules, with or without an end to its last line. -/
inductive Layout : List Char → List (Rule Float) → Prop
  | last {line : List Char} {rules : List (Rule Float)} (holds : Line line rules) :
      Layout line rules
  | line {line ending text : List Char} {rules others : List (Rule Float)} (holds : Line line rules)
      (ends : LineEnd ending) (rest : Layout text others) :
      Layout (line ++ (ending ++ text)) (rules ++ others)

/-! ### Characters that do not stand in a line -/

theorem Plain.append {first second : List Char} (plain : Plain first) (later : Plain second) :
    Plain (first ++ second) :=
  List.forall_mem_append.2 ⟨plain, later⟩

theorem ne_mark_of_isBlank {c : Char} (blank : isBlank c = true) : c ≠ '#' :=
  ne_of_isBlank blank (by decide)

theorem Padding.plain {text : List Char} (padding : Padding text) : Plain text := by
  intro c member
  obtain ⟨blank, tab, feed, carriage⟩ := padding c member
  exact ⟨tab, feed, carriage, ne_mark_of_isBlank blank⟩

theorem Padding.blank {text : List Char} (padding : Padding text) :
    ∀ c ∈ text, isBlank c = true :=
  fun c member => (padding c member).1

theorem Plain.no_tab {text : List Char} (plain : Plain text) : ∀ c ∈ text, (c == '\t') = false := by
  intro c member
  rw [beq_eq_false_iff_ne]
  exact (plain c member).1

section Symbols

variable {symbols : List String} {text : List Char}
  (legible : ∀ symbol ∈ symbols, Legible symbol)
include legible

theorem plain_symbol {symbol : String} (member : symbol ∈ symbols) : Plain symbol.toList := by
  intro c inside
  obtain ⟨visible, mark⟩ := (legible symbol member).2 c inside
  have apart {d : Char} (blank : isBlank d = true) : c ≠ d := (ne_of_isBlank blank visible).symm
  exact ⟨apart (by decide), apart (by decide), apart (by decide), mark⟩

theorem Spaced.plain (spaced : Spaced symbols text) : Plain text := by
  induction spaced with
  | last symbol => exact plain_symbol legible List.mem_cons_self
  | more apart padding rest ih =>
    obtain ⟨-, later⟩ := List.forall_mem_cons.1 legible
    exact (plain_symbol legible List.mem_cons_self).append (padding.plain.append (ih later))

theorem Spaced.words_eq (spaced : Spaced symbols text) :
    words text = symbols.map String.toList := by
  have word {symbol : String} (member : symbol ∈ symbols) : words symbol.toList = [symbol.toList] :=
    words_eq_singleton (by simpa using (legible symbol member).1)
      fun c inside => ((legible symbol member).2 c inside).1
  induction spaced with
  | last symbol => exact word List.mem_cons_self
  | @more symbol others gap text apart padding rest ih =>
    obtain ⟨-, later⟩ := List.forall_mem_cons.1 legible
    have others := ih later fun member => word (List.mem_cons_of_mem _ member)
    obtain ⟨blank, gap, rfl⟩ := List.exists_cons_of_ne_nil apart
    obtain ⟨first, blanks⟩ := List.forall_mem_cons.1 padding.blank
    rw [List.cons_append, words_append_blank first, word List.mem_cons_self,
      words_of_blank_append blanks, others]
    rfl

theorem Spaced.exists_last (spaced : Spaced symbols text) :
    ∃ c, text.getLast? = some c ∧ isBlank c = false := by
  induction spaced with
  | last symbol =>
    obtain ⟨named, visible⟩ := legible symbol List.mem_cons_self
    have nonempty : symbol.toList ≠ [] := by simpa using named
    exact ⟨_, List.getLast?_eq_some_getLast nonempty, (visible _ (List.getLast_mem nonempty)).1⟩
  | more apart padding rest ih =>
    obtain ⟨-, later⟩ := List.forall_mem_cons.1 legible
    obtain ⟨c, last, visible⟩ := ih later
    exact ⟨c, by simp [List.getLast?_append, last], visible⟩

end Symbols

/-! ### Columns -/

/-- In the columns of a line stand neither line ends nor marks of comments. -/
theorem Columns.clean {rule : Rule Float} {columns : List Char} (holds : Columns rule columns) :
    ∀ c ∈ columns, c ≠ '\n' ∧ c ≠ '\r' ∧ c ≠ '#' := by
  obtain ⟨writable, -, weight, left, right, led, spaced⟩ := holds
  have kept {text : List Char} (plain : Plain text) : ∀ c ∈ text, c ≠ '\n' ∧ c ≠ '\r' ∧ c ≠ '#' :=
    fun c member => (plain c member).2
  have middle := (left.plain.append writable.plain).append right.plain
  have symbols := led.plain.append (spaced.plain writable.symbols)
  refine List.forall_mem_append.2 ⟨kept weight, List.forall_mem_cons.2 ⟨by decide, ?_⟩⟩
  exact List.forall_mem_append.2 ⟨kept middle, List.forall_mem_cons.2 ⟨by decide, kept symbols⟩⟩

theorem Columns.endless {rule : Rule Float} {columns : List Char} (holds : Columns rule columns) :
    Endless columns :=
  fun c member => ⟨(holds.clean c member).1, (holds.clean c member).2.1⟩

theorem Columns.notMem {rule : Rule Float} {columns : List Char} (holds : Columns rule columns) :
    '#' ∉ columns :=
  fun member => (holds.clean _ member).2.2 rfl

/-- Without the blanks at its ends what stands in the columns is read as the rule. -/
theorem Columns.read {rule : Rule Float} {columns : List Char} (holds : Columns rule columns) :
    trim columns ≠ [] ∧ RuleLine.read Scale.binary64 false (trim columns) = .ok rule := by
  obtain ⟨writable, weighs, plain, left, right, led, spaced⟩ := holds
  rename_i weight before after lead symbols
  obtain ⟨nonempty, read⟩ := Decimal.ofText?_dropWhile weighs
  have middle := (left.plain.append writable.plain).append right.plain
  have final := led.plain.append (spaced.plain writable.symbols)
  have name : trim (before ++ rule.lhs.toList ++ after) = rule.lhs.toList :=
    (trim_append left.blank right.blank).trans (trim_eq_self writable.first writable.last)
  have expansion : words (lead ++ symbols) = rule.rhs.map String.toList := by
    rw [words_of_blank_append led.blank, spaced.words_eq writable.symbols]
  have trimmed : trim (weight ++ '\t' :: (before ++ rule.lhs.toList ++ after ++
      '\t' :: (lead ++ symbols))) = weight.dropWhile isBlank ++
        '\t' :: (before ++ rule.lhs.toList ++ after ++ '\t' :: (lead ++ symbols)) := by
    obtain ⟨c, last, visible⟩ := spaced.exists_last writable.symbols
    refine trim_append_of_visible nonempty ⟨c, ?_, visible⟩
    simp [List.getLast?_append, List.getLast?_cons, last]
  rw [trimmed]
  refine ⟨by simp, RuleLine.read_eq_ok_iff.2 ⟨weight.dropWhile isBlank,
    before ++ rule.lhs.toList ++ after, lead ++ symbols, ?_, ?_, ?_, ?_, ?_, ?_⟩⟩
  · have digits : Plain (weight.dropWhile isBlank) :=
      fun c member => plain c ((List.dropWhile_suffix _).subset member)
    rw [fields_append_cons _ digits.no_tab rfl, fields_append_cons _ middle.no_tab rfl,
      fields_eq_singleton _ final.no_tab]
  · exact RuleLine.readWeight_eq_ok_iff.2 read
  · rw [name]
    simpa using writable.named
  · rw [expansion, List.length_map]
    exact writable.few
  · rw [name, String.ofList_toList]
  · simp [expansion, Function.comp_def]

/-! ### Contents of lines -/

/-- What a line holds besides blanks and a comment, if it holds anything. -/
def content? (line : List Char) : Option (List Char) :=
  let content := trim (cutAt '#' line)
  if content.isEmpty then none else some content

/-- The contents of lines with their numbers, the first of all the lines having the number given. -/
def numbered (number : Nat) (lines : List (List Char)) : List (Nat × List Char) :=
  (lines.zipIdx number).filterMap fun (line, number) => (content? line).map (number, ·)

theorem contentLines_eq_numbered (lines : List (List Char)) :
    contentLines lines = numbered 1 lines := by
  apply List.filterMap_congr
  rintro ⟨line, number⟩ -
  simp only [content?]
  split <;> rfl

theorem map_snd_numbered (number : Nat) (lines : List (List Char)) :
    (numbered number lines).map Prod.snd = lines.filterMap content? := by
  have unnumbered : lines = (lines.zipIdx number).map Prod.fst := by simp
  rw [unnumbered, List.filterMap_map, numbered, List.map_filterMap, ← unnumbered]
  apply List.filterMap_congr
  rintro ⟨line, place⟩ -
  simp [Function.comp_def]

theorem map_snd_contentLines (lines : List (List Char)) :
    (contentLines lines).map Prod.snd = lines.filterMap content? := by
  rw [contentLines_eq_numbered, map_snd_numbered]

/-- Wherever lines end, the contents are those of the stretches between the line ends. -/
theorem map_snd_contentLines_lines (text : List Char) :
    (contentLines (lines text)).map Prod.snd = (stretches text).filterMap content? := by
  rw [map_snd_contentLines, filterMap_lines rfl]

theorem filterMap_stretches_line {line ending : List Char} (endless : Endless line)
    (ends : LineEnd ending) (rest : List Char) :
    (stretches (line ++ (ending ++ rest))).filterMap content? =
      (content? line).toList ++ (stretches rest).filterMap content? := by
  have counted (pieces : List (List Char)) : (line :: pieces).filterMap content? =
      (content? line).toList ++ pieces.filterMap content? := by
    rw [List.filterMap_cons]
    cases content? line <;> rfl
  cases ends with
  | feed => rw [List.singleton_append, stretches_feed endless, counted]
  | both =>
    rw [List.cons_append, List.singleton_append, stretches_return_feed endless, counted]
  | carriage =>
    rw [List.singleton_append]
    by_cases joined : rest.head? = some '\n'
    · -- The two line ends are one, and an empty line between them would hold nothing.
      obtain ⟨more, rfl⟩ := List.head?_eq_some_iff.1 joined
      have next : stretches ('\n' :: more) = [] :: stretches more :=
        stretches_feed endless_nil more
      rw [stretches_return_feed endless, counted, next]
      rfl
    · rw [stretches_return endless joined, counted]

theorem Margin.blank {text : List Char} (margin : Margin text) : ∀ c ∈ text, isBlank c = true :=
  fun c member => (margin c member).1

theorem Margin.notMem {text : List Char} (margin : Margin text) : '#' ∉ text :=
  fun member => ne_mark_of_isBlank (margin.blank _ member) rfl

theorem Margin.endless {text : List Char} (margin : Margin text) : Endless text :=
  fun c member => (margin c member).2

theorem Comment.endless {text : List Char} (comment : Comment text) : Endless text := by
  cases comment with
  | none => exact endless_nil
  | mark endless => exact endless_cons.2 ⟨by decide, endless⟩

theorem Comment.cutAt_append {text comment : List Char} (free : '#' ∉ text)
    (holds : Comment comment) : cutAt '#' (text ++ comment) = text := by
  cases holds with
  | none => rw [List.append_nil, cutAt_eq_self free]
  | mark => exact Text.cutAt_append free _

theorem Line.endless {line : List Char} {rules : List (Rule Float)} (holds : Line line rules) :
    Endless line := by
  cases holds with
  | bare blank ends => exact endless_append.2 ⟨blank.endless, ends.endless⟩
  | rule left holds right ends =>
    simp only [endless_append]
    exact ⟨⟨⟨left.endless, holds.endless⟩, right.endless⟩, ends.endless⟩

/-- What a line holds is read as the rule on it. -/
theorem Line.reads {line : List Char} {rules : List (Rule Float)} (holds : Line line rules) :
    List.Forall₂ (fun content rule => RuleLine.read Scale.binary64 false content = .ok rule)
      (content? line).toList rules := by
  cases holds with
  | bare blank ends =>
    rw [content?, ends.cutAt_append blank.notMem, trim_eq_nil blank.blank]
    exact .nil
  | @rule before columns after comment rule left holds right ends =>
    obtain ⟨nonempty, read⟩ := holds.read
    have free : '#' ∉ before ++ columns ++ after := by
      simp only [List.mem_append, not_or]
      exact ⟨⟨left.notMem, holds.notMem⟩, right.notMem⟩
    have content : content? (before ++ columns ++ after ++ comment) = some (trim columns) := by
      rw [content?, ends.cutAt_append free, trim_append left.blank right.blank]
      simp [nonempty]
    rw [content]
    exact .cons read .nil

/-! ### Main result -/

theorem Layout.reads {text : List Char} {rules : List (Rule Float)} (layout : Layout text rules) :
    List.Forall₂ (fun content rule => RuleLine.read Scale.binary64 false content = .ok rule)
      ((stretches text).filterMap content?) rules := by
  induction layout with
  | last holds =>
    have reads := holds.reads
    rw [stretches_eq_singleton holds.endless, List.filterMap_cons]
    cases held : content? _ <;> rw [held] at reads <;> exact reads
  | line holds ends rest ih =>
    rw [filterMap_stretches_line holds.endless ends]
    exact List.rel_append holds.reads ih

theorem rules_of_layout {text : List Char} {rules : List (Rule Float)} (layout : Layout text rules)
    (path : Path) :
    RuleFile.rules Scale.binary64 false path (Utf8.encode text) = .ok rules := by
  rw [rules_eq_ok_iff, readLines_encode]
  refine ⟨?_, rfl⟩
  have reads := layout.reads
  rw [← map_snd_contentLines_lines] at reads
  exact List.forall₂_map_left_iff.1 reads

end RuleFile

/-- A file that sets out some rules, in whatever layout, is loaded, and what it adds to the grammar
is these rules, in their order. -/
theorem Grammar.load_of_layout (grammar : Grammar Float) {text : List Char}
    {rules : List (Rule Float)} (layout : RuleFile.Layout text rules) {files : FileReader}
    {path : Path} (opened : files path = .ok (Utf8.encode text)) :
    ∃ loaded, grammar.load Scale.binary64 false files (.file path) = .ok loaded ∧
      loaded.start = grammar.start ∧ loaded.rules = grammar.rules ++ rules := by
  have read := RuleFile.rules_of_layout layout path
  have arity := RuleFile.hasArity_of_rules read
  let loading : Loading Float := ⟨files, .file path⟩
  have loads : grammar.load Scale.binary64 false loading.files loading.batch =
      .ok (grammar.extend rules arity) :=
    load_eq_ok_iff.2 ⟨rules, (Loading.rules?_of_opened opened).trans read,
      addRules_eq_ok_iff.2 ⟨arity, rfl, rfl⟩⟩
  exact ⟨_, loads, rfl, rfl⟩

/-- Line ends of all kinds, blanks of several, and no end to the last line. -/
def mixedLayout : String :=
  " # Sentences\r\n0\t noun phrase\u00a0\ta\u3000b  # two words\r\n\r\t-1.0\tS\t noun"

theorem Grammar.load_of_layout_mixed :
    let files : FileReader := fun _ => .ok (Utf8.encode mixedLayout.toList)
    ∃ loaded,
      (Grammar.empty "S").load Scale.binary64 false files (.file ⟨"", ["s.gr"]⟩) = .ok loaded ∧
      loaded.rules = [⟨"noun phrase", ["a", "b"], 0⟩, ⟨"S", ["noun"], -1⟩] := by
  intro files
  have opened : files ⟨"", ["s.gr"]⟩ = .ok (Utf8.encode mixedLayout.toList) := rfl
  have nothing : Decimal.ofText? "0".toList = some 0 := by decide +kernel
  have loss : Decimal.ofText? "-1.0".toList = some (-1) := by decide +kernel
  have plain : RuleFile.Margin [] := by decide
  have phrase : RuleFile.Writable (⟨"noun phrase", ["a", "b"], 0⟩ : Rule Float) := by
    decide +kernel
  have sentence : RuleFile.Writable (⟨"S", ["noun"], -1⟩ : Rule Float) := by decide +kernel
  have phraseColumns : RuleFile.Columns ⟨"noun phrase", ["a", "b"], 0⟩
      ("0".toList ++ '\t' :: (([' '] ++ "noun phrase".toList ++ ['\u00a0']) ++
        '\t' :: ([] ++ ("a".toList ++ (['\u3000'] ++ "b".toList))))) :=
    .intro phrase nothing (by decide +kernel) (by decide) (by decide) (by decide)
      (.more (by decide) (by decide) (.last "b"))
  have sentenceColumns : RuleFile.Columns ⟨"S", ["noun"], -1⟩
      ("-1.0".toList ++ '\t' :: (([] ++ "S".toList ++ []) ++
        '\t' :: ([' '] ++ "noun".toList))) :=
    .intro sentence loss (by decide +kernel) (by decide) (by decide) (by decide) (.last "noun")
  have first : RuleFile.Line ([' '] ++ '#' :: " Sentences".toList) [] :=
    .bare (by decide) (.mark (by decide +kernel))
  have words : Endless " two words".toList := by decide +kernel
  have spaces : RuleFile.Margin [' ', ' '] := by decide
  have tab : RuleFile.Margin ['\t'] := by decide
  have second := RuleFile.Line.rule plain phraseColumns spaces (.mark words)
  have third := RuleFile.Line.bare plain .none
  have fourth := RuleFile.Line.rule tab sentenceColumns plain .none
  have parts : RuleFile.Layout _ [⟨"noun phrase", ["a", "b"], 0⟩, ⟨"S", ["noun"], -1⟩] :=
    .line first .both (.line second .both (.line third .carriage (.last fourth)))
  have layout : RuleFile.Layout mixedLayout.toList
      [⟨"noun phrase", ["a", "b"], 0⟩, ⟨"S", ["noun"], -1⟩] :=
    Eq.subst (motive := fun text => RuleFile.Layout text _) (by decide +kernel) parts
  obtain ⟨loaded, done, -, rules⟩ := (empty "S").load_of_layout layout opened
  exact ⟨loaded, done, rules⟩

end ChartParse
