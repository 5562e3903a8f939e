import ChartParse.Proofs.Chart.Soundness
import ChartParse.Proofs.Decimal.Numeral
import ChartParse.Proofs.Decimal.Text
import ChartParse.Proofs.Grammar.Provenance
import ChartParse.Sentence.File

/-!
One line of output for each line of input.

What is written for a sentence is made of words, labels and a number. Words have no blanks in them.
The labels of a grammar that was read from files may have some, but each was part of a line and has
no line end in it (`Rule.FromFile.endless_lhs`). Numbers have none either. So what is written for a
sentence takes up one line, and the lines of the output stand beside those of the input.

Main statement: `ParsedFile.lines_ofFile`.
-/

namespace ChartParse

open Text

variable {σ : Type}

/-! ### Labels and words -/

theorem RuleFile.endless_of_mem_contentLines {text : List Char} {content : Nat × List Char}
    (member : content ∈ RuleFile.contentLines (lines text)) : Endless content.2 := by
  obtain ⟨⟨line, number⟩, numbered, held⟩ := List.mem_filterMap.1 member
  have endless : Endless line := endless_of_mem_lines (List.fst_mem_of_mem_zipIdx numbered)
  simp only at held
  split at held
  · cases held
  · cases held
    exact endless.of_subset fun c inside => mem_of_mem_cutAt (mem_of_mem_trim inside)

theorem Rule.FromFile.endless_lhs {scale : Scale σ} {probabilities : Bool} {rule : Rule σ}
    (fromFile : rule.FromFile scale probabilities) : Endless rule.lhs.toList := by
  obtain ⟨text, line, member, read⟩ := fromFile.exists_line
  obtain ⟨first, second, third, columns, -, -, -, lhs, -⟩ := RuleLine.read_eq_ok_iff.1 read
  rw [lhs, String.toList_ofList]
  -- The left-hand side is what trimming leaves of the second column.
  have column : second ∈ fields (· == '\t') line.2 := by simp [columns]
  exact (RuleFile.endless_of_mem_contentLines member).of_subset fun c inside =>
    mem_of_mem_fields column (mem_of_mem_trim inside)

theorem Parse.endless_of_mem_wordsOf {sentence : List Char} {word : String}
    (member : word ∈ Parse.wordsOf sentence) : Endless word.toList := by
  obtain ⟨letters, listed, rfl⟩ := List.mem_map.1 member
  rw [String.toList_ofList]
  intro c inside
  have visible := not_blank_of_mem_words listed c inside
  exact ⟨(ne_of_isBlank (by decide) visible).symm, (ne_of_isBlank (by decide) visible).symm⟩

/-! ### Renderings -/

theorem endless_intercalate {separator : String} (plain : Endless separator.toList)
    {texts : List String} (endless : ∀ text ∈ texts, Endless text.toList) :
    Endless (separator.intercalate texts).toList := by
  rw [String.toList_intercalate]
  induction texts with
  | nil => exact endless_nil
  | cons text rest ih =>
    obtain ⟨first, later⟩ := List.forall_mem_cons.1 endless
    cases rest with
    | nil => simpa using first
    | cons second others =>
      rw [List.map_cons, List.map_cons, List.intercalate_cons_cons, endless_append, endless_append]
      exact ⟨⟨first, plain⟩, ih later⟩

theorem Derivation.endless_bracket (hide : String → Bool) {label : String}
    (named : Endless label.toList) {inner : List String}
    (endless : ∀ part ∈ inner, Endless part.toList) :
    ∀ part ∈ bracket hide label inner, Endless part.toList := by
  unfold bracket
  split
  · exact endless
  · have joined : Endless (" ".intercalate inner).toList := endless_intercalate (by decide) endless
    refine List.forall_mem_singleton.2 ?_
    simp only [String.toList_append, endless_append]
    exact ⟨⟨⟨⟨by decide, named⟩, by decide⟩, joined⟩, by decide⟩

section Rendering

variable [Zero σ] [Add σ] {grammar : Grammar σ}
  (labels : ∀ rule ∈ grammar.rules, Endless rule.lhs.toList)
include labels

theorem Grammar.Derives.endless_parts (hide : String → Bool) {tree : Derivation σ}
    {words : List String} (derives : grammar.Derives tree words)
    (plain : ∀ word ∈ words, Endless word.toList) :
    ∀ part ∈ tree.parts hide, Endless part.toList := by
  induction derives with
  | lexical member => exact Derivation.endless_bracket hide (labels _ member) plain
  | unary member _ _ _ ih => exact Derivation.endless_bracket hide (labels _ member) (ih plain)
  | binary member _ _ _ ihLeft ihRight =>
    obtain ⟨onLeft, onRight⟩ := List.forall_mem_append.1 plain
    exact Derivation.endless_bracket hide (labels _ member)
      (List.forall_mem_append.2 ⟨ihLeft onLeft, ihRight onRight⟩)

theorem Grammar.Derives.endless_line {scale : Scale σ}
    (numbers : ∀ score, Endless (scale.write score).toList) (hide : String → Bool)
    {tree : Derivation σ} {words : List String} (derives : grammar.Derives tree words)
    (plain : ∀ word ∈ words, Endless word.toList) : Endless (tree.line scale hide).toList := by
  have rendered : Endless (tree.render hide).toList := by
    rw [Derivation.render_eq]
    exact endless_intercalate (by decide) (derives.endless_parts labels hide plain)
  simp only [Derivation.line, String.toList_append, endless_append]
  exact ⟨⟨rendered, by decide⟩, numbers _⟩

end Rendering

/-! ### Answers -/

namespace Parse

/-- What is written for a sentence by itself. -/
def answer [Zero σ] [Add σ] [LT σ] [DecidableLT σ] (scale : Scale σ) (presentation : Presentation)
    (grammar : Grammar σ) (beam : Option Int) (sentence : List Char) : String :=
  presentation.line scale (Chart.parse grammar beam (Parse.wordsOf sentence)).value

variable [Zero σ] [Add σ] [LT σ] [DecidableLT σ] {scale : Scale σ} {presentation : Presentation}
  {grammar : Grammar σ} {beam : Option Int}

theorem line_ofLine (sentence : List Char) :
    (ofLine grammar beam sentence).line scale presentation =
      answer scale presentation grammar beam sentence := by
  simp only [line, ofLine, answer, wordsOf, words_trim]

theorem answer_of_blank {sentence : List Char} (blank : ∀ c ∈ sentence, isBlank c = true) :
    answer scale presentation grammar beam sentence = Derivation.noParse := by
  have none : wordsOf sentence = [] := by rw [wordsOf, words_eq_nil blank, List.map_nil]
  rw [answer, none, Chart.value_parse, Chart.cellOf_nil]
  rfl

theorem endless_answer (labels : ∀ rule ∈ grammar.rules, Endless rule.lhs.toList)
    (numbers : ∀ score, Endless (scale.write score).toList) (sentence : List Char) :
    Endless (answer scale presentation grammar beam sentence).toList := by
  rw [answer, Chart.value_parse]
  cases parsed : (Chart.cellOf grammar beam (Parse.wordsOf sentence)).get? grammar.start with
  | none =>
    have spelt : Endless Derivation.noParse.toList := by decide
    exact spelt
  | some best =>
    have derives := Chart.derives_of_mem_cellOf (Cell.mem_entries_of_get? parsed)
    exact derives.endless_line labels numbers _ fun word => endless_of_mem_wordsOf

end Parse

namespace ParsedFile

variable [Zero σ] [Add σ] [LT σ] [DecidableLT σ] {grammar : Grammar σ} {beam : Option Int}

theorem lines_ofReading (scale : Scale σ) (presentation : Presentation) (reading : Reading) :
    (ofReading grammar beam reading).lines scale presentation =
      reading.lines.map (Parse.answer scale presentation grammar beam) := by
  rw [lines, ofReading, List.map_map]
  exact List.map_congr_left fun sentence _ => Parse.line_ofLine sentence

theorem ofFile_of_opened {files : FileReader} {path : Path} {text : List Char}
    (opened : files path = .ok (Utf8.encode text)) :
    ofFile files grammar beam path = ofReading grammar beam ⟨Text.lines text, none⟩ := by
  rw [ofFile, opened]
  exact congrArg (ofReading grammar beam) (readLines_encode text)

end ParsedFile

/-! ### Main result -/

/-- What printing some texts writes, each on a line of its own. -/
def printed (texts : List String) : List Char :=
  (texts.map String.toList).flatMap (· ++ ['\n'])

theorem ParsedFile.lines_ofFile {grammar : Grammar Float}
    (fromFiles : ∀ rule ∈ grammar.rules,
      ∃ probabilities, rule.FromFile Scale.binary64 probabilities)
    (width : Option Int) (presentation : Presentation) {files : FileReader} {path : Path}
    {text : List Char} (opened : files path = .ok (Utf8.encode text)) :
    let beam := width.bind Chart.beamOfWidth
    let parsed := ParsedFile.ofFile files grammar beam path
    let sentences := dropEmptyLast (stretches text)
    let output := parsed.lines Scale.binary64 presentation
    parsed.failure = none ∧
      output = sentences.map (Parse.answer Scale.binary64 presentation grammar beam) ∧
      (∀ sentence, (∀ c ∈ sentence, isBlank c = true) →
        Parse.answer Scale.binary64 presentation grammar beam sentence = "NULL") ∧
      (∀ line ∈ output, '\n' ∉ line.toList ∧ '\r' ∉ line.toList) ∧
      dropEmptyLast (stretches (printed output)) = output.map String.toList := by
  intro beam parsed sentences output
  have read : parsed = ParsedFile.ofReading grammar beam ⟨Text.lines text, none⟩ :=
    ParsedFile.ofFile_of_opened opened
  have answers : output = sentences.map (Parse.answer Scale.binary64 presentation grammar beam) := by
    simp only [output, read, ParsedFile.lines_ofReading, lines_eq, sentences]
  have labels : ∀ rule ∈ grammar.rules, Endless rule.lhs.toList := by
    intro rule member
    obtain ⟨probabilities, fromFile⟩ := fromFiles rule member
    exact fromFile.endless_lhs
  have endless : ∀ line ∈ output, Endless line.toList := by
    rw [answers, List.forall_mem_map]
    exact fun sentence _ => Parse.endless_answer labels Decimal.endless_text sentence
  refine ⟨by rw [read]; rfl, answers, fun sentence blank => Parse.answer_of_blank blank, ?_, ?_⟩
  · intro line member
    exact ⟨fun feed => (endless line member _ feed).1 rfl, (endless line member).notMem_return⟩
  · rw [← lines_eq]
    exact lines_flatMap_feed (List.forall_mem_map.2 endless)

/-- A label with a line separator in it, which ends no line here. -/
def separatedRules : String :=
  "-1.5\tnoun\u2028phrase\tA N\n-0.5\tA\told\n-0.25\tN\tman\n"

/-- Line ends of all kinds, blank lines, and no end to the last line. -/
def mixedSentences : String :=
  "old man\r\n  \r\nman\n\rold\t man "

theorem ParsedFile.lines_ofFile_mixed :
    let files : FileReader := fun path => .ok (Utf8.encode
      (if path.components = ["old.gr"] then separatedRules else mixedSentences).toList)
    ∃ grammar, (Grammar.empty "noun\u2028phrase").load Scale.binary64 false files
        (.file ⟨"", ["old.gr"]⟩) = .ok grammar ∧
      let output := (ParsedFile.ofFile files grammar none ⟨"", ["old.sen"]⟩).lines Scale.binary64 {}
      output = ["(noun\u2028phrase (A old) (N man)) -2.25", "NULL", "NULL", "NULL",
        "(noun\u2028phrase (A old) (N man)) -2.25"] ∧
      dropEmptyLast (stretches (printed output)) = output.map String.toList := by
  intro files
  let initial : Grammar Float := .empty "noun\u2028phrase"
  have answered :
      (initial.load Scale.binary64 false files (.file ⟨"", ["old.gr"]⟩)).map
        (fun grammar => (ParsedFile.ofFile files grammar none ⟨"", ["old.sen"]⟩).lines
          Scale.binary64 {}) =
      .ok ["(noun\u2028phrase (A old) (N man)) -2.25", "NULL", "NULL", "NULL",
        "(noun\u2028phrase (A old) (N man)) -2.25"] := by decide +kernel
  cases loaded : initial.load Scale.binary64 false files (.file ⟨"", ["old.gr"]⟩) with
  | error error =>
    rw [loaded] at answered
    cases answered
  | ok grammar =>
    rw [loaded] at answered
    have fromFiles := (Grammar.fromFiles_empty _).load loaded
    have opened : files ⟨"", ["old.sen"]⟩ = .ok (Utf8.encode mixedSentences.toList) := rfl
    obtain ⟨-, -, -, -, apart⟩ := ParsedFile.lines_ofFile
      (fun rule member => ⟨false, fromFiles rule member⟩) none {} opened
    exact ⟨grammar, rfl, Except.ok.inj answered, apart⟩

end ChartParse
