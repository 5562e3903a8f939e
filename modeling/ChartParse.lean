import ChartParse.Text.Fields
import ChartParse.Text.Lines
import ChartParse.Rule
import ChartParse.Derivation.Helper
import ChartParse.CommandLine.BeamWidth
import ChartParse.Grammar.Basic
import ChartParse.Work.Tally
import ChartParse.Cell.Closure
import ChartParse.Chart.Basic
import ChartParse.Grammar.RuleFile
import ChartParse.Sentence.File
import ChartParse.CommandLine.Parser
import ChartParse.CommandLine.Usage
import ChartParse.Cell.Insertion
import ChartParse.Chart.Span
import ChartParse.Main
import ChartParse.Proofs.Cell.Closing
import ChartParse.Proofs.Cell.Covering
import ChartParse.Proofs.Cell.Insertion
import ChartParse.Proofs.Cell.Termination
import ChartParse.Proofs.Cell.BestPaths
import ChartParse.Proofs.Chart.Constituents
import ChartParse.Proofs.Chart.Soundness
import ChartParse.Proofs.Chart.Completeness
import ChartParse.Proofs.Chart.Recognition
import ChartParse.Proofs.Chart.Optimality
import ChartParse.Proofs.Chart.UnaryCycles
import ChartParse.Proofs.Chart.FillOrder
import ChartParse.Proofs.Chart.Language
import ChartParse.Proofs.Cell.Guard
import ChartParse.Proofs.Chart.Record
import ChartParse.Proofs.Chart.Refusals
import ChartParse.Proofs.Chart.Offers
import ChartParse.Proofs.Decimal.Order
import ChartParse.Proofs.Cell.Closed
import ChartParse.Proofs.Cell.Improvement
import ChartParse.Proofs.Cell.Selection
import ChartParse.Proofs.Cell.Ranking
import ChartParse.Proofs.Cell.BestScores
import ChartParse.Proofs.Chart.RuleOrder
import ChartParse.Proofs.Chart.Widening
import ChartParse.Proofs.Chart.Unguarded
import ChartParse.Proofs.Grammar.Partition
import ChartParse.Proofs.Grammar.Loading
import ChartParse.Proofs.Grammar.InPlace
import ChartParse.Proofs.Grammar.Provenance
import ChartParse.Proofs.Grammar.Layout
import ChartParse.Proofs.Grammar.FirstFault
import ChartParse.Proofs.Chart.Probabilities
import ChartParse.Proofs.Derivation.Brackets
import ChartParse.Proofs.Derivation.Splicing
import ChartParse.Proofs.Chart.Pruning
import ChartParse.Proofs.Chart.WideBeam
import ChartParse.Proofs.Chart.DropCount
import ChartParse.Proofs.Chart.Turns
import ChartParse.Proofs.Chart.Ties
import ChartParse.Proofs.Chart.Combinations
import ChartParse.Proofs.Chart.Draft
import ChartParse.Proofs.Chart.InPlace
import ChartParse.Proofs.Chart.Schedule
import ChartParse.Proofs.Text.Fields
import ChartParse.Proofs.Text.Lines
import ChartParse.Proofs.Decimal.Numeral
import ChartParse.Proofs.Decimal.Text
import ChartParse.Proofs.Sentence.Alignment
import ChartParse.Proofs.Text.Decoding
import ChartParse.Proofs.Text.LineByLine
import ChartParse.Proofs.Session.Console
import ChartParse.Proofs.Session.Isolation
