import CardText.Build.Basic
import CardText.Build.Singular
import CardText.Card.Catalog
import CardText.Card.Face
import CardText.Card.Record
import CardText.CommandLine.Arguments
import CardText.CommandLine.Run
import CardText.Decimal
import CardText.Grammar.Ability
import CardText.Grammar.Effect
import CardText.Grammar.Keyword
import CardText.Grammar.Phrase
import CardText.Grammar.Sentence
import CardText.Json.Basic
import CardText.Json.Printer
import CardText.Json.Reader
import CardText.Main
import CardText.Model.Json
import CardText.Model.Mana
import CardText.Model.RulesText
import CardText.Model.TypeLine
import CardText.Names.Candidate
import CardText.Names.Overlay
import CardText.Names.Quotation
import CardText.Names.Resolver
import CardText.Names.SelfName
import CardText.Names.Table
import CardText.Normalize
import CardText.Parse
import CardText.Pattern.Clause
import CardText.Pattern.Keyword
import CardText.Pattern.Line
import CardText.Pattern.Sketch
import CardText.Peg.Basic
import CardText.Proofs.Agreement.Ability
import CardText.Proofs.Agreement.Clause
import CardText.Proofs.Agreement.Cost
import CardText.Proofs.Agreement.Effect
import CardText.Proofs.Agreement.Keyword
import CardText.Proofs.Agreement.Line
import CardText.Proofs.Agreement.Overrun
import CardText.Proofs.Agreement.Strategy
import CardText.Proofs.Agreement.Text
import CardText.Proofs.Agreement.Trigger
import CardText.Proofs.Build.Alike
import CardText.Proofs.Build.Drift
import CardText.Proofs.Build.Keyword
import CardText.Proofs.Build.Mana
import CardText.Proofs.Build.Shape
import CardText.Proofs.Build.Spacing
import CardText.Proofs.Build.TypeLine
import CardText.Proofs.Catalog.Mentions
import CardText.Proofs.Catalog.Parallel
import CardText.Proofs.Grammar.Alike
import CardText.Proofs.Grammar.Coverage
import CardText.Proofs.Grammar.Lines
import CardText.Proofs.Grammar.Object
import CardText.Proofs.Grammar.Phrase
import CardText.Proofs.Grammar.Places
import CardText.Proofs.Grammar.Quoted
import CardText.Proofs.Grammar.Relative
import CardText.Proofs.Grammar.Search
import CardText.Proofs.Grammar.Sentence
import CardText.Proofs.Lists
import CardText.Proofs.Model.Json
import CardText.Proofs.Names.Aligned
import CardText.Proofs.Names.Attributed
import CardText.Proofs.Names.Bijection
import CardText.Proofs.Names.Calls
import CardText.Proofs.Names.Candidate
import CardText.Proofs.Names.Dialogue
import CardText.Proofs.Names.Discovered
import CardText.Proofs.Names.Enumerated
import CardText.Proofs.Names.FreeToken
import CardText.Proofs.Names.Gathered
import CardText.Proofs.Names.Growth
import CardText.Proofs.Names.Intact
import CardText.Proofs.Names.Known
import CardText.Proofs.Names.Marking
import CardText.Proofs.Names.Merge
import CardText.Proofs.Names.Patched
import CardText.Proofs.Names.Polish
import CardText.Proofs.Names.Quiet
import CardText.Proofs.Names.Reference
import CardText.Proofs.Names.Remarked
import CardText.Proofs.Names.Replay
import CardText.Proofs.Names.Restore
import CardText.Proofs.Names.RoundTrip
import CardText.Proofs.Names.Rounds
import CardText.Proofs.Names.Routine
import CardText.Proofs.Names.Scan
import CardText.Proofs.Names.Settled
import CardText.Proofs.Names.Spelled
import CardText.Proofs.Names.Substitution
import CardText.Proofs.Names.Title
import CardText.Proofs.Names.Trimmed
import CardText.Proofs.Names.WholeWords
import CardText.Proofs.Names.Written
import CardText.Proofs.Normalize.Breaks
import CardText.Proofs.Normalize.Corrected
import CardText.Proofs.Normalize.Idempotent
import CardText.Proofs.Normalize.Reminder
import CardText.Proofs.Normalize.Typography
import CardText.Proofs.Normalize.Visible
import CardText.Proofs.Pattern.Alike
import CardText.Proofs.Pattern.Clause
import CardText.Proofs.Pattern.Coverage
import CardText.Proofs.Pattern.Verdict
import CardText.Proofs.Peg.Alike
import CardText.Proofs.Peg.Outcome
import CardText.Proofs.Peg.Pieces
import CardText.Proofs.Peg.Yield
import CardText.Proofs.Text.Cut
import CardText.Proofs.Text.Letters
import CardText.Proofs.Text.Lowercase
import CardText.Proofs.Text.Runs
import CardText.Proofs.Text.Words
import CardText.Proofs.Token.Kept
import CardText.Proofs.Token.Rendering
import CardText.Proofs.Token.Spans
import CardText.Proofs.Token.Spelling
import CardText.Proofs.Token.Tiling
import CardText.Proofs.Token.Word
import CardText.Report
import CardText.Settings.Basic
import CardText.Settings.Moment
import CardText.Settings.Toml
import CardText.Settings.Toml.Numbers
import CardText.Settings.Toml.Strings
import CardText.Settings.Toml.Tables
import CardText.Settings.Value
import CardText.Text.Case
import CardText.Text.Letters
import CardText.Text.Printable
import CardText.Text.Search
import CardText.Token.Basic
import CardText.Token.Lexer
import CardText.Tree
import CardText.Vocabulary
