import TabletopChat.Act
import TabletopChat.Actor.Data
import TabletopChat.Actor.Reader
import TabletopChat.Actor.Tag
import TabletopChat.Arithmetic.Call
import TabletopChat.Arithmetic.Complex
import TabletopChat.Arithmetic.Evaluate
import TabletopChat.Arithmetic.Expr
import TabletopChat.Arithmetic.Fault
import TabletopChat.Arithmetic.Literal
import TabletopChat.Arithmetic.Number
import TabletopChat.Arithmetic.Operation
import TabletopChat.Arithmetic.Parser
import TabletopChat.Arithmetic.Template
import TabletopChat.Arithmetic.Token
import TabletopChat.CommandLine.Arguments
import TabletopChat.CommandLine.Help
import TabletopChat.CommandLine.Options
import TabletopChat.CommandLine.Program
import TabletopChat.CommandLine.Words
import TabletopChat.Decimal.Binary
import TabletopChat.Decimal.Display
import TabletopChat.Decimal.Reader
import TabletopChat.Decimal.Shortest
import TabletopChat.Diagnostics.Check
import TabletopChat.Diagnostics.Known
import TabletopChat.Diagnostics.Unclosed
import TabletopChat.Dice.Group
import TabletopChat.Dice.Notation.Parser
import TabletopChat.Dice.Notation.Roll
import TabletopChat.Dice.Notation.Rolled
import TabletopChat.Dice.Notation.Tree
import TabletopChat.Dice.Shorthand
import TabletopChat.Dice.Source
import TabletopChat.Entries
import TabletopChat.Evaluation.Evaluate
import TabletopChat.Evaluation.Record
import TabletopChat.Evaluation.Reference
import TabletopChat.Expansion.Expand
import TabletopChat.Expansion.Hooks
import TabletopChat.Expansion.Session
import TabletopChat.Files.Content
import TabletopChat.Files.Path
import TabletopChat.Files.Tree
import TabletopChat.Journal
import TabletopChat.Json.Basic
import TabletopChat.Json.Display
import TabletopChat.Json.Parser
import TabletopChat.Json.Printer
import TabletopChat.Library.Lookup
import TabletopChat.Library.Macro
import TabletopChat.Library.Reader
import TabletopChat.Library.Table
import TabletopChat.Main
import TabletopChat.Markup.Excerpt
import TabletopChat.Markup.Node
import TabletopChat.Markup.Outline
import TabletopChat.Markup.Parser
import TabletopChat.Markup.Position
import TabletopChat.Markup.Token
import TabletopChat.Markup.Tooltip
import TabletopChat.Prompt.Answerer
import TabletopChat.Prompt.Atom
import TabletopChat.Prompt.Memory
import TabletopChat.Prompt.Reference
import TabletopChat.Prompt.Resolve
import TabletopChat.Prompt.Script
import TabletopChat.Prompt.Tag
import TabletopChat.Prompt.Terminal
import TabletopChat.Proofs.Actor.Navigation
import TabletopChat.Proofs.Arithmetic.Boundaries
import TabletopChat.Proofs.Arithmetic.Bounds
import TabletopChat.Proofs.Arithmetic.Completeness
import TabletopChat.Proofs.Arithmetic.Cuts
import TabletopChat.Proofs.Arithmetic.Failing
import TabletopChat.Proofs.Arithmetic.Faults
import TabletopChat.Proofs.Arithmetic.Names
import TabletopChat.Proofs.Arithmetic.Operands
import TabletopChat.Proofs.Arithmetic.Phrases
import TabletopChat.Proofs.Arithmetic.Prepared
import TabletopChat.Proofs.Arithmetic.Wording
import TabletopChat.Proofs.CommandLine.ExitCodes
import TabletopChat.Proofs.Decimal.Bits
import TabletopChat.Proofs.Decimal.Rounding
import TabletopChat.Proofs.Decimal.Shortest
import TabletopChat.Proofs.Diagnostics.Blanking
import TabletopChat.Proofs.Diagnostics.KnownNames
import TabletopChat.Proofs.Diagnostics.RecordedNames
import TabletopChat.Proofs.Dice.Endless
import TabletopChat.Proofs.Dice.Finishing
import TabletopChat.Proofs.Dice.Notation.Printed
import TabletopChat.Proofs.Dice.Notation.Shape
import TabletopChat.Proofs.Dice.Notation.Worth
import TabletopChat.Proofs.Dice.Plain.Agreement
import TabletopChat.Proofs.Dice.Plain.Chains
import TabletopChat.Proofs.Dice.Plain.Climbing
import TabletopChat.Proofs.Dice.Plain.Expression
import TabletopChat.Proofs.Dice.Plain.Reading
import TabletopChat.Proofs.Dice.Plain.Replacing
import TabletopChat.Proofs.Dice.Plain.Rolling
import TabletopChat.Proofs.Dice.Plain.Tokens
import TabletopChat.Proofs.Dice.Plain.Value
import TabletopChat.Proofs.Dice.Shorthand.Letters
import TabletopChat.Proofs.Dice.Shorthand.Residue
import TabletopChat.Proofs.Dice.Shorthand.Rounds
import TabletopChat.Proofs.Entries
import TabletopChat.Proofs.Evaluation.Cached
import TabletopChat.Proofs.Evaluation.CallLimit
import TabletopChat.Proofs.Evaluation.Concatenation
import TabletopChat.Proofs.Evaluation.InnerResult
import TabletopChat.Proofs.Evaluation.InvalidRolls
import TabletopChat.Proofs.Evaluation.Leading
import TabletopChat.Proofs.Evaluation.NestedRoll
import TabletopChat.Proofs.Evaluation.Overwriting
import TabletopChat.Proofs.Evaluation.Postorder
import TabletopChat.Proofs.Evaluation.Replacement
import TabletopChat.Proofs.Evaluation.Returning
import TabletopChat.Proofs.Expansion.Asking
import TabletopChat.Proofs.Expansion.Cached
import TabletopChat.Proofs.Expansion.Invoking
import TabletopChat.Proofs.Expansion.JournalBlind
import TabletopChat.Proofs.Expansion.LocalFaults
import TabletopChat.Proofs.Expansion.Nesting
import TabletopChat.Proofs.Expansion.NulFree
import TabletopChat.Proofs.Expansion.OnePass
import TabletopChat.Proofs.Expansion.OrdinaryText
import TabletopChat.Proofs.Expansion.Returning
import TabletopChat.Proofs.Expansion.Sessions
import TabletopChat.Proofs.Expansion.Stages
import TabletopChat.Proofs.Expansion.Stopping
import TabletopChat.Proofs.Json.Grammar
import TabletopChat.Proofs.Json.Numbers
import TabletopChat.Proofs.Json.Overlong
import TabletopChat.Proofs.Json.Readable
import TabletopChat.Proofs.Json.Sorted
import TabletopChat.Proofs.Json.Strings
import TabletopChat.Proofs.Library.Precedence
import TabletopChat.Proofs.Library.Slugs
import TabletopChat.Proofs.Library.TableShares
import TabletopChat.Proofs.Markup.Carets
import TabletopChat.Proofs.Markup.Cursor
import TabletopChat.Proofs.Markup.Escaping
import TabletopChat.Proofs.Markup.InlineMath
import TabletopChat.Proofs.Markup.NormalForm
import TabletopChat.Proofs.Markup.OpenRolls
import TabletopChat.Proofs.Markup.Placement
import TabletopChat.Proofs.Markup.Strictness
import TabletopChat.Proofs.Markup.Tiling
import TabletopChat.Proofs.Markup.Tooltips
import TabletopChat.Proofs.Prompt.Answering
import TabletopChat.Proofs.Prompt.Atoms
import TabletopChat.Proofs.Prompt.Decoding
import TabletopChat.Proofs.Prompt.Dialogue
import TabletopChat.Proofs.Prompt.FixedPoint
import TabletopChat.Proofs.Prompt.Items
import TabletopChat.Proofs.Prompt.Lockstep
import TabletopChat.Proofs.Prompt.Preselected
import TabletopChat.Proofs.Prompt.Questions
import TabletopChat.Proofs.Prompt.Remembered
import TabletopChat.Proofs.Prompt.Repeating
import TabletopChat.Proofs.Prompt.Searching
import TabletopChat.Proofs.Prompt.Segments
import TabletopChat.Proofs.Prompt.SharedStore
import TabletopChat.Proofs.Prompt.SingleChoice
import TabletopChat.Proofs.Prompt.Steps
import TabletopChat.Proofs.Prompt.TagSource
import TabletopChat.Proofs.Prompt.Unreadable
import TabletopChat.Proofs.Store.Saved
import TabletopChat.Proofs.Store.Settings
import TabletopChat.Proofs.Text.NulFree
import TabletopChat.Proofs.Text.Numeral
import TabletopChat.Regex.Match
import TabletopChat.Regex.Pattern
import TabletopChat.Regex.Splicing
import TabletopChat.Store
import TabletopChat.Text.Basic
import TabletopChat.Text.Blank
import TabletopChat.Text.Caseless
import TabletopChat.Text.CharSet
import TabletopChat.Text.Compatibility
import TabletopChat.Text.Cutting
import TabletopChat.Text.Digit
import TabletopChat.Text.Identifier
import TabletopChat.Text.Lines
import TabletopChat.Text.Piece
import TabletopChat.Text.Printable
import TabletopChat.Text.Quoted
import TabletopChat.Text.Word
import TabletopChat.Toml.Moment
import TabletopChat.Toml.Parser
import TabletopChat.Toml.Scalar
import TabletopChat.Toml.Table
import TabletopChat.Toml.Value
