import Calculator.Main
import Calculator.Parser.Relocation
import Calculator.Parser.Transport
import Calculator.Proofs.Grammar.Derivation
import Calculator.Proofs.Grammar.Unambiguous
import Calculator.Proofs.Grammar.Reading
import Calculator.Proofs.Grammar.Acceptance
import Calculator.Proofs.Grammar.Relocation
import Calculator.Proofs.Scanning.LongestMatch
import Calculator.Proofs.Scanning.Tokenization
import Calculator.Proofs.Scanning.Spacing
import Calculator.Proofs.Scanning.Layout
import Calculator.Proofs.Positions.Place
import Calculator.Proofs.Positions.Marks
import Calculator.Proofs.Positions.Independence
import Calculator.Proofs.Implicit.Operands
import Calculator.Proofs.Implicit.Insertion
import Calculator.Proofs.Implicit.Shorthand
import Calculator.Proofs.Positions.Standing
import Calculator.Proofs.Lines.Origin
import Calculator.Proofs.Lines.Order
import Calculator.Proofs.Diagnostics.Cause
import Calculator.Proofs.Diagnostics.Message
import Calculator.Proofs.Writing.Literal
import Calculator.Proofs.Writing.Written
import Calculator.Proofs.Writing.RoundTrip
import Calculator.Proofs.Writing.SingleNumber
import Calculator.Proofs.Writing.Digits
import Calculator.Proofs.Writing.Agreement
import Calculator.Proofs.Writing.Printed
import Calculator.Proofs.Outline.Labels
import Calculator.Proofs.Outline.Skeleton
import Calculator.Proofs.Binary64.Nearest
import Calculator.Proofs.Binary64.Whole
import Calculator.Proofs.Binary64.Representable
import Calculator.Proofs.Binary64.Order
import Calculator.Proofs.Binary64.Truncation
import Calculator.Proofs.Operators.TwosComplement
import Calculator.Proofs.Operators.Truncated
import Calculator.Proofs.Operators.Saturation
import Calculator.Proofs.Operators.Exactness
import Calculator.Proofs.Operators.Calculation
import Calculator.Proofs.Operators.Conversion
import Calculator.Proofs.Analysis.Nodes
import Calculator.Proofs.Analysis.WholeOperands
import Calculator.Proofs.Analysis.Violations
import Calculator.Proofs.Analysis.Guard
import Calculator.Proofs.Lookahead.Reading
import Calculator.Proofs.Lookahead.Program
import Calculator.Proofs.Lookahead.Completion
import Calculator.Proofs.Lookahead.Outcome
import Calculator.Proofs.Lookahead.Hopeless
import Calculator.Proofs.Reader.Procedures
import Calculator.Proofs.Reader.View
import Calculator.Proofs.Reader.Counting
import Calculator.Proofs.Nesting.Simulation
import Calculator.Proofs.Nesting.Limit
import Calculator.Proofs.Nesting.Height
import Calculator.Proofs.Nesting.Frames
import Calculator.Proofs.Nesting.Passes
import Calculator.Proofs.Pulling.Supply
import Calculator.Proofs.Pulling.Requests
import Calculator.Proofs.Pulling.Whole
import Calculator.Proofs.CommandLine.Table
import Calculator.Proofs.CommandLine.Channels
import Calculator.Proofs.CommandLine.Session
