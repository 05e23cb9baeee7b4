import TinyScript.Main
import TinyScript.Proofs.Token.Cutting
import TinyScript.Proofs.Token.Cursor
import TinyScript.Proofs.Program.Sentence
import TinyScript.Proofs.Program.Spelling
import TinyScript.Proofs.Program.RoundTrip
import TinyScript.Proofs.Program.WellFormed
import TinyScript.Proofs.Program.Grammar
import TinyScript.Proofs.Program.Sequence
import TinyScript.Proofs.Memory.Lookup
import TinyScript.Proofs.Memory.Steps
import TinyScript.Proofs.Memory.Chain
import TinyScript.Proofs.Run.Congruence
import TinyScript.Proofs.Program.Names
import TinyScript.Proofs.Run.Effects
import TinyScript.Proofs.Run.Evaluation
import TinyScript.Proofs.Run.Scopes
import TinyScript.Proofs.Run.Interference
import TinyScript.Proofs.Run.Namespace
import TinyScript.Proofs.Run.Registry
import TinyScript.Proofs.Run.Staging
import TinyScript.Proofs.Run.Footprint
import TinyScript.Proofs.Program.Diagnosis
import TinyScript.Proofs.Run.Failures
import TinyScript.Proofs.Run.Returns
import TinyScript.Proofs.Token.Literals
import TinyScript.Proofs.Run.Understanding
import TinyScript.Proofs.Run.DeadStatements
import TinyScript.Proofs.Memory.Activations
import TinyScript.Proofs.Memory.Renaming
import TinyScript.Proofs.Run.Renaming
import TinyScript.Proofs.Run.Bounds
import TinyScript.Proofs.Program.Calls
import TinyScript.Proofs.Run.Termination
import TinyScript.Proofs.Run.Sinks
import TinyScript.Proofs.Text.Lines
import TinyScript.Proofs.Token.Loading
import TinyScript.Proofs.Program.Position
import TinyScript.Proofs.Program.Unread
import TinyScript.Proofs.Program.Descent
import TinyScript.Proofs.Run.Declarations
import TinyScript.Proofs.Run.Transcript
import TinyScript.Proofs.Run.Arities
import TinyScript.Proofs.Token.Content
import TinyScript.Proofs.Memory.Restriction
import TinyScript.Proofs.Run.Blocks
import TinyScript.Proofs.Run.Assigned
import TinyScript.Proofs.Run.Iteration
import TinyScript.Proofs.Run.Chains
import TinyScript.Proofs.Value.Order
import TinyScript.Proofs.Number.Writing
import TinyScript.Proofs.Value.ReadBack
import TinyScript.Proofs.Number.Exact
import TinyScript.Proofs.Run.Repetition
import TinyScript.Proofs.Run.Elements
import TinyScript.Proofs.Run.Independence
import TinyScript.Proofs.Program.Spacing
import TinyScript.Proofs.Program.Layout
import TinyScript.Proofs.Token.Patterns
import TinyScript.Proofs.Token.LongestMatch
