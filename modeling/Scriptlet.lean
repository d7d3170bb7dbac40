import Scriptlet.Main
import Scriptlet.Proofs.Akin
import Scriptlet.Proofs.Binary64.Decimals
import Scriptlet.Proofs.Binary64.Equality
import Scriptlet.Proofs.Binary64.Integers
import Scriptlet.Proofs.Binary64.Midpoints
import Scriptlet.Proofs.Binary64.Nearest
import Scriptlet.Proofs.Binary64.Overflow
import Scriptlet.Proofs.Binary64.Words
import Scriptlet.Proofs.Bindings
import Scriptlet.Proofs.Changes
import Scriptlet.Proofs.Command.Arguments
import Scriptlet.Proofs.Command.Endings
import Scriptlet.Proofs.Command.Paths
import Scriptlet.Proofs.Command.Routes
import Scriptlet.Proofs.Composition
import Scriptlet.Proofs.Computation
import Scriptlet.Proofs.Conversions
import Scriptlet.Proofs.Decimal.Layout
import Scriptlet.Proofs.Decimal.Shortest
import Scriptlet.Proofs.Decimal.Spans
import Scriptlet.Proofs.Documents.Decoration
import Scriptlet.Proofs.Documents.Denotation
import Scriptlet.Proofs.Documents.Rejection
import Scriptlet.Proofs.Documents.Reloading
import Scriptlet.Proofs.Documents.Rerunning
import Scriptlet.Proofs.Documents.Storable
import Scriptlet.Proofs.Documents.Written
import Scriptlet.Proofs.Flattening
import Scriptlet.Proofs.Grammar.Boundaries
import Scriptlet.Proofs.Grammar.Derivation
import Scriptlet.Proofs.Grammar.FirstError
import Scriptlet.Proofs.Grammar.Layout
import Scriptlet.Proofs.Grammar.Lexing
import Scriptlet.Proofs.Grammar.Mentions
import Scriptlet.Proofs.Grammar.Names
import Scriptlet.Proofs.Grammar.Parsing
import Scriptlet.Proofs.Grammar.Quotation
import Scriptlet.Proofs.Grammar.Reading
import Scriptlet.Proofs.Grammar.Respacing
import Scriptlet.Proofs.Grammar.Roles
import Scriptlet.Proofs.Grammar.Spelling
import Scriptlet.Proofs.Grammar.Steps
import Scriptlet.Proofs.Grammar.Unambiguous
import Scriptlet.Proofs.Grammar.Words
import Scriptlet.Proofs.Isolation
import Scriptlet.Proofs.Lexical.Agreement
import Scriptlet.Proofs.Lexical.Faithful
import Scriptlet.Proofs.Lexical.Programs
import Scriptlet.Proofs.Lexical.Semantics
import Scriptlet.Proofs.LooseEquality
import Scriptlet.Proofs.Number.Denotation
import Scriptlet.Proofs.Number.Literals
import Scriptlet.Proofs.Number.Spelling
import Scriptlet.Proofs.Number.Text
import Scriptlet.Proofs.Numerals
import Scriptlet.Proofs.Operators
import Scriptlet.Proofs.Parameters
import Scriptlet.Proofs.Reordering
import Scriptlet.Proofs.Repetition
import Scriptlet.Proofs.Safety
import Scriptlet.Proofs.Settled
import Scriptlet.Proofs.Simulation.Declarations
import Scriptlet.Proofs.Simulation.Follows
import Scriptlet.Proofs.Simulation.Likeness
import Scriptlet.Proofs.Simulation.Looks
import Scriptlet.Proofs.Simulation.Pairing
import Scriptlet.Proofs.Simulation.Refinement
import Scriptlet.Proofs.Simulation.Tracking
import Scriptlet.Proofs.Simulation.Truncation
import Scriptlet.Proofs.Simulation.Walks
import Scriptlet.Proofs.TraceLife
import Scriptlet.Proofs.Tracing
import Scriptlet.Proofs.Unmentioned
import Scriptlet.Proofs.Unreached
import Scriptlet.Proofs.Utf8
import Scriptlet.Proofs.Walk
import Scriptlet.Proofs.Writing
