import Reprise.Answer.Core
import Reprise.Answer.Model
import Reprise.Answer.Verdict
import Reprise.Binary64.Basic
import Reprise.Cache.Basic
import Reprise.Cache.Nearest
import Reprise.Cache.Persistence
import Reprise.Decimal.Notation
import Reprise.Decimal.Shortest
import Reprise.Distance.Basic
import Reprise.Distance.Probe
import Reprise.Expr.Basic
import Reprise.Expr.Canonical
import Reprise.Expr.Constant
import Reprise.Expr.Eval
import Reprise.Expr.Operator
import Reprise.Expr.Variable
import Reprise.Expr.Walk
import Reprise.Fault
import Reprise.Json.Answer
import Reprise.Json.Basic
import Reprise.Json.Decode
import Reprise.Json.Expr
import Reprise.Json.Normal
import Reprise.Json.Print
import Reprise.Json.Read
import Reprise.Lookup.Core
import Reprise.Lookup.Model
import Reprise.Main
import Reprise.Ordered.Map
import Reprise.Program.Arguments
import Reprise.Program.Directory
import Reprise.Program.Path
import Reprise.Program.Run
import Reprise.Proofs.Answer.Containment
import Reprise.Proofs.Answer.Core
import Reprise.Proofs.Binary64.Difference
import Reprise.Proofs.Binary64.Order
import Reprise.Proofs.Cache.Apart
import Reprise.Proofs.Cache.Entries
import Reprise.Proofs.Cache.Inserted
import Reprise.Proofs.Cache.Nearest
import Reprise.Proofs.Cache.Persistence
import Reprise.Proofs.Cache.Restored
import Reprise.Proofs.Cache.Rewritten
import Reprise.Proofs.Cache.Ties
import Reprise.Proofs.Cache.WellFormed
import Reprise.Proofs.Decimal.Text
import Reprise.Proofs.Distance.Agreement
import Reprise.Proofs.Distance.Memo
import Reprise.Proofs.Distance.Probe
import Reprise.Proofs.Expr.Alike
import Reprise.Proofs.Expr.Arity
import Reprise.Proofs.Expr.Bounds
import Reprise.Proofs.Expr.Canonical
import Reprise.Proofs.Expr.Conjuncts
import Reprise.Proofs.Expr.Eval
import Reprise.Proofs.Expr.Foreign
import Reprise.Proofs.Expr.Kinds
import Reprise.Proofs.Expr.Meaning
import Reprise.Proofs.Expr.Nested
import Reprise.Proofs.Expr.Parentheses
import Reprise.Proofs.Expr.Places
import Reprise.Proofs.Expr.Reading
import Reprise.Proofs.Expr.Refolded
import Reprise.Proofs.Expr.Shared
import Reprise.Proofs.Expr.Tree
import Reprise.Proofs.Expr.Visits
import Reprise.Proofs.Expr.Walk
import Reprise.Proofs.Json.Decode
import Reprise.Proofs.Json.Document
import Reprise.Proofs.Json.Scalar
import Reprise.Proofs.Json.Tree
import Reprise.Proofs.Lookup.Candidates
import Reprise.Proofs.Lookup.Counters
import Reprise.Proofs.Lookup.Reused
import Reprise.Proofs.Ordered.Map
import Reprise.Proofs.Ordered.Sorted
import Reprise.Proofs.Program.Directory
import Reprise.Proofs.Program.Kept
import Reprise.Proofs.Program.Resolve
import Reprise.Proofs.Session.Accounted
import Reprise.Proofs.Session.Answer
import Reprise.Proofs.Session.Distances
import Reprise.Proofs.Session.Fitting
import Reprise.Proofs.Session.OwnCore
import Reprise.Proofs.Session.Persisted
import Reprise.Proofs.Session.Reached
import Reprise.Proofs.Session.Refuted
import Reprise.Proofs.Session.Repeated
import Reprise.Proofs.Session.Restarted
import Reprise.Proofs.Session.Satisfied
import Reprise.Proofs.Session.Together
import Reprise.Proofs.Session.Trail
import Reprise.Proofs.Session.Transaction
import Reprise.Proofs.Solver.Budget
import Reprise.Proofs.Solver.Collected
import Reprise.Proofs.Solver.Decided
import Reprise.Proofs.Solver.Enumeration
import Reprise.Proofs.Solver.Lexicographic
import Reprise.Proofs.Solver.Minimal
import Reprise.Proofs.Solver.Minimise
import Reprise.Proofs.Solver.Search
import Reprise.Proofs.Table.Agreement
import Reprise.Proofs.Table.Lawful
import Reprise.Proofs.Table.Reliable
import Reprise.Proofs.Tally.Balanced
import Reprise.Proofs.Text.Bare
import Reprise.Proofs.Text.Bytes
import Reprise.Proofs.Text.Nesting
import Reprise.Proofs.Text.Order
import Reprise.Proofs.Text.Split
import Reprise.Proofs.Text.Token
import Reprise.Proofs.Wire.Basic
import Reprise.Proofs.Wire.Delimited
import Reprise.Proofs.Wire.Entry
import Reprise.Proofs.Wire.Expr
import Reprise.Proofs.Wire.Tree
import Reprise.Session.Basic
import Reprise.Session.Config
import Reprise.Session.Resolve
import Reprise.Solver.Minimise
import Reprise.Solver.Search
import Reprise.Table.Basic
import Reprise.Table.Faulty
import Reprise.Table.Memory
import Reprise.Table.Sorted
import Reprise.Tally.Basic
import Reprise.Tally.Json
import Reprise.Text.Occurs
import Reprise.Toml.Basic
import Reprise.Toml.Document
import Reprise.Toml.Quote
import Reprise.Toml.Read
import Reprise.Wire.Basic
import Reprise.Wire.Entry
import Reprise.Wire.Expr
