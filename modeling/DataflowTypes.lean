import DataflowTypes.Config
import DataflowTypes.ConfigFile
import DataflowTypes.Error
import DataflowTypes.Expr.Basic
import DataflowTypes.Expr.Error
import DataflowTypes.Expr.Json
import DataflowTypes.Expr.Parser
import DataflowTypes.Json.Basic
import DataflowTypes.Json.Reader
import DataflowTypes.Lattice.BaseOrder
import DataflowTypes.Lattice.Basic
import DataflowTypes.Lattice.Bounds
import DataflowTypes.Lattice.Cache
import DataflowTypes.Lattice.Compare
import DataflowTypes.Lattice.Inquiry
import DataflowTypes.Lattice.Rules
import DataflowTypes.Names
import DataflowTypes.Number.Digits
import DataflowTypes.Number.Round
import DataflowTypes.Number.Word
import DataflowTypes.Order.Comparison
import DataflowTypes.Order.Digraph
import DataflowTypes.Order.Extremes
import DataflowTypes.Order.FinOrder
import DataflowTypes.Proofs.Expr.Completion
import DataflowTypes.Proofs.Expr.Context
import DataflowTypes.Proofs.Expr.Extension
import DataflowTypes.Proofs.Expr.Failure
import DataflowTypes.Proofs.Expr.Grammar
import DataflowTypes.Proofs.Expr.Incomplete
import DataflowTypes.Proofs.Expr.Parser
import DataflowTypes.Proofs.Expr.Reader
import DataflowTypes.Proofs.Expr.Spans
import DataflowTypes.Proofs.Lattice.BaseOrder
import DataflowTypes.Proofs.Lattice.Below
import DataflowTypes.Proofs.Lattice.Cache
import DataflowTypes.Proofs.Lattice.Compare
import DataflowTypes.Proofs.Lattice.Componentwise
import DataflowTypes.Proofs.Lattice.Correspondence
import DataflowTypes.Proofs.Lattice.Family
import DataflowTypes.Proofs.Lattice.Flat
import DataflowTypes.Proofs.Lattice.Join
import DataflowTypes.Proofs.Lattice.JoinAll
import DataflowTypes.Proofs.Lattice.JoinLaws
import DataflowTypes.Proofs.Lattice.JoinOrder
import DataflowTypes.Proofs.Lattice.Meet
import DataflowTypes.Proofs.Lattice.Mirror
import DataflowTypes.Proofs.Lattice.Rules
import DataflowTypes.Proofs.Lattice.Slot
import DataflowTypes.Proofs.Order.Bounds
import DataflowTypes.Proofs.Order.Path
import DataflowTypes.Proofs.Order.Ranks
import DataflowTypes.Proofs.Order.Reachability
import DataflowTypes.Proofs.Order.SubsetBounds
import DataflowTypes.Proofs.Order.Topological
import DataflowTypes.Proofs.Solver.Conflict
import DataflowTypes.Proofs.Solver.Convergence
import DataflowTypes.Proofs.Solver.Course
import DataflowTypes.Proofs.Solver.Declarations
import DataflowTypes.Proofs.Solver.Directed
import DataflowTypes.Proofs.Solver.Evaluation
import DataflowTypes.Proofs.Solver.Extremal
import DataflowTypes.Proofs.Solver.Failure
import DataflowTypes.Proofs.Solver.Memo
import DataflowTypes.Proofs.Solver.Outcome
import DataflowTypes.Proofs.Solver.Provisional
import DataflowTypes.Proofs.Solver.Reach
import DataflowTypes.Proofs.Solver.Rest
import DataflowTypes.Proofs.Solver.Run
import DataflowTypes.Proofs.Solver.States
import DataflowTypes.Proofs.Solver.Trace
import DataflowTypes.Proofs.Text.Bytes
import DataflowTypes.Proofs.Text.Lines
import DataflowTypes.Proofs.Text.Position
import DataflowTypes.Proofs.Token.Lookahead
import DataflowTypes.Proofs.Token.Scan
import DataflowTypes.Proofs.Token.Tiling
import DataflowTypes.Proofs.Ty.Agreement
import DataflowTypes.Proofs.Ty.Coherent
import DataflowTypes.Proofs.Ty.Component
import DataflowTypes.Proofs.Ty.Conform
import DataflowTypes.Proofs.Ty.Derivation
import DataflowTypes.Proofs.Ty.Form
import DataflowTypes.Proofs.Ty.History
import DataflowTypes.Proofs.Ty.Instance
import DataflowTypes.Proofs.Ty.InstanceOrder
import DataflowTypes.Proofs.Ty.Text
import DataflowTypes.Report
import DataflowTypes.Solver.Diagnostic
import DataflowTypes.Solver.Element
import DataflowTypes.Solver.Operator
import DataflowTypes.Solver.Resolution
import DataflowTypes.Solver.Run
import DataflowTypes.Solver.Session
import DataflowTypes.Solver.Store
import DataflowTypes.Solver.Term
import DataflowTypes.Text.Hidden
import DataflowTypes.Text.Lines
import DataflowTypes.Text.Quoted
import DataflowTypes.Text.Scanner
import DataflowTypes.Text.Span
import DataflowTypes.Token.Basic
import DataflowTypes.Token.Lexer
import DataflowTypes.Token.Scan
import DataflowTypes.Toml.Document
import DataflowTypes.Toml.Scalar
import DataflowTypes.Toml.Value
import DataflowTypes.Ty.Basic
import DataflowTypes.Ty.Hash
import DataflowTypes.Ty.Json
import DataflowTypes.Ty.Parse
import DataflowTypes.Ty.Refine
import DataflowTypes.Ty.Tag
import DataflowTypes.Ty.Text
