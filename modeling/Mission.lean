import Mission.Accessor.Basic
import Mission.Accessor.Error
import Mission.Accessor.Read
import Mission.Accessor.Write
import Mission.Catalog
import Mission.Checking.Basic
import Mission.Checking.Command
import Mission.Checking.Objects
import Mission.Classify.Basic
import Mission.Classify.Error
import Mission.Classify.Phrase
import Mission.Command.Assignment
import Mission.Command.Basic
import Mission.Command.Error
import Mission.Condition.Basic
import Mission.Condition.Operator
import Mission.DataType
import Mission.Equation
import Mission.Execution
import Mission.Expr.Basic
import Mission.Expr.Error
import Mission.Expr.Evaluate
import Mission.Expr.Parser
import Mission.Literal.ArrayIndex
import Mission.Literal.Basic
import Mission.Log
import Mission.Matrix
import Mission.Name
import Mission.Object.Assembly
import Mission.Object.Basic
import Mission.Object.Error
import Mission.Object.Kind
import Mission.Object.Property
import Mission.Parameter.Calendar
import Mission.Parameter.Create
import Mission.Parameter.Kind
import Mission.Parameter.Orbit
import Mission.Parameter.Quantity
import Mission.ParseError
import Mission.Proofs.Accessor.Footprint
import Mission.Proofs.Accessor.Likeness
import Mission.Proofs.Accessor.Typing
import Mission.Proofs.Accessor.Writing
import Mission.Proofs.Checking.Acceptance
import Mission.Proofs.Checking.Changes
import Mission.Proofs.Checking.Completeness
import Mission.Proofs.Checking.FinalPass
import Mission.Proofs.Checking.Modes
import Mission.Proofs.Checking.Refusal
import Mission.Proofs.Checking.Tracking
import Mission.Proofs.Classify.Description
import Mission.Proofs.Classify.Locality
import Mission.Proofs.Classify.Meaning
import Mission.Proofs.Classify.Policy
import Mission.Proofs.Classify.Stability
import Mission.Proofs.Classify.Tracking
import Mission.Proofs.Classify.Typing
import Mission.Proofs.Command.Accessors
import Mission.Proofs.Command.Likeness
import Mission.Proofs.Command.Renaming
import Mission.Proofs.Command.Reversal
import Mission.Proofs.Execution.CallByValue
import Mission.Proofs.Execution.Interpreter
import Mission.Proofs.Execution.Likeness
import Mission.Proofs.Execution.Positions
import Mission.Proofs.Execution.Readiness
import Mission.Proofs.Execution.Termination
import Mission.Proofs.Execution.Tracking
import Mission.Proofs.Execution.Typing
import Mission.Proofs.Expr.Blanks
import Mission.Proofs.Expr.Context
import Mission.Proofs.Expr.Failure
import Mission.Proofs.Expr.Grammar
import Mission.Proofs.Expr.Literal
import Mission.Proofs.Expr.Printing
import Mission.Proofs.Expr.Renaming
import Mission.Proofs.Expr.Shape
import Mission.Proofs.Name.Mention
import Mission.Proofs.Name.Reversal
import Mission.Proofs.Name.Scan
import Mission.Proofs.Object.Typing
import Mission.Proofs.Outcome
import Mission.Proofs.Parameter.Order
import Mission.Proofs.Parameter.Scoping
import Mission.Proofs.Real.Negation
import Mission.Proofs.Registry.Evolution
import Mission.Proofs.Registry.Likeness
import Mission.Proofs.Registry.Lookup
import Mission.Proofs.Session.Binding
import Mission.Proofs.Session.CallByValue
import Mission.Proofs.Session.Completeness
import Mission.Proofs.Session.Index
import Mission.Proofs.Session.Renaming
import Mission.Proofs.Session.Reversal
import Mission.Proofs.Session.Tracking
import Mission.Proofs.Session.Typing
import Mission.Proofs.Store.Collision
import Mission.Proofs.Store.Likeness
import Mission.Proofs.Store.References
import Mission.Proofs.Store.Renaming
import Mission.Proofs.Table
import Mission.Proofs.Text.Blank
import Mission.Proofs.Workspace.Binding
import Mission.Proofs.Workspace.Tracking
import Mission.Real.Basic
import Mission.Real.Decimal
import Mission.Registry
import Mission.Sequence
import Mission.Session
import Mission.Settings.Basic
import Mission.Settings.Json
import Mission.Store
import Mission.Table
import Mission.Text.Blank
import Mission.Value
import Mission.Workspace
import Mission.Proofs.Condition.Precedence
import Mission.Proofs.Checking.Slots
import Mission.Proofs.Classify.Boundness
import Mission.Proofs.Accessor.Places
import Mission.Proofs.Command.Tolerance
import Mission.Proofs.Session.Writes
import Mission.Proofs.Execution.Rounds
import Mission.Proofs.Name.Pieces
import Mission.Proofs.Literal.ArrayIndex
import Mission.Proofs.Execution.Faults
import Mission.Proofs.Real.Value
import Mission.Proofs.Accessor.Element
import Mission.Proofs.Literal.Number
import Mission.Proofs.Execution.Passing
import Mission.Proofs.Equation.Leaves
import Mission.Proofs.Literal.Parentheses
import Mission.Proofs.Settings.Grammar
import Mission.Proofs.Settings.RoundTrip
