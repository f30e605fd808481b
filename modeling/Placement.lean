import Placement.Text.Words
import Placement.Text.Quoted
import Placement.Decimal.Layout
import Placement.Decimal.Numeral
import Placement.Json.Basic
import Placement.Json.Printer
import Placement.Json.Draft
import Placement.Json.Text
import Placement.Record.Reader
import Placement.Record.Fields
import Placement.Candidate
import Placement.Comparator
import Placement.Location
import Placement.Engine.Consult
import Placement.Engine.Recorded
import Placement.Engine.Rehearsed
import Placement.Path
import Placement.Constraint.Basic
import Placement.Constraint.Build
import Placement.Constraint.Filter
import Placement.Objective.Basic
import Placement.Problem
import Placement.Search.Greedy
import Placement.Search.RandomPick
import Placement.Search.Strategy
import Placement.Settings
import Placement.CommandLine.Arguments
import Placement.CommandLine.Run
import Placement.Main
import Placement.CommandLine.FileTree
import Placement.Proofs.Engine.Conversation
import Placement.Proofs.Engine.Stateless
import Placement.Proofs.Decimal.Order
import Placement.Proofs.Objective.Frame
import Placement.Proofs.Problem
import Placement.Proofs.Search.Round
import Placement.Proofs.Search.Run
import Placement.Proofs.Search.FirstBest
import Placement.Proofs.Search.RandomPick
import Placement.Proofs.Objective.Failure
import Placement.Proofs.Search.Score
import Placement.Proofs.Constraint.Failure
import Placement.Proofs.Search.Failure
import Placement.Proofs.Constraint.Verdict
import Placement.Proofs.Constraint.Meaning
import Placement.Proofs.Search.Soundness
import Placement.Proofs.Constraint.Passes
import Placement.Proofs.Search.Pipeline
import Placement.Proofs.Objective.Pruned
import Placement.Proofs.Path.History
import Placement.Proofs.Checks
import Placement.Proofs.Constraint.WellFormed
import Placement.Proofs.Objective.WellFormed
import Placement.Proofs.Acceptance
import Placement.Proofs.Constraint.Origin
import Placement.Proofs.Search.Origin
import Placement.Proofs.Engine.Prompt
import Placement.Proofs.Search.Prompt
import Placement.Proofs.Search.Lookahead
import Placement.Proofs.Decimal.Extremes
import Placement.Proofs.Search.Finite
import Placement.Proofs.Engine.Calls
import Placement.Proofs.Constraint.Questions
import Placement.Proofs.Objective.Questions
import Placement.Proofs.Constraint.Replacement
import Placement.Proofs.Search.EmptyPool
import Placement.Proofs.Search.Picks
import Placement.Proofs.Search.Totals
import Placement.Proofs.Problem.Order
import Placement.Proofs.Engine.Flavor
import Placement.Proofs.Constraint.Equipment
import Placement.Proofs.Search.Frame
import Placement.Proofs.Engine.Silence
import Placement.Proofs.Search.Deadline
import Placement.Proofs.Objective.Active
import Placement.Proofs.Search.Skips
import Placement.Proofs.Folds
import Placement.Proofs.Constraint.Repeats
import Placement.Proofs.Constraint.Loose
import Placement.Proofs.Search.Unmentioned
import Placement.Proofs.Constraint.Commitments
import Placement.Proofs.Constraint.Again
import Placement.Proofs.Decimal.Printed
import Placement.Proofs.Decimal.Whole
import Placement.Proofs.Json.Written
import Placement.Proofs.Json.Loose
import Placement.Proofs.Constraint.Confirmation
import Placement.Proofs.Decimal.NotANumber
import Placement.Proofs.Constraint.Readings
import Placement.Proofs.Objective.Latency
import Placement.Proofs.Decimal.Bounded
import Placement.Proofs.Record.Candidate
import Placement.Proofs.Search.Outset
import Placement.Proofs.Constraint.Distance
import Placement.Proofs.Settings
