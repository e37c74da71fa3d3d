import ColumnFlow.Account
import ColumnFlow.Metric.Probe
import ColumnFlow.Node.Elements
import ColumnFlow.Proofs.Expression.RoundTrip
import ColumnFlow.Proofs.Expression.Viability
import ColumnFlow.Proofs.Node.Association
import ColumnFlow.Proofs.Node.Columns
import ColumnFlow.Proofs.Node.Distribution
import ColumnFlow.Proofs.Node.Grouping
import ColumnFlow.Proofs.Node.History
import ColumnFlow.Proofs.Node.RowCounts
import ColumnFlow.Proofs.Registry.Compilation
import ColumnFlow.Session
import ColumnFlow.Proofs.Split.Slices
import ColumnFlow.Proofs.Split.Dealing
import ColumnFlow.Proofs.CrossValidation.Splitting
import ColumnFlow.Proofs.CrossValidation.Stages
import ColumnFlow.Proofs.Node.Directory
import ColumnFlow.Proofs.Node.Reaching
import ColumnFlow.Proofs.Node.Blame
import ColumnFlow.Proofs.Node.Refusing
import ColumnFlow.Proofs.Registry.Fresh
import ColumnFlow.Proofs.Registry.Twins
import ColumnFlow.Proofs.Registry.Isolation
import ColumnFlow.Proofs.CrossValidation.Unseen
import ColumnFlow.Proofs.Node.OutputModes
import ColumnFlow.Proofs.Registry.Tables
import ColumnFlow.Proofs.Metric.Registration
import ColumnFlow.Proofs.Node.AnyLabels
import ColumnFlow.Proofs.Node.AnyBatch
import ColumnFlow.Proofs.Registry.Operators
import ColumnFlow.Proofs.Node.TrainingFrame
import ColumnFlow.Proofs.Frame.Repeats
import ColumnFlow.Proofs.Registry.Naming
import ColumnFlow.Proofs.Frame.Plurality
import ColumnFlow.Proofs.Node.Votes
import ColumnFlow.Proofs.Expression.Parentheses
import ColumnFlow.Proofs.Expression.Positions
import ColumnFlow.Proofs.Node.Serving
import ColumnFlow.Proofs.Node.HeldOut
import ColumnFlow.Proofs.Decimal.Notation
import ColumnFlow.Proofs.Decimal.Telling
import ColumnFlow.Proofs.Decimal.Texts
import ColumnFlow.Proofs.Node.Recoding
import ColumnFlow.Proofs.Transform.Widths
import ColumnFlow.Proofs.Node.Targets
