import MarkovFit.Answer
import MarkovFit.CommandLine.Arguments
import MarkovFit.CommandLine.Example
import MarkovFit.CommandLine.Failure
import MarkovFit.CommandLine.Help
import MarkovFit.CommandLine.Perform
import MarkovFit.CommandLine.Switch
import MarkovFit.Decimal.Arithmetic
import MarkovFit.Decimal.Basic
import MarkovFit.Decimal.Binary
import MarkovFit.Decimal.Power
import MarkovFit.Decimal.Root
import MarkovFit.Decimal.Rounding
import MarkovFit.Decimal.Text
import MarkovFit.Decimal.Wide
import MarkovFit.Document
import MarkovFit.Double.Parts
import MarkovFit.Double.Shortest
import MarkovFit.Double.Text
import MarkovFit.Expr.Basic
import MarkovFit.Expr.Eval
import MarkovFit.Expr.Parser
import MarkovFit.Expr.Render
import MarkovFit.Expr.Token
import MarkovFit.Failure
import MarkovFit.LinearProgram.Basic
import MarkovFit.LinearProgram.Model
import MarkovFit.LinearProgram.Octave
import MarkovFit.LinearProgram.Scalar
import MarkovFit.LinearProgram.Simplex
import MarkovFit.LinearProgram.System
import MarkovFit.LinearProgram.Tableau
import MarkovFit.Main
import MarkovFit.Oracle.Basic
import MarkovFit.Oracle.Checker
import MarkovFit.Oracle.Client
import MarkovFit.Oracle.Line
import MarkovFit.Oracle.Synthetic
import MarkovFit.Oracle.Wrapper
import MarkovFit.Parameter
import MarkovFit.Pool
import MarkovFit.Program
import MarkovFit.Random.ChaCha
import MarkovFit.Random.Source
import MarkovFit.Range
import MarkovFit.Report
import MarkovFit.Sample
import MarkovFit.Sampling.Bound
import MarkovFit.Sampling.Plan
import MarkovFit.Sampling.Uniform
import MarkovFit.Sampling.Vertex
import MarkovFit.Scenario.Basic
import MarkovFit.Scenario.Fit
import MarkovFit.Scenario.Outcome
import MarkovFit.Scenario.Statistics
import MarkovFit.Search.Adaptive
import MarkovFit.Search.Candidate
import MarkovFit.Search.Direct
import MarkovFit.Search.Envelope
import MarkovFit.Search.Outcome
import MarkovFit.Search.Stopping
import MarkovFit.Settings.Backends
import MarkovFit.Settings.Basic
import MarkovFit.Settings.Check
import MarkovFit.Settings.Document
import MarkovFit.Settings.Reader
import MarkovFit.Template.Basic
import MarkovFit.Template.Monomial
import MarkovFit.Template.Registry
import MarkovFit.Template.Render
import MarkovFit.Text.Blank
import MarkovFit.Text.Digits
import MarkovFit.Text.Path
import MarkovFit.Text.Pieces
import MarkovFit.Text.Timestamp
import MarkovFit.Text.Utf8
import MarkovFit.Toml.Definition
import MarkovFit.Toml.Lexeme
import MarkovFit.Toml.Parser
import MarkovFit.Toml.Text
import MarkovFit.Toml.Value
import MarkovFit.Proofs.DecimalScaling
import MarkovFit.Proofs.UnknownIndex
import MarkovFit.Proofs.ModelRows
import MarkovFit.Proofs.Feasibility
import MarkovFit.Proofs.TemplateTerms
import MarkovFit.Proofs.MinimaxProgram
import MarkovFit.Proofs.FitDeviation
import MarkovFit.Proofs.TextPieces
import MarkovFit.Proofs.ReplyOrigin
import MarkovFit.Proofs.RangeExtent
import MarkovFit.Proofs.PoolCompletion
import MarkovFit.Proofs.RangeMerge
import MarkovFit.Proofs.WorkerCount
import MarkovFit.Proofs.ExpressionGrammar
import MarkovFit.Proofs.DecimalText
import MarkovFit.Proofs.ExpressionText
import MarkovFit.Proofs.PrintedFit
import MarkovFit.Proofs.RationalTableau
import MarkovFit.Proofs.TableauRun
import MarkovFit.Proofs.DualTableau
import MarkovFit.Proofs.InequalityRows
import MarkovFit.Proofs.PrimalPoint
import MarkovFit.Proofs.BasicColumns
import MarkovFit.Proofs.NoSolution
import MarkovFit.Proofs.CoefficientNames
import MarkovFit.Proofs.FailureKinds
import MarkovFit.Proofs.NamingFailures
import MarkovFit.Proofs.InfiniteAnswers
import MarkovFit.Proofs.ResultLines
import MarkovFit.Proofs.CompleteAnswers
import MarkovFit.Proofs.DoubleOrder
import MarkovFit.Proofs.DoubleBits
import MarkovFit.Proofs.DecimalToDouble
import MarkovFit.Proofs.SearchRun
import MarkovFit.Proofs.DecimalRounding
import MarkovFit.Proofs.DecimalQuotient
import MarkovFit.Proofs.UnitDraws
import MarkovFit.Proofs.IntervalPoints
import MarkovFit.Proofs.SampledBox
import MarkovFit.Proofs.MatlabGrammar
import MarkovFit.Proofs.MatlabRendering
import MarkovFit.Proofs.PrintedExpression
import MarkovFit.Proofs.DirectRun
import MarkovFit.Proofs.WorkerCountFit
import MarkovFit.Proofs.SessionStages
import MarkovFit.Proofs.ExpressionParts
import MarkovFit.Proofs.ResolvedNames
import MarkovFit.Proofs.DecimalForms
import MarkovFit.Proofs.OperationDomains
import MarkovFit.Proofs.EqualValues
import MarkovFit.Proofs.EqualInputs
import MarkovFit.Proofs.NewtonStep
import MarkovFit.Proofs.NewtonOrbit
import MarkovFit.Proofs.LogarithmLoops
import MarkovFit.Proofs.UnsettledRoots
import MarkovFit.Proofs.BoxVertices
import MarkovFit.Proofs.EdgeSeparation
import MarkovFit.Proofs.CoefficientCount
import MarkovFit.Proofs.MonomialBasis
import MarkovFit.Proofs.DrawLimit
import MarkovFit.Proofs.PlanTotal
import MarkovFit.Proofs.PlannedSamples
import MarkovFit.Proofs.ResultRoundTrip
import MarkovFit.Proofs.TokenBoundaries
import MarkovFit.Proofs.TermPieces
import MarkovFit.Proofs.RequestStream
import MarkovFit.Proofs.CheckerRuns
import MarkovFit.Proofs.SignedNumbers
import MarkovFit.Proofs.NumberTokens
import MarkovFit.Proofs.QuotientReaders
import MarkovFit.Proofs.OctaveExchange
import MarkovFit.Proofs.RowRequests
import MarkovFit.Proofs.SettingsCheck
import MarkovFit.Proofs.AcceptedSettings
import MarkovFit.Proofs.MatlabPolynomial
import MarkovFit.Proofs.PhaseMoves
import MarkovFit.Proofs.PivotBudget
