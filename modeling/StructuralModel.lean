import StructuralModel.Command.Arguments
import StructuralModel.Command.Execution
import StructuralModel.Composite
import StructuralModel.Decimal.Dyadic
import StructuralModel.Decimal.Reading
import StructuralModel.Decimal.Shortest
import StructuralModel.Elaboration.Cycles
import StructuralModel.Elaboration.Draft
import StructuralModel.Elaboration.LibraryTypes
import StructuralModel.Elaboration.Links
import StructuralModel.Elaboration.LoadedModel
import StructuralModel.Elaboration.Problem
import StructuralModel.Evaluation.Builtin
import StructuralModel.Evaluation.Environment
import StructuralModel.Evaluation.Error
import StructuralModel.Evaluation.Evaluator
import StructuralModel.Evaluation.Instances
import StructuralModel.Evaluation.Operators
import StructuralModel.Expr.Basic
import StructuralModel.Expr.Printer
import StructuralModel.Failure
import StructuralModel.Main
import StructuralModel.Metadata
import StructuralModel.Model.Basic
import StructuralModel.Model.Closure
import StructuralModel.Model.Edit
import StructuralModel.Model.Element
import StructuralModel.Model.Lookup
import StructuralModel.Model.Traversal
import StructuralModel.PhysicalUnit.Basic
import StructuralModel.PhysicalUnit.ConversionTable
import StructuralModel.PhysicalUnit.Text
import StructuralModel.QualifiedName
import StructuralModel.Report
import StructuralModel.Resolution
import StructuralModel.Session
import StructuralModel.Settings.Basic
import StructuralModel.Settings.Document
import StructuralModel.Source.Declaration
import StructuralModel.Source.DeclarationGrammar
import StructuralModel.Source.Diagnostic
import StructuralModel.Source.ExpressionGrammar
import StructuralModel.Source.Lexer
import StructuralModel.Source.Reader
import StructuralModel.Source.Span
import StructuralModel.Source.SyntaxError
import StructuralModel.Source.Token
import StructuralModel.Text.Blank
import StructuralModel.Text.Letter
import StructuralModel.Text.Quoted
import StructuralModel.Text.Ranges
import StructuralModel.Text.Similarity
import StructuralModel.Text.Split
import StructuralModel.Toml.Reading
import StructuralModel.Toml.Scalar
import StructuralModel.Toml.Tree
import StructuralModel.Value
import StructuralModel.Proofs.Ownership
import StructuralModel.Proofs.Reachability
import StructuralModel.Proofs.EffectiveFeature
import StructuralModel.Proofs.FeatureDependence
import StructuralModel.Proofs.ValueRules
import StructuralModel.Proofs.RuleEvaluation
import StructuralModel.Proofs.StackGuard
import StructuralModel.Proofs.TraversalOrder
import StructuralModel.Proofs.Declaring
import StructuralModel.Proofs.Linking
import StructuralModel.Proofs.CycleSearch
import StructuralModel.Proofs.WellFormed
import StructuralModel.Proofs.OwnRedefinition
import StructuralModel.Proofs.Dimension
import StructuralModel.Proofs.Inheritance
import StructuralModel.Proofs.ObservedEvaluation
import StructuralModel.Proofs.LateBinding
import StructuralModel.Proofs.Visibility
import StructuralModel.Proofs.VisibleNames
import StructuralModel.Proofs.PartPaths
import StructuralModel.Proofs.ExtremeValues
import StructuralModel.Proofs.NumericTotals
import StructuralModel.Proofs.RestatedPart
import StructuralModel.Proofs.DepthLimit
import StructuralModel.Proofs.ReferencedFeature
import StructuralModel.Proofs.StackDiscipline
import StructuralModel.Proofs.Blocks
import StructuralModel.Proofs.TopLevel
import StructuralModel.Proofs.Renumbering
import StructuralModel.Proofs.RenamedLookup
import StructuralModel.Proofs.LinkOrder
import StructuralModel.Proofs.DeclarationOrder
import StructuralModel.Proofs.ReachableReferences
import StructuralModel.Proofs.BuildingSteps
import StructuralModel.Proofs.QualifiedPaths
import StructuralModel.Proofs.TokenReading
import StructuralModel.Proofs.ExpressionTokens
import StructuralModel.Proofs.UnitText
import StructuralModel.Proofs.PrimaryReading
import StructuralModel.Proofs.ExpressionReading
import StructuralModel.Proofs.DeclarationTokens
import StructuralModel.Proofs.HeaderReading
import StructuralModel.Proofs.DeclarationReading
import StructuralModel.Proofs.UnitDiscipline
import StructuralModel.Proofs.Shadowing
import StructuralModel.Proofs.KeptResolution
import StructuralModel.Proofs.Extension
import StructuralModel.Proofs.ContinuedEvaluation
import StructuralModel.Proofs.DeclaredNames
import StructuralModel.Proofs.ContinuedLinking
import StructuralModel.Proofs.JoinedText
import StructuralModel.Proofs.EscapedText
import StructuralModel.Proofs.ParallelReading
import StructuralModel.Proofs.ParallelGrammar
import StructuralModel.Proofs.MovedDeclarations
import StructuralModel.Proofs.ContinuedReading
import StructuralModel.Proofs.AppendedDeclaration
import StructuralModel.Proofs.FeatureListing
import StructuralModel.Proofs.DerivedUnits
import StructuralModel.Proofs.Lexemes
import StructuralModel.Proofs.FloatModel
import StructuralModel.Proofs.NumberText
import StructuralModel.Proofs.WholeNumbers
import StructuralModel.Proofs.UnitReading
import StructuralModel.Proofs.RebuiltText
import StructuralModel.Proofs.UnitSpelling
import StructuralModel.Proofs.LexedText
import StructuralModel.Proofs.ExpressionSource
import StructuralModel.Proofs.BracketedUnit
import StructuralModel.Proofs.PrintedUnit
import StructuralModel.Proofs.PrintedExpression
import StructuralModel.Proofs.AddedFeature
import StructuralModel.Proofs.ShorthandKinds
import StructuralModel.Proofs.UnitArithmetic
import StructuralModel.Proofs.UnitGrammar
import StructuralModel.Proofs.CompatibleUnits
import StructuralModel.Proofs.WrittenRows
import StructuralModel.Proofs.EmptyElements
import StructuralModel.Proofs.AboutReferences
import StructuralModel.Proofs.CollectedMetadata
import StructuralModel.Proofs.CommentRows
import StructuralModel.Proofs.TextPlaces
import StructuralModel.Proofs.TokenTexts
import StructuralModel.Proofs.LexerTurns
import StructuralModel.Proofs.WholeWords
import StructuralModel.Proofs.PlacedReading
import StructuralModel.Proofs.PlacedDeclarations
import StructuralModel.Proofs.DiagnosticPlaces
import StructuralModel.Proofs.FailingCommands
import StructuralModel.Proofs.AbsolutePaths
import StructuralModel.Proofs.BreadthFirst
import StructuralModel.Proofs.PreorderWalk
