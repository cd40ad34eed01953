import RowPipeline.Engine
import RowPipeline.Proofs.Engines
import RowPipeline.Proofs.OrderIndependence
import RowPipeline.Proofs.SubstitutedExpressions
import RowPipeline.Proofs.CacheKeys
import RowPipeline.Proofs.Pages
import RowPipeline.Proofs.Outcomes
import RowPipeline.Proofs.StepEngines
import RowPipeline.Proofs.PageIsolation
import RowPipeline.Proofs.DocumentChecks
import RowPipeline.Proofs.Places
import RowPipeline.Proofs.Decoding
import RowPipeline.Proofs.References
import RowPipeline.Proofs.ParameterReads
import RowPipeline.Proofs.StepReads
import RowPipeline.Proofs.CachedRuns
import RowPipeline.Proofs.CacheTransparency
import RowPipeline.Proofs.SharedKeys
import RowPipeline.Proofs.Printing
import RowPipeline.Proofs.SqlExpressions
import RowPipeline.Proofs.FilterTexts
import RowPipeline.Proofs.StatementStrings
import RowPipeline.Proofs.QueryColumns
import RowPipeline.Proofs.OrderedQueries
import RowPipeline.Proofs.GatedFilters
import RowPipeline.Proofs.Resubstitution
import RowPipeline.Proofs.PlannedQueries
import RowPipeline.Proofs.Reshaping
import RowPipeline.Proofs.CacheEntries
import RowPipeline.Proofs.CacheHits
import RowPipeline.Proofs.ExpressionReferences
import RowPipeline.Proofs.UnusedParameters
import RowPipeline.Proofs.DependencyCycles
import RowPipeline.Proofs.RunEvents
import RowPipeline.Proofs.Reencoding
import RowPipeline.Proofs.Cascades
import RowPipeline.Proofs.FilterMeaning
import RowPipeline.Proofs.WindowValues
import RowPipeline.Proofs.Wildcards
import RowPipeline.Proofs.Identification
import RowPipeline.Proofs.MixedOrder
import RowPipeline.Proofs.NestedLoops
import RowPipeline.Proofs.Enrichment
import RowPipeline.Proofs.TupleKeys
import RowPipeline.Proofs.SetOperations
import RowPipeline.Proofs.TableCells
import RowPipeline.Proofs.LongRows
import RowPipeline.Proofs.IntegerSums
import RowPipeline.Proofs.Coercions
import RowPipeline.Proofs.ResolvedParameters
import RowPipeline.Proofs.FilterRoundTrip
import RowPipeline.Proofs.EmbeddedLiterals
import RowPipeline.Proofs.CanonicalEquality
import RowPipeline.Proofs.FailurePolicies
import RowPipeline.Proofs.PageWindows
import RowPipeline.Proofs.BackslashEscapes
import RowPipeline.Proofs.CacheLifetimes
import RowPipeline.Proofs.ReplacedExpressions
import RowPipeline.Proofs.QualityChecks
import RowPipeline.Proofs.LiteralBounds
import RowPipeline.Proofs.Spans
