import PlsqlAudit.Main
import PlsqlAudit.Proofs.Origins
import PlsqlAudit.Detection.Tally
import PlsqlAudit.Proofs.Visits
import PlsqlAudit.Proofs.SearchAccount
import PlsqlAudit.Proofs.AllowListGrowth
import PlsqlAudit.Proofs.ExpressionSpelling
import PlsqlAudit.Proofs.NameKeys
import PlsqlAudit.Proofs.Pointing
import PlsqlAudit.Proofs.RoutineFlow
import PlsqlAudit.Proofs.DirectFlow
import PlsqlAudit.Proofs.DottedText
import PlsqlAudit.Proofs.Lowering
import PlsqlAudit.Proofs.Numbering
import PlsqlAudit.Proofs.QualifiedCalls
import PlsqlAudit.Proofs.Mirror
import PlsqlAudit.Proofs.MirroredFlow
import PlsqlAudit.Proofs.RoutineIsolation
import PlsqlAudit.Proofs.BlockTransparency
import PlsqlAudit.Proofs.Embedding
import PlsqlAudit.Proofs.Following
import PlsqlAudit.Proofs.EmbeddedExpressions
import PlsqlAudit.Proofs.EmbeddedBodies
import PlsqlAudit.Proofs.EmbeddedStatements
import PlsqlAudit.Proofs.EmbeddedUnits
import PlsqlAudit.Proofs.LineBreaks
import PlsqlAudit.Proofs.JoinedPrograms
import PlsqlAudit.Proofs.JoinedAnalysis
import PlsqlAudit.Proofs.SideBySide
import PlsqlAudit.Proofs.SameLetters
import PlsqlAudit.Proofs.NestedSpans
import PlsqlAudit.Proofs.OneTree
import PlsqlAudit.Proofs.RecasedTokens
import PlsqlAudit.Proofs.RecasedPrograms
import PlsqlAudit.Proofs.Progress
import PlsqlAudit.Proofs.NodeLayout
import PlsqlAudit.Proofs.TokenGaps
import PlsqlAudit.Proofs.LoneTokens
import PlsqlAudit.Proofs.MessageLines
import PlsqlAudit.Proofs.KeptNames
import PlsqlAudit.Proofs.ForwardRuns
import PlsqlAudit.Proofs.LevelReaders
import PlsqlAudit.Proofs.ReadBack
import PlsqlAudit.Proofs.Precedence
import PlsqlAudit.Proofs.RoundTrip
import PlsqlAudit.Proofs.InitialValues
import PlsqlAudit.Proofs.ReportOrder
import PlsqlAudit.Proofs.SharedSearches
import PlsqlAudit.Proofs.EnclosingRoutine
import PlsqlAudit.Proofs.ScreenedSites
import PlsqlAudit.Proofs.RecursiveSearch
import PlsqlAudit.Proofs.ScopeChains
import PlsqlAudit.Proofs.ExclusionPatterns
import PlsqlAudit.Proofs.ForeignDirectories
import PlsqlAudit.Proofs.JsonText
import PlsqlAudit.Proofs.ReportText
import PlsqlAudit.Proofs.SarifRegions
import PlsqlAudit.Proofs.SarifRules
import PlsqlAudit.Proofs.FindingCounts
import PlsqlAudit.Proofs.SkippedNodes
