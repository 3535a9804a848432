import QueryAdmission.Http
import QueryAdmission.Settings.Sources
import QueryAdmission.Proofs.DepthWalk
import QueryAdmission.Proofs.PlainScore
import QueryAdmission.Proofs.Messages
import QueryAdmission.Proofs.Verdict
import QueryAdmission.Proofs.MatchingDocuments
import QueryAdmission.Proofs.Inlining
import QueryAdmission.Proofs.Prices
import QueryAdmission.Proofs.Growth
import QueryAdmission.Proofs.Padding
import QueryAdmission.Proofs.DepthReport
import QueryAdmission.Proofs.IntegerSpelling
import QueryAdmission.Proofs.ParsedLiterals
import QueryAdmission.Proofs.CountedFields
import QueryAdmission.Proofs.LimitsHold
import QueryAdmission.Proofs.StepEnding
import QueryAdmission.Proofs.LooserLimits
import QueryAdmission.Proofs.Reconciliation
import QueryAdmission.Proofs.MeantOperation
import QueryAdmission.Proofs.Executions
import QueryAdmission.Proofs.Engines
import QueryAdmission.Proofs.StandardEngine
import QueryAdmission.Proofs.Mediation
import QueryAdmission.Proofs.DepthLimit
import QueryAdmission.Proofs.IdleDefinitions
import QueryAdmission.Proofs.UncutScore
import QueryAdmission.Proofs.AcceptedSettings
import QueryAdmission.Proofs.Independence
import QueryAdmission.Proofs.SharedCaching
import QueryAdmission.Proofs.AskedFields
import QueryAdmission.Proofs.NestingLevels
import QueryAdmission.Proofs.ComparedKeys
import QueryAdmission.Proofs.KeyedSets
import QueryAdmission.Proofs.MergedFields
import QueryAdmission.Proofs.References
import QueryAdmission.Proofs.ReadMarks
import QueryAdmission.Proofs.StandardAnswers
import QueryAdmission.Proofs.QueriesAnswered
import QueryAdmission.Proofs.RaisedPrices
import QueryAdmission.Proofs.NegativeScores
import QueryAdmission.Proofs.Expansion
import QueryAdmission.Proofs.ExactSums
import QueryAdmission.Proofs.UnlimitedWalk
import QueryAdmission.Proofs.ResolvedFragments
import QueryAdmission.Proofs.FragmentNames
import QueryAdmission.Proofs.FirstMisread
import QueryAdmission.Proofs.EvaluationLog
import QueryAdmission.Proofs.StandardGates
import QueryAdmission.Proofs.MemoGrowth
import QueryAdmission.Proofs.WalkBudget
