import WorkPriority.Main
import WorkPriority.Registry.Document
import WorkPriority.Proofs.FailureLocality
import WorkPriority.Proofs.FirstEntry
import WorkPriority.Proofs.HistoryIndependence
import WorkPriority.Proofs.LastWriter
import WorkPriority.Proofs.LevelsInStep
import WorkPriority.Proofs.NothingLost
import WorkPriority.Proofs.WholeCycles
import WorkPriority.Proofs.Ledgers
import WorkPriority.Proofs.Intake
import WorkPriority.Proofs.Plans
import WorkPriority.Proofs.BoundedStaleness
import WorkPriority.Proofs.Lifetimes
import WorkPriority.Proofs.NeutralSignals
import WorkPriority.Proofs.SpelledOut
import WorkPriority.Proofs.FloatBits
import WorkPriority.Proofs.NearestFloats
import WorkPriority.Proofs.ShortestDigits
import WorkPriority.Proofs.NumbersReadBack
import WorkPriority.Proofs.IntervalsReadBack
import WorkPriority.Proofs.ComparisonsReadBack
import WorkPriority.Proofs.TagsReadBack
import WorkPriority.Proofs.Absorption
import WorkPriority.Proofs.Cadences
import WorkPriority.Proofs.Capabilities
import WorkPriority.Proofs.RankedApart
import WorkPriority.Proofs.Accounts
import WorkPriority.Proofs.RankOrder
import WorkPriority.Proofs.Rounding
import WorkPriority.Proofs.Packing
import WorkPriority.Proofs.FloatArithmetic
import WorkPriority.Proofs.CleanDocuments
import WorkPriority.Proofs.Bands
import WorkPriority.Proofs.Conditions
import WorkPriority.Proofs.ScoreFormula
import WorkPriority.Proofs.ZonePartition
import WorkPriority.Proofs.OutdoorsSplit
import WorkPriority.Proofs.PopulationStatistics
import WorkPriority.Proofs.Rescaling
import WorkPriority.Proofs.Records
import WorkPriority.Proofs.Interpolation
import WorkPriority.Proofs.FilterGroups
import WorkPriority.Proofs.Subjects
import WorkPriority.Proofs.Negations
import WorkPriority.Proofs.MeasuredTags
import WorkPriority.Proofs.Reports
