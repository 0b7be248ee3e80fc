import FilterQuery.Engine
import FilterQuery.Filter.Serial
import FilterQuery.Json.Reader
import FilterQuery.Settings.Reader
import FilterQuery.Proofs.Bindings
import FilterQuery.Proofs.FilterMeaning
import FilterQuery.Proofs.QueryKinds
import FilterQuery.Proofs.Wrapping
import FilterQuery.Proofs.Placeholders
import FilterQuery.Proofs.LeafAcceptance
import FilterQuery.Proofs.LeafVerdict
import FilterQuery.Proofs.FixedText
import FilterQuery.Proofs.RelatedRows
import FilterQuery.Proofs.Reordering
import FilterQuery.Proofs.EmptyParts
import FilterQuery.Proofs.AccessCheck
import FilterQuery.Proofs.SelectNames
import FilterQuery.Proofs.JoinedRows
import FilterQuery.Proofs.Precedence
import FilterQuery.Proofs.NaturalPayload
import FilterQuery.Proofs.Backends
import FilterQuery.Proofs.EngineHistory
import FilterQuery.Proofs.Conservation
import FilterQuery.Proofs.CheckRuns
import FilterQuery.Proofs.KeyBytes
import FilterQuery.Proofs.AnalysisRuns
import FilterQuery.Proofs.Degradation
import FilterQuery.Proofs.OrderAcceptance
import FilterQuery.Proofs.Independence
import FilterQuery.Proofs.BuilderLaws
import FilterQuery.Proofs.DirectOperators
import FilterQuery.Proofs.RequestBodies
import FilterQuery.Proofs.EmptyLists
import FilterQuery.Proofs.JoinEconomy
import FilterQuery.Proofs.ValuesReadBack
import FilterQuery.Proofs.TextPatterns
import FilterQuery.Proofs.EscapedPatterns
import FilterQuery.Proofs.NullPlacement
import FilterQuery.Proofs.CountGrowth
import FilterQuery.Proofs.AdaptiveLimits
import FilterQuery.Proofs.TypeNames
import FilterQuery.Proofs.EnumMembers
import FilterQuery.Proofs.PlanTables
import FilterQuery.Proofs.VersionText
import FilterQuery.Proofs.OrderPayload
import FilterQuery.Proofs.RegistrationHistory
import FilterQuery.Proofs.RegistryHistory
import FilterQuery.Proofs.FilledTemplates
import FilterQuery.Proofs.QuotedNames
import FilterQuery.Proofs.HeldOperands
