import Transducer.ArcCache
import Transducer.Binary32
import Transducer.Compact.Direct
import Transducer.Compact.File
import Transducer.Packing.Stock
import Transducer.Proofs.Agreement
import Transducer.Proofs.ArcTraits
import Transducer.Proofs.CacheAccounts
import Transducer.Proofs.CacheTransparency
import Transducer.Proofs.Checked
import Transducer.Proofs.CheckedExpansion
import Transducer.Proofs.CheckedQueries
import Transducer.Proofs.CheckedReading
import Transducer.Proofs.CheckedSearch
import Transducer.Proofs.CheckedSplitting
import Transducer.Proofs.CompositeGrammar
import Transducer.Proofs.CompositeText
import Transducer.Proofs.Consumption
import Transducer.Proofs.Continuations
import Transducer.Proofs.CursorRuns
import Transducer.Proofs.CycleSearch
import Transducer.Proofs.DeclaredTraits
import Transducer.Proofs.DecodedCounts
import Transducer.Proofs.Emission
import Transducer.Proofs.EpsilonCounts
import Transducer.Proofs.ExactCounts
import Transducer.Proofs.FailedMachines
import Transducer.Proofs.FileForm
import Transducer.Proofs.FileRoundTrip
import Transducer.Proofs.GatheredTraits
import Transducer.Proofs.HeaderForm
import Transducer.Proofs.KnownTraits
import Transducer.Proofs.LabelOrder
import Transducer.Proofs.LabelSearch
import Transducer.Proofs.LabelStrings
import Transducer.Proofs.LabelWalks
import Transducer.Proofs.LeastWeights
import Transducer.Proofs.LentRegions
import Transducer.Proofs.LimitedSink
import Transducer.Proofs.Lockstep
import Transducer.Proofs.MarkedAcceptors
import Transducer.Proofs.MarkedElements
import Transducer.Proofs.ObtainedMachines
import Transducer.Proofs.OrderlyReading
import Transducer.Proofs.Outcome
import Transducer.Proofs.OwnFormat
import Transducer.Proofs.Packable
import Transducer.Proofs.PackedView
import Transducer.Proofs.PackingLaw
import Transducer.Proofs.PlainReading
import Transducer.Proofs.PreparedPayload
import Transducer.Proofs.Preservation
import Transducer.Proofs.Reachability
import Transducer.Proofs.ReadSafety
import Transducer.Proofs.SelfDelimiting
import Transducer.Proofs.SourceIndependence
import Transducer.Proofs.StateGraph
import Transducer.Proofs.StockPackings
import Transducer.Proofs.StoreFile
import Transducer.Proofs.StoreInvariant
import Transducer.Proofs.StoreOfView
import Transducer.Proofs.StoreRows
import Transducer.Proofs.StoredStart
import Transducer.Proofs.StringShape
import Transducer.Proofs.SymbolBijection
import Transducer.Proofs.SymbolTables
import Transducer.Proofs.TableRoundTrip
import Transducer.Proofs.TraitWord
import Transducer.Proofs.TruthfulPositions
import Transducer.Proofs.ViewFacts
import Transducer.Proofs.WindowLaw
import Transducer.Summary
import Transducer.Weight.Composite
import Transducer.Weight.Text
