import Aggregation.Main
import Aggregation.Service
import Aggregation.Proofs.Machine
import Aggregation.Proofs.Cycle
import Aggregation.Proofs.Dependence
import Aggregation.Proofs.Skeleton
import Aggregation.Proofs.StaticFault
import Aggregation.Proofs.Blame
import Aggregation.Proofs.Unregistered
import Aggregation.Proofs.Renaming
import Aggregation.Proofs.Issues
import Aggregation.Proofs.DirectoryLoading
import Aggregation.Proofs.CheckedCatalog
import Aggregation.Proofs.LoadLog
import Aggregation.Proofs.ServiceRun
import Aggregation.Proofs.CompileLog
import Aggregation.Proofs.CommandRun
import Aggregation.Proofs.CatalogState
import Aggregation.Proofs.Conditions
import Aggregation.Proofs.StoredDefinition
import Aggregation.Proofs.ParamsRoundTrip
import Aggregation.Proofs.Splitting
import Aggregation.Proofs.TermOrder
import Aggregation.Proofs.OmittedTerms
import Aggregation.Proofs.Sorting
import Aggregation.Proofs.OperatorCheck
import Aggregation.Proofs.SortEntries
import Aggregation.Proofs.NestedBindings
import Aggregation.Proofs.ParamsGrammar
import Aggregation.Proofs.Rendering
import Aggregation.Proofs.LogLine
import Aggregation.Proofs.FrameReuse
