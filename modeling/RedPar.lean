import RedPar.Lib.Runs
import RedPar.Lib.Program
import RedPar.Lib.Typestate
import RedPar.Lib.Monitor
import RedPar.Lib.Interference
import RedPar.Lib.Linearization
import RedPar.Lib.RelyGuarantee
import RedPar.Lib.SortedLinks
import RedPar.Lib.Objects
import RedPar.Lib.Bag
import RedPar.Lib.Chain
import RedPar.Model.RedisTypes
import RedPar.Model.Llca
import RedPar.Model.LlcaHeap
import RedPar.Model.RedisModule
import RedPar.Model.Commands
import RedPar.Model.EventQueue
import RedPar.Model.KeyHandles
import RedPar.Model.Clients
import RedPar.Model.SkipList
import RedPar.Model.SkipListSets
import RedPar.Proofs.LlcaList
import RedPar.Proofs.RdbRoundTrip
import RedPar.Proofs.LlcaHeap
import RedPar.Proofs.HeapRuns
import RedPar.Proofs.Snapshot
import RedPar.Proofs.Keyspace
import RedPar.Proofs.CommandSpec
import RedPar.Proofs.CommandLayer
import RedPar.Proofs.AofRewrite
import RedPar.Proofs.Observers
import RedPar.Proofs.Independence
import RedPar.Proofs.Propagation
import RedPar.Proofs.Steps
import RedPar.Proofs.History
import RedPar.Proofs.LifeCycle
import RedPar.Proofs.LockDiscipline
import RedPar.Proofs.LockBalance
import RedPar.Proofs.Monitors
import RedPar.Proofs.Interleaving
import RedPar.Proofs.Linearizability
import RedPar.Proofs.QueuedPath
import RedPar.Proofs.Multiplicity
import RedPar.Proofs.SetObjects
import RedPar.Proofs.EventNotes
import RedPar.Proofs.KeyHandles
import RedPar.Proofs.Arguments
import RedPar.Proofs.Refusals
import RedPar.Proofs.ObjectUse
import RedPar.Proofs.SkipListWorld
import RedPar.Proofs.SkipListActions
import RedPar.Proofs.SkipListMoves
import RedPar.Proofs.SkipListRules
import RedPar.Proofs.SkipListSafety
import RedPar.Proofs.SkipListSets
import RedPar.Proofs.SkipListRefinement
