import CallFlow.CommandLine.Folder
import CallFlow.Flow.Document
import CallFlow.Graph.Document
import CallFlow.Json.Settled
import CallFlow.Main
import CallFlow.Options.Document
import CallFlow.Proofs.Acceptance
import CallFlow.Proofs.Allocations
import CallFlow.Proofs.Analysis
import CallFlow.Proofs.Assembly.Programs
import CallFlow.Proofs.Binding
import CallFlow.Proofs.Calling
import CallFlow.Proofs.Ceiling
import CallFlow.Proofs.ComputedKeys
import CallFlow.Proofs.ConfigurationFiles
import CallFlow.Proofs.Construction.Bound
import CallFlow.Proofs.Construction.Instructions
import CallFlow.Proofs.Construction.Termination
import CallFlow.Proofs.Contexts
import CallFlow.Proofs.Dataflow
import CallFlow.Proofs.Documents
import CallFlow.Proofs.EditDistance
import CallFlow.Proofs.Extension
import CallFlow.Proofs.FiniteSets
import CallFlow.Proofs.Flow.Finding
import CallFlow.Proofs.Flow.Queue
import CallFlow.Proofs.Forgetting
import CallFlow.Proofs.HandedNumbers
import CallFlow.Proofs.IdSet
import CallFlow.Proofs.Inheritance
import CallFlow.Proofs.Interruption
import CallFlow.Proofs.LeastSolution
import CallFlow.Proofs.Lookups
import CallFlow.Proofs.Precision
import CallFlow.Proofs.PropertyNames
import CallFlow.Proofs.Recounts
import CallFlow.Proofs.Redispatch
import CallFlow.Proofs.Resolution
import CallFlow.Proofs.Schedule
import CallFlow.Proofs.Storage
import CallFlow.Proofs.Tables
import CallFlow.Proofs.Termination
import CallFlow.Proofs.UnknownKeys
import CallFlow.Proofs.Visits
import CallFlow.Proofs.Wakeups
