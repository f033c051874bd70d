import ChironFs.Lib.Run
import ChironFs.Lib.TwoRuns
import ChironFs.Lib.Cycle
import ChironFs.Lib.Round
import ChironFs.Lib.Probe
import ChironFs.Lib.Credentials
import ChironFs.Lib.Permissions
import ChironFs.Lib.Overlay
import ChironFs.Lib.Wire
import ChironFs.Lib.Mixing
import ChironFs.Lib.Simulation
import ChironFs.Lib.Lagging
import ChironFs.Model.Types
import ChironFs.Model.Log
import ChironFs.Model.Table
import ChironFs.Model.Replicas
import ChironFs.Model.Handlers
import ChironFs.Model.Requests
import ChironFs.Model.Mount
import ChironFs.Model.Session
import ChironFs.Model.Stores
import ChironFs.Model.Kernel
import ChironFs.Model.Disk
import ChironFs.Model.Probing
import ChironFs.Model.LinkBuffer
import ChironFs.Model.Administration
import ChironFs.Model.Sample
import ChironFs.Model.Interleaved
import ChironFs.Model.Contents
import ChironFs.Model.Threads
import ChironFs.Model.Control
import ChironFs.Model.ControlThread
import ChironFs.Spec.Loops
import ChironFs.Spec.Conclusion
import ChironFs.Spec.Shapes
import ChironFs.Spec.Requests
import ChironFs.Spec.Served
import ChironFs.Spec.Outcomes
import ChironFs.Spec.Stores
import ChironFs.Spec.Tries
import ChironFs.Spec.Congruence
import ChironFs.Spec.Vectors
import ChironFs.Spec.Disk
import ChironFs.Spec.HandleIo
import ChironFs.Spec.Creation
import ChironFs.Spec.Records
import ChironFs.Spec.Identity
import ChironFs.Spec.OneCopy
import ChironFs.Spec.World
import ChironFs.Spec.Handles
import ChironFs.Spec.Tables
import ChironFs.Spec.Session
import ChironFs.Spec.Untouched
import ChironFs.Spec.Interleaved
import ChironFs.Spec.Atomic
import ChironFs.Spec.Parallel
import ChironFs.Spec.Alone
import ChironFs.Spec.Control
import ChironFs.Results.Disabling
import ChironFs.Results.Policy
import ChironFs.Results.Choice
import ChironFs.Results.Fairness
import ChironFs.Results.LastReplica
import ChironFs.Results.Slots
import ChironFs.Results.Readers
import ChironFs.Results.Progress
import ChironFs.Results.Tracking
import ChironFs.Results.Transparency
import ChironFs.Results.Atomicity
import ChironFs.Results.Ownership
import ChironFs.Results.SingleThreaded
import ChironFs.Results.Availability
import ChironFs.Results.ConcurrentWrites
import ChironFs.Results.HandleTable
import ChironFs.Results.TableSize
import ChironFs.Results.Probing
import ChironFs.Results.HashBalance
import ChironFs.Results.ExactlyOnce
import ChironFs.Results.FailedCreate
import ChironFs.Results.CreateOpen
import ChironFs.Results.Descriptors
import ChironFs.Results.Administration
import ChironFs.Results.ReplicaList
import ChironFs.Results.ListFormat
import ChironFs.Results.Search
import ChironFs.Results.LinkBuffer
import ChironFs.Results.Isolation
import ChironFs.Results.Logging
import ChironFs.Results.Privilege
import ChironFs.Results.AccessCheck
import ChironFs.Results.Groups
import ChironFs.Results.Success
import ChironFs.Results.Statistics
import ChironFs.Results.ShortWrites
import ChironFs.Results.Threads
import ChironFs.Results.Agreement
import ChironFs.Results.ReplicaOrder
import ChironFs.Results.ControlProtocol
import ChironFs.Results.ControlSessions
import ChironFs.Results.ControlInput
import ChironFs.Results.PrintedPath
