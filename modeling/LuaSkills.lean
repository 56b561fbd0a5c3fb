import LuaSkills.Embedded.Broker.Runs
import LuaSkills.Embedded.Governor.Permits
import LuaSkills.Embedded.Journal.Runs
import LuaSkills.Embedded.Journal.Worker.Runs
import LuaSkills.Embedded.Operation.Agreement
import LuaSkills.Embedded.Operation.Budget
import LuaSkills.Embedded.Operation.Direct
import LuaSkills.Embedded.Operation.Finalization
import LuaSkills.Embedded.Operation.Reconcilable
import LuaSkills.Embedded.Registry.Publication
import LuaSkills.Lifecycle.Atomicity
import LuaSkills.SessionEvents.Queue
import LuaSkills.SkillConfig.Polling
import LuaSkills.Dependency.Cleanup
import LuaSkills.Download.Runs
import LuaSkills.Ffi.TransportRuns
import LuaSkills.RuntimeLease.Execution
import LuaSkills.ProcessSession.Runs
import LuaSkills.ManagedSessions.Runs
import LuaSkills.Embedded.Scheduler.Pressure
import LuaSkills.Embedded.Broker.Batch
import LuaSkills.Embedded.Operations.Listing
import LuaSkills.Embedded.Pools.Runs
import LuaSkills.SkillConfig.Agreement
import LuaSkills.SkillConfig.Redaction
import LuaSkills.ToolCache.Histories
import LuaSkills.HostPath.Safety
import LuaSkills.Archive.Formats
import LuaSkills.Dependency.Completeness
import LuaSkills.EntryRegistry.Names
import LuaSkills.Data.GenerationFile
import LuaSkills.Data.JsonFields
import LuaSkills.Data.JsonSyntax
import LuaSkills.Data.Simulations
import LuaSkills.Data.TextLines
import LuaSkills.FileWatcher.Accounts
import LuaSkills.FileWatcher.Runs
import LuaSkills.HostResult.Acceptance
import LuaSkills.HostResult.Delivery
import LuaSkills.ManagedIo.Flush
import LuaSkills.ManagedIo.Publication
import LuaSkills.ManagedIo.Reference
import LuaSkills.RuntimeLease.Listing
import LuaSkills.RuntimeLease.Snapshots
import LuaSkills.Data.StepDecoders
import LuaSkills.Data.Utf8Lossy
import LuaSkills.Ffi.JsonGuard
import LuaSkills.Ffi.JsonScan
import LuaSkills.ProcessOutput.Decoders
import LuaSkills.ProcessOutput.Markers
import LuaSkills.Data.Utf8Checked
import LuaSkills.Download.Utf8File
import LuaSkills.VmPool.Pool
import LuaSkills.VmPool.Runs
