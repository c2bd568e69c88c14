import VirtualMemory.AddressSpace.Fork
import VirtualMemory.AddressSpace.Lifecycle
import VirtualMemory.AddressSpace.Range
import VirtualMemory.AddressSpace.Switch
import VirtualMemory.Bookkeeping.FramePool
import VirtualMemory.Bookkeeping.Occupancy
import VirtualMemory.Bookkeeping.Shares
import VirtualMemory.Bookkeeping.Spaces
import VirtualMemory.Bookkeeping.Statistics
import VirtualMemory.Entry.Basic
import VirtualMemory.Entry.Flags
import VirtualMemory.Entry.Protection
import VirtualMemory.Error.Code
import VirtualMemory.Error.Failure
import VirtualMemory.Error.Report
import VirtualMemory.Fault.Kind
import VirtualMemory.Fault.Policy
import VirtualMemory.Fault.Resolve
import VirtualMemory.Fault.UserWrite
import VirtualMemory.FlagSet
import VirtualMemory.Interrupt.Lock
import VirtualMemory.Kernel.Basic
import VirtualMemory.Kernel.Boot
import VirtualMemory.Kernel.Directory
import VirtualMemory.Kernel.Event
import VirtualMemory.Kernel.Pages
import VirtualMemory.Kernel.Sharing
import VirtualMemory.Kernel.Tables
import VirtualMemory.Kernel.Window
import VirtualMemory.Layout
import VirtualMemory.Layout.Checked
import VirtualMemory.Machine.Basic
import VirtualMemory.Machine.Inspect
import VirtualMemory.Machine.Walk
import VirtualMemory.Memory.Digest
import VirtualMemory.Memory.Page
import VirtualMemory.Memory.PerfectTree
import VirtualMemory.Memory.Ram
import VirtualMemory.Memory.Table
import VirtualMemory.Proofs.Boot.Handover
import VirtualMemory.Proofs.Boot.Loader
import VirtualMemory.Proofs.Boot.Roles
import VirtualMemory.Proofs.Boot.Start
import VirtualMemory.Proofs.Bus
import VirtualMemory.Proofs.Calls.Additions
import VirtualMemory.Proofs.Calls.Basic
import VirtualMemory.Proofs.Calls.Conservation
import VirtualMemory.Proofs.Calls.Effects
import VirtualMemory.Proofs.Calls.Faults
import VirtualMemory.Proofs.Calls.Flags
import VirtualMemory.Proofs.Calls.Forks
import VirtualMemory.Proofs.Calls.HugePages
import VirtualMemory.Proofs.Calls.Isolation
import VirtualMemory.Proofs.Calls.Lifetimes
import VirtualMemory.Proofs.Calls.Mounts
import VirtualMemory.Proofs.Calls.Overlays
import VirtualMemory.Proofs.Calls.PageStores
import VirtualMemory.Proofs.Calls.PageWork
import VirtualMemory.Proofs.Calls.Pages
import VirtualMemory.Proofs.Calls.Progress
import VirtualMemory.Proofs.Calls.Protection
import VirtualMemory.Proofs.Calls.RangeRights
import VirtualMemory.Proofs.Calls.Ranges
import VirtualMemory.Proofs.Calls.Refusals
import VirtualMemory.Proofs.Calls.Releases
import VirtualMemory.Proofs.Calls.Residence
import VirtualMemory.Proofs.Calls.Rights
import VirtualMemory.Proofs.Calls.Runs
import VirtualMemory.Proofs.Calls.SelfMap
import VirtualMemory.Proofs.Calls.Staleness
import VirtualMemory.Proofs.Calls.Stored
import VirtualMemory.Proofs.Calls.Supervision
import VirtualMemory.Proofs.Calls.Switches
import VirtualMemory.Proofs.Calls.TableCounts
import VirtualMemory.Proofs.Calls.Translations
import VirtualMemory.Proofs.Calls.UserStores
import VirtualMemory.Proofs.Calls.Windows
import VirtualMemory.Proofs.Charts.Additions
import VirtualMemory.Proofs.Charts.Basic
import VirtualMemory.Proofs.Charts.Pages
import VirtualMemory.Proofs.Charts.Ranges
import VirtualMemory.Proofs.Charts.Spaces
import VirtualMemory.Proofs.Counts
import VirtualMemory.Proofs.Entries
import VirtualMemory.Proofs.Frames
import VirtualMemory.Proofs.Locks
import VirtualMemory.Proofs.Operations.Exposed
import VirtualMemory.Proofs.Operations.Fault
import VirtualMemory.Proofs.Operations.Fork
import VirtualMemory.Proofs.Operations.Forking
import VirtualMemory.Proofs.Operations.Frames
import VirtualMemory.Proofs.Operations.Lifecycle
import VirtualMemory.Proofs.Operations.Pages
import VirtualMemory.Proofs.Operations.Ranges
import VirtualMemory.Proofs.Operations.Steady
import VirtualMemory.Proofs.Operations.Switch
import VirtualMemory.Proofs.Operations.Windows
import VirtualMemory.Proofs.Outline.Basic
import VirtualMemory.Proofs.Outline.Faults
import VirtualMemory.Proofs.Outline.Fork
import VirtualMemory.Proofs.Outline.Pages
import VirtualMemory.Proofs.Outline.Spaces
import VirtualMemory.Proofs.Ownership.Basic
import VirtualMemory.Proofs.Ownership.Pages
import VirtualMemory.Proofs.Ownership.Release
import VirtualMemory.Proofs.Ownership.Rights
import VirtualMemory.Proofs.Ownership.Settled
import VirtualMemory.Proofs.Ownership.Spaces
import VirtualMemory.Proofs.Ownership.Tables
import VirtualMemory.Proofs.Places
import VirtualMemory.Proofs.Sharing.Contents
import VirtualMemory.Proofs.Sharing.Counted
import VirtualMemory.Proofs.Sharing.Eager
import VirtualMemory.Proofs.Sharing.Guarded
import VirtualMemory.Proofs.Sharing.Ledger
import VirtualMemory.Proofs.Sharing.Mappings
import VirtualMemory.Proofs.Sharing.Memory
import VirtualMemory.Proofs.Sharing.References
import VirtualMemory.Proofs.Sharing.Tidy
import VirtualMemory.Proofs.Sharing.UserPages
import VirtualMemory.Proofs.Snapshot
import VirtualMemory.Proofs.Twins.Basic
import VirtualMemory.Proofs.Twins.Faults
import VirtualMemory.Proofs.Twins.Fork
import VirtualMemory.Proofs.Twins.Pages
import VirtualMemory.Proofs.Twins.Spaces
import VirtualMemory.Proofs.Twins.Tables
import VirtualMemory.Proofs.Wiring
import VirtualMemory.Text.Hex
