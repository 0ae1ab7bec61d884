import QuantumKernel.Library.LinkedTable
import QuantumKernel.Library.BlockStore
import QuantumKernel.Library.Transition
import QuantumKernel.Library.LinkedRing
import QuantumKernel.Library.Memory32
import QuantumKernel.Library.I386
import QuantumKernel.Library.Pages
import QuantumKernel.Library.TableWalk
import QuantumKernel.Library.CStrings
import QuantumKernel.Library.Runs
import QuantumKernel.Ata
import QuantumKernel.AtaPorts
import QuantumKernel.Keyboard
import QuantumKernel.Fat32.Fat
import QuantumKernel.Fat32.Volume
import QuantumKernel.Fat32.VolumeSpec
import QuantumKernel.Fat32.Layout
import QuantumKernel.Fat32.FatTable
import QuantumKernel.Fat32.File
import QuantumKernel.Fat32.Chains
import QuantumKernel.Fat32.Slots
import QuantumKernel.Fat32.Entries
import QuantumKernel.Fat32.DirectorySpec
import QuantumKernel.Fat32.DirectoryEdits
import QuantumKernel.Fat32.FileSpec
import QuantumKernel.Fat32.WriteSpec
import QuantumKernel.Fat32.CallSpec
import QuantumKernel.Fat32.Calls
import QuantumKernel.Fat32.Ownership
import QuantumKernel.Fat32.Refinement
import QuantumKernel.Fat32.Consistency
import QuantumKernel.Fat32.Sessions
import QuantumKernel.Fat32.DirectoryMap
import QuantumKernel.Fat32.Frame
import QuantumKernel.Fat32.Names
import QuantumKernel.Fat32.WorkingDirectory
import QuantumKernel.Fat32.UnlinkFaults
import QuantumKernel.Fat32.StoredCalls
import QuantumKernel.Fat32.ByteFiles
import QuantumKernel.Fat32.ByteRefinement
import QuantumKernel.Fat32.ByteRuns
import QuantumKernel.Fat32.ReadRange
import QuantumKernel.Fat32.WriteSpace
import QuantumKernel.Fat32.FailedCreation
import QuantumKernel.Fat32.MountChecks
import QuantumKernel.Fat32.ScanEnds
import QuantumKernel.Fat32.FormatSpec
import QuantumKernel.Fat32.Ledger
import QuantumKernel.Fat32.CurrentPath
import QuantumKernel.Fat32.FailedChdir
import QuantumKernel.Syscall.Files
import QuantumKernel.Task.Tasks
import QuantumKernel.Task.Scheduler
import QuantumKernel.Task.TaskList
import QuantumKernel.Task.Creation
import QuantumKernel.Task.Termination
import QuantumKernel.Task.RoundRobin
import QuantumKernel.Task.Sleep
import QuantumKernel.Task.ContextSwitch
import QuantumKernel.Cpu.Exceptions
import QuantumKernel.Exec.ProgramImage
import QuantumKernel.Exec.AddressSpaces
import QuantumKernel.Exec.PagingInit
import QuantumKernel.Syscall.Close
import QuantumKernel.Fat32.Listing
import QuantumKernel.Fat32.SharedFile
import QuantumKernel.Syscall.Leaks
import QuantumKernel.Mm.Free
import QuantumKernel.Net.Order
import QuantumKernel.Net.Ping
import QuantumKernel.Net.Agreement
import QuantumKernel.Net.Receive
import QuantumKernel.Net.RingSync
import QuantumKernel.Net.RoundTrip
import QuantumKernel.Net.Checksum
import QuantumKernel.Syscall.Structures
import QuantumKernel.Syscall.Descriptors
import QuantumKernel.Pci.BusTree
import QuantumKernel.Lib.Strings
import QuantumKernel.Lib.PrintNum
import QuantumKernel.Fat32.OwnData
import QuantumKernel.Fat32.ShortNames
import QuantumKernel.Shell.Tokens
import QuantumKernel.Shell.Line
import QuantumKernel.Mouse
import QuantumKernel.Rtc
import QuantumKernel.Lib.Printf
import QuantumKernel.Console.Overlay
import QuantumKernel.Fat32.Confinement
import QuantumKernel.Fat32.PowerLoss
import QuantumKernel.Shell.Parsing
import QuantumKernel.Cpu.Gdt
import QuantumKernel.Cpu.Interrupts
import QuantumKernel.Cpu.SystemCalls
