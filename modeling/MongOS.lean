import MongOS.Verified.Run
import MongOS.Verified.Linked
import MongOS.Model.Types
import MongOS.Model.FileSys
import MongOS.Model.Screen
import MongOS.Model.Keyboard
import MongOS.Proofs.ReadData
import MongOS.Model.Descriptor
import MongOS.Model.Process
import MongOS.Model.System
import MongOS.Proofs.ProcTable
import MongOS.Proofs.ProcForest
import MongOS.Proofs.SavedFrames
import MongOS.Proofs.SampleImage
import MongOS.Proofs.ScreenFrame
import MongOS.Proofs.DescriptorCalls
import MongOS.Proofs.FileReads
import MongOS.Verified.TextScreen
import MongOS.Proofs.Painting
import MongOS.Proofs.Display
import MongOS.Verified.LineEditor
import MongOS.Proofs.LineDiscipline
import MongOS.Model.Machine
import MongOS.Proofs.MachineTable
import MongOS.Proofs.KernelStacks
import MongOS.Proofs.MachineInvariant
import MongOS.Proofs.Preemption
import MongOS.Proofs.DirListing
import MongOS.Proofs.ExecuteChecks
import MongOS.Proofs.ExitStatus
import MongOS.Proofs.DescriptorTable
import MongOS.Proofs.ProcSteps
import MongOS.Proofs.VirtualRtc
import MongOS.Proofs.VideoSteps
import MongOS.Proofs.VideoMap
import MongOS.Proofs.ReadAccess
import MongOS.Proofs.NameLookup
import MongOS.Proofs.RejectedImage
import MongOS.Proofs.DirBuffer
import MongOS.Proofs.CommandLine
import MongOS.Proofs.FnameReads
import MongOS.Proofs.Arguments
import MongOS.Verified.BitField
import MongOS.Model.Paging
import MongOS.Proofs.PageMap
import MongOS.Verified.TextRows
import MongOS.Proofs.ScreenRows
import MongOS.Proofs.TerminalReads
import MongOS.Proofs.KeyBounds
import MongOS.Proofs.KeyLines
import MongOS.Proofs.ModifierKeys
import MongOS.Proofs.RtcTiming
import MongOS.Model.CopyMemory
import MongOS.Proofs.WordCopy
import MongOS.Model.Fish
import MongOS.Proofs.BlinkList
import MongOS.Proofs.BlinkPhases
import MongOS.Verified.Scrollback
import MongOS.Proofs.KeyEcho
import MongOS.Proofs.EchoLine
import MongOS.Verified.Calls
import MongOS.Verified.Segments
import MongOS.Model.Library
import MongOS.Proofs.Numerals
import MongOS.Proofs.Printf
import MongOS.Proofs.KernelMessages
import MongOS.Model.UserPrograms
import MongOS.Proofs.UserCalls
import MongOS.Proofs.FilePrograms
import MongOS.Proofs.GrepLines
import MongOS.Model.Interleaving
import MongOS.Proofs.KernelSteps
import MongOS.Proofs.Isolation
import MongOS.Proofs.JobRuns
import MongOS.Model.StringOps
import MongOS.Proofs.StringOps
import MongOS.Verified.WordStack
import MongOS.Model.EntryCode
import MongOS.Proofs.InterruptGates
import MongOS.Proofs.EntryCode
import MongOS.Proofs.ReturnPaths
import MongOS.Verified.SideBySide
import MongOS.Verified.Periodic
import MongOS.Model.FishFrames
import MongOS.Proofs.FishFrames
import MongOS.Proofs.FishScreen
import MongOS.Model.InterruptController
import MongOS.Proofs.InterruptController
