import FlatMachine.CommandLine.Program
import FlatMachine.Main
import FlatMachine.Session.Machine
import FlatMachine.Proofs.Storage
import FlatMachine.Proofs.Actions
import FlatMachine.Proofs.HeapSafety
import FlatMachine.Proofs.BootImage
import FlatMachine.Proofs.BootRefusal
import FlatMachine.Proofs.Devices
import FlatMachine.Proofs.StoreTrace
import FlatMachine.Proofs.Printing
import FlatMachine.Proofs.GuestHeap
import FlatMachine.Proofs.ScriptRun
import FlatMachine.Proofs.Effects
import FlatMachine.Proofs.MachineEffects
import FlatMachine.Proofs.PrintPaths
import FlatMachine.Proofs.Exhaustion
import FlatMachine.Proofs.HeapStrings
import FlatMachine.Proofs.AlignedBlocks
import FlatMachine.Proofs.StringRequests
import FlatMachine.Proofs.AlignedRefinement
import FlatMachine.Proofs.OutputText
import FlatMachine.Proofs.ProgramRun
import FlatMachine.Proofs.WordAccess
import FlatMachine.Proofs.AllocationSums
import FlatMachine.Proofs.AlignedStarts
import FlatMachine.Proofs.HeaderCodec
import FlatMachine.Proofs.LayoutMachine
import FlatMachine.Proofs.Numerals
import FlatMachine.Proofs.DumpText
import FlatMachine.Proofs.BlockWrites
import FlatMachine.Proofs.Handshakes
import FlatMachine.Proofs.PlainStorage
import FlatMachine.Proofs.RamPrinting
import FlatMachine.Proofs.OptionOrder
