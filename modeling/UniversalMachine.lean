import UniversalMachine.CommandLine
import UniversalMachine.Main
import UniversalMachine.Proofs.StoreInvariant
import UniversalMachine.Proofs.StoreHistory
import UniversalMachine.Proofs.Step
import UniversalMachine.Proofs.StepLimit
import UniversalMachine.Proofs.InputStream
import UniversalMachine.Proofs.InstructionTable
import UniversalMachine.Proofs.DeviceFailure
import UniversalMachine.Proofs.Ending
import UniversalMachine.Proofs.FaultTable
import UniversalMachine.Proofs.FailedStep
import UniversalMachine.Proofs.ImageLoading
import UniversalMachine.Proofs.LoadedMachine
import UniversalMachine.Proofs.FieldPacking
import UniversalMachine.Proofs.ImageWords
import UniversalMachine.Proofs.InstructionWord
import UniversalMachine.Proofs.ImageReading
import UniversalMachine.Proofs.ListedProgram
import UniversalMachine.Proofs.HandleReuse
import UniversalMachine.Proofs.SideBySide
import UniversalMachine.Proofs.OutputRefusal
import UniversalMachine.Proofs.AlikeChannels
import UniversalMachine.Proofs.Arrival
import UniversalMachine.Proofs.Transcript
import UniversalMachine.Proofs.TableSize
import UniversalMachine.Proofs.SpareHandle
import UniversalMachine.Proofs.UnreadSegment
import UniversalMachine.Proofs.UnreadInput
import UniversalMachine.Proofs.Executed
import UniversalMachine.Proofs.JumpProgress
import UniversalMachine.Proofs.StoppedMachine
import UniversalMachine.Proofs.ProfileBalance
import UniversalMachine.Proofs.StoreEvents
import UniversalMachine.Proofs.RunLog
import UniversalMachine.Proofs.FieldShifts
import UniversalMachine.Proofs.SignedField
import UniversalMachine.Proofs.FieldExactness
import UniversalMachine.Proofs.PackingOrder
import UniversalMachine.Proofs.StoreInPlace
import UniversalMachine.Proofs.StoreLiveness
import UniversalMachine.Proofs.ProfileReport
import UniversalMachine.Proofs.ByteReads
import UniversalMachine.Proofs.ReliableDevices
import UniversalMachine.Proofs.KnownProgram
import UniversalMachine.Proofs.EchoProgram
import UniversalMachine.Proofs.CountedLoop
import UniversalMachine.Proofs.Disassembly
import UniversalMachine.Proofs.OperandSlots
import UniversalMachine.Proofs.CheckedFields
import UniversalMachine.Proofs.CheckedMachine
