import Armator.Host
import Armator.Registers
import Armator.Memory
import Armator.Core
import Armator.BranchOther
import Armator.DataProcessing
import Armator.LoadStore
import Armator.Instruction
import Armator.Lib.ByteStore
import Armator.MemoryCalls
import Armator.RegisterFile
import Armator.Decode
import Armator.Frame
import Armator.Branches
import Armator.Condition
import Armator.Flags
import Armator.Exceptions
import Armator.Arithmetic
import Armator.FlagArguments
import Armator.Lib.Shift
import Armator.ShifterOperand
import Armator.RegisterShift
import Armator.Lib.Logged
import Armator.Evaluation
import Armator.RegisterNumbers
import Armator.Lib.CString
import Armator.Lib.Lexer
import Armator.Lib.Packet
import Armator.GdbProtocol
import Armator.GdbReplies
import Armator.Continue
import Armator.Transfers
import Armator.Addressing
import Armator.BlockTransfers
import Armator.ShiftCounts
import Armator.Persistence
import Armator.GdbCodec
import Armator.GdbPackets
import Armator.Retransmission
import Armator.GdbRegisters
import Armator.GdbMemory
import Armator.PacketBounds
import Armator.GdbSingleRegister
import Armator.ByteOrder
import Armator.ByteReversal
import Armator.ScannerErrors
import Armator.Debug
import Armator.ByteStream
import Armator.Execution
import Armator.Session
import Armator.Lib.StringOrder
import Armator.Lib.Arm
import Armator.Lib.LastWrite
import Armator.Lib.SortedTable
import Armator.Scanner
import Armator.Listeners
import Armator.Liveness
import Armator.Lib.Mutex
import Armator.Simulation
import Armator.Lib.Machine
import Armator.Breakpoints
import Armator.Programs
import Armator.Target
import Armator.Transport
import Armator.Lib.Debugger
import Armator.Interrupts
import Armator.Inspection
import Armator.ControlFlow
import Armator.Survival
import Armator.Portability
import Armator.StraightLine
import Armator.Lib.Triple
