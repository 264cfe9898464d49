import MicroDebug.CommandLine.StandardInput
import MicroDebug.Main
import MicroDebug.Proofs.Expression.Evaluation
import MicroDebug.Proofs.Instruction.RoundTrip
import MicroDebug.Proofs.Processor.Countdown
import MicroDebug.Proofs.Machine.Stores
import MicroDebug.Proofs.Machine.Footprint
import MicroDebug.Proofs.Processor.AllOrNothing
import MicroDebug.Proofs.Debugger.Commands
import MicroDebug.Proofs.Debugger.Session
import MicroDebug.Proofs.Processor.Calls
import MicroDebug.Proofs.Processor.Backtraces
import MicroDebug.Proofs.Debugger.Ticks
import MicroDebug.Proofs.Processor.Jumps
import MicroDebug.Proofs.Debugger.Finish
import MicroDebug.Proofs.Debugger.Resume
import MicroDebug.Proofs.Debugger.Cancellation
import MicroDebug.Proofs.Debugger.StepCount
import MicroDebug.Proofs.Debugger.Hits
import MicroDebug.Proofs.Expression.Assigning
import MicroDebug.Proofs.Expression.Typing
import MicroDebug.Proofs.Expression.Lexemes
import MicroDebug.Proofs.Expression.Lexing
import MicroDebug.Proofs.Expression.SyntaxErrors
import MicroDebug.Proofs.Expression.Spans
import MicroDebug.Proofs.Machine.ConstantGenerator
import MicroDebug.Proofs.Processor.ConstantGenerator
import MicroDebug.Proofs.Processor.GateCalls
import MicroDebug.Proofs.Trace.Condensing
import MicroDebug.Proofs.Trace.FirstPass
import MicroDebug.Proofs.Processor.ControlBits
import MicroDebug.Proofs.Debugger.Hosts
import MicroDebug.Proofs.Processor.StraightLine
import MicroDebug.Proofs.Debugger.Reset
import MicroDebug.Proofs.Debugger.Looking
import MicroDebug.Proofs.Processor.CarryChains
import MicroDebug.Proofs.Trace.SimpleLoops
import MicroDebug.Proofs.Trace.Recording
import MicroDebug.Proofs.Processor.Onlookers
import MicroDebug.Proofs.Processor.LineInput
import MicroDebug.Proofs.Machine.Decimal
import MicroDebug.Proofs.Processor.DecimalSums
import MicroDebug.Proofs.Processor.Comparisons
import MicroDebug.Proofs.Instruction.Spelling
import MicroDebug.Proofs.Processor.CurrentLine
import MicroDebug.Proofs.Debugger.MemoryWindow
import MicroDebug.Proofs.Expression.Storing
import MicroDebug.Proofs.Host.KeyLine
import MicroDebug.Proofs.Debugger.Repeats
import MicroDebug.Proofs.Host.HexLines
import MicroDebug.Proofs.Memory.Images
import MicroDebug.Proofs.Instruction.Rows
import MicroDebug.Proofs.Expression.Reporting
