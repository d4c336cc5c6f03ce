import Breadboard.Main
import Breadboard.Architecture.Micro
import Breadboard.Proofs.Cpu.StatusMirror
import Breadboard.Proofs.Cpu.Clearing
import Breadboard.Proofs.Processor.Journal
import Breadboard.Proofs.Processor.Fetch
import Breadboard.Proofs.Processor.FailedFetch
import Breadboard.Proofs.Mos6502.Disassembly
import Breadboard.Proofs.Mos6502.Stack
import Breadboard.Proofs.Board.Refusal
import Breadboard.Proofs.Board.Panels
import Breadboard.Proofs.Device.Isolation
import Breadboard.Proofs.Board.Isolation
import Breadboard.Proofs.Assembler.Classified
import Breadboard.Proofs.Assembler.Relative
import Breadboard.Proofs.Assembler.Saturation
import Breadboard.Proofs.Assembler.Labels
import Breadboard.Proofs.Mos6502.Branches
import Breadboard.Proofs.Assembler.Fields
import Breadboard.Proofs.Mos6502.Fields
import Breadboard.Proofs.Board.CurrentLine
import Breadboard.Proofs.Mos6502.Faults
import Breadboard.Proofs.Mos6502.Abort
import Breadboard.Proofs.Mos6502.Frame
import Breadboard.Proofs.Memory.LastWrite
import Breadboard.Proofs.Edu1.Refinement
import Breadboard.Proofs.Mos6502.Calls
import Breadboard.Proofs.Mos6502.CarryChain
import Breadboard.Proofs.Pattern.Grammar
import Breadboard.Proofs.Mos6502.Grammar
import Breadboard.Proofs.Device.Dispatch
import Breadboard.Proofs.Assembler.Symbols
import Breadboard.Proofs.Assembler.LabelNames
import Breadboard.Proofs.Assembler.DataWidth
import Breadboard.Proofs.Assembler.Edits
import Breadboard.Proofs.Assembler.Relocation
import Breadboard.Proofs.Board.Runs
import Breadboard.Proofs.Architecture.Index
import Breadboard.Proofs.Assembler.Comments
import Breadboard.Proofs.Device.Registration
import Breadboard.Proofs.Device.Lamps
import Breadboard.Proofs.Numeral
