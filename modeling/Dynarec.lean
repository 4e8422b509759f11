import Dynarec.Instruction.Listing
import Dynarec.Host.Emitter
import Dynarec.Host.Listing
import Dynarec.Engine.Step
import Dynarec.Command.Basic
import Dynarec.Main
import Dynarec.Proofs.Integer
import Dynarec.Proofs.Isolation
import Dynarec.Proofs.Faults
import Dynarec.Proofs.Truncation
import Dynarec.Proofs.PageMap
import Dynarec.Proofs.Regions
import Dynarec.Proofs.Reset
import Dynarec.Proofs.Budget
import Dynarec.Proofs.Emission
import Dynarec.Proofs.Stack
import Dynarec.Proofs.Confinement
import Dynarec.Proofs.Aliases
import Dynarec.Proofs.Journal
import Dynarec.Proofs.Images
import Dynarec.Proofs.Accounting
import Dynarec.Proofs.Naming
import Dynarec.Proofs.Addressing
import Dynarec.Proofs.Comparison
import Dynarec.Proofs.ByteMap
import Dynarec.Proofs.Windows
import Dynarec.Proofs.BlockMoves
import Dynarec.Proofs.Restarts
import Dynarec.Proofs.Searches
import Dynarec.Proofs.RegisterStack
import Dynarec.Proofs.Lanes
import Dynarec.Proofs.Bits
import Dynarec.Proofs.Tiling
import Dynarec.Proofs.Creation
import Dynarec.Proofs.Numerals
import Dynarec.Proofs.Counters
