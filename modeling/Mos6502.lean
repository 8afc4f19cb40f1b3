import Mos6502.Main
import Mos6502.Proofs.Displacement
import Mos6502.Proofs.Fallible
import Mos6502.Proofs.Layout
import Mos6502.Proofs.Numerals
import Mos6502.Proofs.OpcodeMap
import Mos6502.Proofs.Selection
import Mos6502.Proofs.Emission
import Mos6502.Proofs.Patching
import Mos6502.Proofs.Linking
import Mos6502.Proofs.Branches
import Mos6502.Proofs.Decoding
import Mos6502.Proofs.Encoding
import Mos6502.Proofs.LineText
import Mos6502.Proofs.OperandPatterns
import Mos6502.Proofs.OperandGrammar
import Mos6502.Proofs.SourceForm
import Mos6502.Proofs.Labels
import Mos6502.Proofs.Reassembly
import Mos6502.Proofs.RoundTrip
import Mos6502.Proofs.Tiling
import Mos6502.Proofs.Listing
import Mos6502.Proofs.Declarations
import Mos6502.Proofs.Alignment
import Mos6502.Proofs.Destinations
import Mos6502.Proofs.Representation
import Mos6502.Proofs.Trimming
import Mos6502.Proofs.LineGrammar
import Mos6502.Proofs.Faults
import Mos6502.Proofs.Rereading
import Mos6502.Proofs.Replacement
import Mos6502.Proofs.OutputFile
import Mos6502.Proofs.Acceptance
import Mos6502.Proofs.ControlFlow
import Mos6502.Proofs.Renaming
import Mos6502.Proofs.ImageFormats
import Mos6502.Proofs.Continuation
import Mos6502.Proofs.LabelLines
import Mos6502.Proofs.SymbolOrder
import Mos6502.Proofs.DeclarationLines
import Mos6502.Proofs.AddressNumerals
import Mos6502.Proofs.OperandWidth
import Mos6502.Proofs.TextLayout
import Mos6502.Proofs.BranchDistances
import Mos6502.Proofs.ExternTable
import Mos6502.Proofs.Margins
