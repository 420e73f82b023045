import Dcpu.Machine.Event
import Dcpu.Slots.Request
import Dcpu.Main
import Dcpu.Proofs.Codegen.CallSites
import Dcpu.Proofs.Codegen.LoopVariables
import Dcpu.Proofs.Codegen.StructuredPrograms
import Dcpu.Proofs.Slots.Accounting
import Dcpu.Proofs.Slots.Refusals
import Dcpu.Proofs.Codegen.Bindings
import Dcpu.Proofs.Codegen.PrintedListings
import Dcpu.Proofs.Codegen.Confinement
import Dcpu.Proofs.Machine.Halting
import Dcpu.Proofs.Source.Tiling
import Dcpu.Proofs.Grammar.Viability
import Dcpu.Proofs.Grammar.Termination
import Dcpu.Proofs.Codegen.Renaming
import Dcpu.Proofs.Codegen.Sessions
import Dcpu.Proofs.Listing.RoundTrip
import Dcpu.Proofs.Slots.Stability
import Dcpu.Proofs.Machine.Stack
import Dcpu.Proofs.Codegen.Returns
import Dcpu.Proofs.Codegen.ExpressionSegments
import Dcpu.Proofs.Source.Rendering
import Dcpu.Proofs.Machine.Budgets
import Dcpu.Proofs.Codegen.RoutineNames
import Dcpu.Proofs.Codegen.Registration
import Dcpu.Proofs.Machine.Transfers
import Dcpu.Proofs.Codegen.Warnings
import Dcpu.Proofs.Codegen.ErrorPositions
