import BytecodeRegions.Manifest
import BytecodeRegions.Workspace
import BytecodeRegions.Proofs.Acceptance
import BytecodeRegions.Proofs.Rejection
import BytecodeRegions.Proofs.Runs
import BytecodeRegions.Proofs.CallGraph.Circle
import BytecodeRegions.Proofs.Table.Regions
import BytecodeRegions.Proofs.Recursion
import BytecodeRegions.Proofs.Table.Questions
import BytecodeRegions.Proofs.Safety
import BytecodeRegions.Proofs.Table.Remembering
import BytecodeRegions.Proofs.Listing.Forms
import BytecodeRegions.Proofs.Listing.LineByLine
import BytecodeRegions.Proofs.Mnemonics
import BytecodeRegions.Proofs.Listing.Listable
import BytecodeRegions.Proofs.Listing.Printed
import BytecodeRegions.Proofs.Listing.Reread
import BytecodeRegions.Proofs.Listing.RoundTrip
import BytecodeRegions.Proofs.Slots
import BytecodeRegions.Proofs.DeadCode
import BytecodeRegions.Proofs.Listing.Meaning
import BytecodeRegions.Proofs.Listing.Clauses
import BytecodeRegions.Proofs.Listing.Failures
import BytecodeRegions.Proofs.Nesting
import BytecodeRegions.Proofs.Lifecycle
import BytecodeRegions.Proofs.ReadOnly
import BytecodeRegions.Proofs.Mirror
import BytecodeRegions.Proofs.SameOutcome
import BytecodeRegions.Proofs.Listing.Preserved
import BytecodeRegions.Proofs.Listing.LabelFree
import BytecodeRegions.Proofs.Figures
import BytecodeRegions.Proofs.SlotClosure
import BytecodeRegions.Proofs.CallSites
import BytecodeRegions.Proofs.Registration
import BytecodeRegions.Proofs.DotTitle
import BytecodeRegions.Proofs.Json.Reader
import BytecodeRegions.Proofs.Json.RoundTrip
import BytecodeRegions.Proofs.Serialisation
