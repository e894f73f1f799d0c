import FormulaMatch.Description
import FormulaMatch.Formula.Stored
import FormulaMatch.Options.Stored
import FormulaMatch.Proofs.Acceptance
import FormulaMatch.Proofs.Recognition
import FormulaMatch.Proofs.Bars
import FormulaMatch.Proofs.Conservation
import FormulaMatch.Proofs.Enumeration
import FormulaMatch.Proofs.Equivalence
import FormulaMatch.Proofs.Explanation
import FormulaMatch.Proofs.Indifference
import FormulaMatch.Proofs.Juxtaposition
import FormulaMatch.Proofs.Leniency
import FormulaMatch.Proofs.Literals
import FormulaMatch.Proofs.Locality
import FormulaMatch.Proofs.Recovery
import FormulaMatch.Proofs.Removals
import FormulaMatch.Proofs.Representation
import FormulaMatch.Proofs.Rereading
import FormulaMatch.Proofs.Roots
import FormulaMatch.Proofs.Safety
import FormulaMatch.Proofs.Sessions
import FormulaMatch.Proofs.Stopping
import FormulaMatch.Proofs.Storage
import FormulaMatch.Proofs.Wrapping
import FormulaMatch.Session
