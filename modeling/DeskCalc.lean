import DeskCalc.Main
import DeskCalc.Proofs.Printing
import DeskCalc.Proofs.Alphabet
import DeskCalc.Proofs.Effect
import DeskCalc.Proofs.Bits
import DeskCalc.Proofs.Readback
import DeskCalc.Proofs.Runs
import DeskCalc.Proofs.Restore
import DeskCalc.Proofs.Dependence
import DeskCalc.Proofs.Substitution
import DeskCalc.Proofs.Breaks
import DeskCalc.Proofs.Positions
import DeskCalc.Proofs.Mending
import DeskCalc.Proofs.Independence
import DeskCalc.Proofs.Dialogue
import DeskCalc.Proofs.History
import DeskCalc.Proofs.Spacing
import DeskCalc.Proofs.Diagnosis
import DeskCalc.Proofs.Logging
import DeskCalc.Proofs.Depth
import DeskCalc.Proofs.Assignment
import DeskCalc.Proofs.Shown
import DeskCalc.Proofs.Lexemes
import DeskCalc.Proofs.Bytes
import DeskCalc.Proofs.Scanning
import DeskCalc.Proofs.Listing
import DeskCalc.Proofs.Consumption
import DeskCalc.Proofs.Messages
import DeskCalc.Proofs.Progress
import DeskCalc.Proofs.Canonical
