import CipherBoard.Main
import CipherBoard.Runner
import CipherBoard.Session
import CipherBoard.Proofs.Breaks
import CipherBoard.Proofs.Order
import CipherBoard.Proofs.Limit
import CipherBoard.Proofs.History
import CipherBoard.Proofs.Decoding
import CipherBoard.Proofs.Trail
import CipherBoard.Proofs.Entrances
import CipherBoard.Proofs.Margins
import CipherBoard.Proofs.Acceptance
import CipherBoard.Proofs.Chronicle
import CipherBoard.Proofs.Alphabet
import CipherBoard.Proofs.Arrival
import CipherBoard.Proofs.Geometry
import CipherBoard.Proofs.Steering
import CipherBoard.Proofs.Divergence
import CipherBoard.Proofs.Provisions
import CipherBoard.Proofs.Resolution
import CipherBoard.Proofs.Directory
import CipherBoard.Proofs.Tracing
import CipherBoard.Proofs.Forms
import CipherBoard.Proofs.Documents
import CipherBoard.Proofs.Occurrence
import CipherBoard.Proofs.Faults
import CipherBoard.Proofs.Conditions
import CipherBoard.Proofs.Keywords
import CipherBoard.Proofs.Collapse
import CipherBoard.Proofs.Rearrangement
import CipherBoard.Proofs.Spans
import CipherBoard.Proofs.Positions
import CipherBoard.Proofs.Links
import CipherBoard.Proofs.Counters
import CipherBoard.Proofs.Families
