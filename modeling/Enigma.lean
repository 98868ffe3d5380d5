import Enigma.Main
import Enigma.Proofs.Coverage
import Enigma.Proofs.Layout
import Enigma.Proofs.Generation
import Enigma.Proofs.Totality
import Enigma.Proofs.Emission
import Enigma.Proofs.Effects
import Enigma.Proofs.Literals
import Enigma.Proofs.Simulation
import Enigma.Proofs.Passes
import Enigma.Proofs.Joining
import Enigma.Proofs.Optimisation
import Enigma.Proofs.Seams
import Enigma.Proofs.Places
import Enigma.Proofs.Relexing
import Enigma.Proofs.Lineless
import Enigma.Proofs.Printing
import Enigma.Proofs.Constants
import Enigma.Proofs.Lifetimes
import Enigma.Proofs.Declarations
import Enigma.Proofs.Outcomes
import Enigma.Proofs.Quoting
import Enigma.Proofs.Checking
import Enigma.Proofs.Outline
import Enigma.Proofs.Viability
import Enigma.Proofs.Jumps
import Enigma.Proofs.Linking
import Enigma.Proofs.Locality
import Enigma.Proofs.Representation
import Enigma.Proofs.Expectation
import Enigma.Proofs.Folding
import Enigma.Proofs.Vocabulary
import Enigma.Proofs.Patterns
import Enigma.Proofs.Encoding
