import SmtEncoding.Encoder.Formulas
import SmtEncoding.Proofs.Constants
import SmtEncoding.Proofs.Registry
import SmtEncoding.Proofs.Simulation
import SmtEncoding.Recording.Backend
import SmtEncoding.Settings
import SmtEncoding.SmtLib.Backend
import SmtEncoding.SmtLib.Script
import SmtEncoding.Proofs.Session
import SmtEncoding.Proofs.Replay
import SmtEncoding.Proofs.Meaning
import SmtEncoding.Proofs.Reading
import SmtEncoding.Proofs.Soundness
import SmtEncoding.Proofs.Lexing
import SmtEncoding.Proofs.Script
import SmtEncoding.Proofs.Upkeep
import SmtEncoding.Proofs.VariableSorts
import SmtEncoding.Proofs.Interning
import SmtEncoding.Proofs.Capture
import SmtEncoding.Proofs.Moves
import SmtEncoding.Proofs.Creation
import SmtEncoding.Proofs.Verdict
import SmtEncoding.Proofs.IntegerOnly
import SmtEncoding.Proofs.Tree
import SmtEncoding.Proofs.Unfolding
import SmtEncoding.Proofs.Postorder
import SmtEncoding.Proofs.StrictMode
import SmtEncoding.Proofs.Naming
import SmtEncoding.Proofs.Occurrences
import SmtEncoding.Proofs.Requests
import SmtEncoding.Proofs.History
import SmtEncoding.Proofs.Predeclaration
import SmtEncoding.Proofs.Repetition
import SmtEncoding.Proofs.Equality
import SmtEncoding.Proofs.Comparison
import SmtEncoding.Proofs.Registration
import SmtEncoding.Proofs.Binary64
import SmtEncoding.Proofs.NumericLiterals
import SmtEncoding.Proofs.SymbolSearch
import SmtEncoding.Proofs.Declaration
import SmtEncoding.Proofs.Origins
import SmtEncoding.Proofs.Identity
import SmtEncoding.Proofs.CanonicalZeros
import SmtEncoding.Proofs.IndexedRegistry
import SmtEncoding.Proofs.Narration
import SmtEncoding.Proofs.Printing
import SmtEncoding.Proofs.Preorder
import SmtEncoding.Proofs.Spelling
import SmtEncoding.Proofs.IndexedDeclarations
