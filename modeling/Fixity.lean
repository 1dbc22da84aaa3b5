import Fixity.Main
import Fixity.Proofs.CommandLine.Sections
import Fixity.Proofs.Cursor.Agreement
import Fixity.Proofs.Derivation.Acceptance
import Fixity.Proofs.Descent.Limit
import Fixity.Proofs.Operator.History
import Fixity.Proofs.Outline.Uniqueness
import Fixity.Proofs.Outline.Visits
import Fixity.Proofs.Parse.Blame
import Fixity.Proofs.Parse.Chains
import Fixity.Proofs.Parse.Commas
import Fixity.Proofs.Parse.Completion
import Fixity.Proofs.Parse.Finality
import Fixity.Proofs.Parse.Height
import Fixity.Proofs.Parse.Lookups
import Fixity.Proofs.Parse.Reweighing
import Fixity.Proofs.Parse.Spacing
import Fixity.Proofs.Parse.Specified
import Fixity.Proofs.Program.Atoms
import Fixity.Proofs.Reading.Numerals
import Fixity.Proofs.Reading.Regrouping
import Fixity.Proofs.Shell.Blocks
import Fixity.Proofs.Shell.Conversation
import Fixity.Proofs.Shell.Cut
import Fixity.Proofs.Shell.Uses
import Fixity.Proofs.Token.Factorisation
import Fixity.Proofs.Token.Misplaced
import Fixity.Proofs.Token.Terminator
