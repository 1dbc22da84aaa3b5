import Fixity.Proofs.Parse.Chains
import Fixity.Proofs.Parse.Concatenation
import Fixity.Proofs.Reading.Nesting

/-! # How high parsed programs are

The limit bounds the height of a parsed body apart from left operands, which are read in a loop. -/

namespace Fixity

namespace Grammar

variable {grammar : Grammar} {progress : Progress} {program : Program} {stop : Token}

end Grammar

end Fixity
