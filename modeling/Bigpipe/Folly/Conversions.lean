import Bigpipe.Folly.Dynamic

/-!
# `Bigpipe.Folly.Conversions`: numbers and arrays of `folly::dynamic`

`Conversions` is what the program uses of `folly::to` when it reads a
number out of a `folly::dynamic`. The conversions of numbers throw
where they would change the number, so only their checks are
parameters: what a conversion gives, where it gives something, is the
number itself.

A text in the place of a number is converted too, so a configuration
may have its numbers in quotes. How such a text is read is up to the
library, and is a parameter as well.
-/

set_option autoImplicit false

namespace Bigpipe

/-- What `asInt` and `asDouble` use of `folly::to`. It is a parameter:
the results hold of every conversion, and those that need more say
which numbers must come through unchanged. -/
structure Conversions where
  /-- `folly::to<int64_t>` of a `double`: throws where it is not an
  `int64_t`. -/
  checkInt : ℚ → Except String Unit
  /-- `folly::to<double>` of an `int64_t`: throws where it is not a
  `double`. -/
  checkDouble : Int → Except String Unit
  /-- `folly::to<int64_t>` of a string. -/
  textToInt : String → Except String Int
  /-- `folly::to<double>` of a string. -/
  textToDouble : String → Except String ℚ

namespace Folly

variable (folly : Folly) (conv : Conversions)

/-- `asInt`: the integer itself, and any other scalar through
`folly::to`. An object, an array or a null has the wrong type, which
throws. -/
def asInt : Dynamic → Except String Int
  | .num (.int i) => .ok i
  | .num (.double x) => do
    conv.checkInt x
    return x.floor
  | .bool b => .ok (if b then 1 else 0)
  | .str s => conv.textToInt s
  | d => .error (folly.typeError "int/double/bool/string" d)

/-- `asDouble`: as `asInt`, with the two kinds of number the other way
round. -/
def asDouble : Dynamic → Except String ℚ
  | .num (.int i) => do
    conv.checkDouble i
    return i
  | .num (.double x) => .ok x
  | .bool b => .ok (if b then 1 else 0)
  | .str s => conv.textToDouble s
  | d => .error (folly.typeError "int/double/bool/string" d)

/-- The range of `begin()` and `end()`. -/
def elements : Dynamic → Except String (List Dynamic)
  | .arr elements => .ok elements
  | d => .error (folly.typeError "array" d)

end Folly

end Bigpipe
