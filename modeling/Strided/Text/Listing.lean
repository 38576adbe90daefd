/-!
# Lists in running text

How a list is written inside a sentence or a shape: items separated by a comma and a blank, in
braces for the axes of a shape and in brackets for a list of sizes in a message.
-/

namespace Strided.Text

/-- The items, separated by a comma and a blank. -/
def commas (items : List String) : String :=
  ", ".intercalate items

/-- The items in braces, as axes are written. -/
def braced (items : List String) : String :=
  "\x7b" ++ commas items ++ "\x7d"

/-- The items in brackets, as a list of sizes is written in a message. -/
def bracketed (items : List String) : String :=
  "[" ++ commas items ++ "]"

end Strided.Text
