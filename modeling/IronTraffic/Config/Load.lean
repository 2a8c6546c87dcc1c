import IronTraffic.Foundation.Bytes

/-! # The guards on YAML text

`load` reads a bounded file as UTF-8 and counts brackets on the raw bytes before the parser runs.
The count is the most by which opening brackets outnumber closing ones in a stretch of the text.
A reader of YAML passes over the brackets in quoted strings and comments. The raw count is never
below the reader's depth as long as what the reader passes over holds no closing bracket.
-/

namespace IronTraffic.Config

open List

def isClosing (byte : UInt8) : Bool := byte = 93 ∨ byte = 125

/-- What the reader is in. A comment opens with a `#` after a space. -/
inductive Context where
  | flow (spaced : Bool)
  | quoted
  | comment

namespace Context

def next : Context → UInt8 → Context
  | flow spaced, byte =>
    if byte = 34 then quoted else if spaced ∧ byte = 35 then comment else flow (byte = 32)
  | quoted, byte => if byte = 34 then flow false else quoted
  | comment, byte => if byte = 10 then flow false else comment

def counts : Context → Bool
  | flow _ => true
  | _ => false

end Context

section

variable {byte : UInt8}

end

end IronTraffic.Config
