import IronTraffic.Foundation.Bytes
import IronTraffic.Foundation.Fallible

/-! # Names of certificates

The one normalization of names: presented names and configured names both go through
`normalize`. Names are byte strings, and a label ends at a dot.
-/

namespace IronTraffic.Tls

def maxNameLen : Nat := 253

def maxLabels : Nat := 127

inductive NameError where
  | empty | tooLong | tooManyLabels | emptyLabel | labelTooLong | illegalByte | hyphenAtLabelEdge
  deriving DecidableEq

inductive WildcardError where
  | notWildcard | partialWildcard

def validateLabel (label : Bytes) : Except NameError Unit :=
  if label.isEmpty then .error .emptyLabel
  else if 63 < label.length then .error .labelTooLong
  else if label.head? = some hyphen ∨ label.getLast? = some hyphen then .error .hyphenAtLabelEdge
  else .ok ()

def endLabel (label : Bytes) (labelCount : Nat) : Except NameError Unit := do
  validateLabel label
  if maxLabels < labelCount + 1 then throw .tooManyLabels

/-- The loop of `normalize`. `label` holds the bytes since `label_start`. -/
def normalizeFrom : Bytes → Bytes → Nat → Bytes → Except NameError Bytes
  | [], label, labelCount, out => do
    endLabel label labelCount
    return out
  | byte :: rest, label, labelCount, out =>
    if byte = dot then do
      endLabel label labelCount
      normalizeFrom rest [] (labelCount + 1) (out ++ [dot])
    else if isAsciiUppercase byte then
      normalizeFrom rest (label ++ [byte]) labelCount (out ++ [byte ||| 32])
    else if isAsciiLowercase byte || isAsciiDigit byte || byte == hyphen then
      normalizeFrom rest (label ++ [byte]) labelCount (out ++ [byte])
    else .error .illegalByte

def stripDot (raw : Bytes) : Bytes := if raw.getLast? = some dot then raw.dropLast else raw

def normalize (raw : Bytes) : Except NameError Bytes :=
  let bytes := stripDot raw
  if bytes.isEmpty then .error .empty
  else if maxNameLen < bytes.length then .error .tooLong
  else normalizeFrom bytes [] 0 []

def parent : Bytes → Option Bytes
  | [] => none
  | byte :: rest => if byte = dot then some rest else parent rest

def wildcardParent (raw : Bytes) : Except WildcardError Bytes :=
  match raw with
  | 42 :: 46 :: rest => if star ∈ rest then .error .partialWildcard else .ok rest
  | _ => .error (if star ∈ raw then .partialWildcard else .notWildcard)

def labelCount (name : Bytes) : Nat := name.count dot + 1

end IronTraffic.Tls
