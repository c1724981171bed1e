/-! What a JSON document gets wrong, and where. -/
namespace RobotHand.Document

/-- One step on the way from the top of a document to a part of it. -/
inductive Step
  | field (name : String)
  | item (index : Nat)
  deriving DecidableEq, Repr

/-- What is wrong with a part of a document. -/
inductive Fault
  /-- The text is no JSON at all. -/
  | notJson
  /-- A required field is missing. -/
  | missing
  /-- An object with known fields was needed. -/
  | notRecord
  | notList
  /-- An object with arbitrary fields was needed. -/
  | notTable
  | notReal
  /-- A text does not write a number. -/
  | unreadableReal
  | notInteger
  /-- A text does not write an integer. -/
  | unreadableInteger
  /-- A number that should be an integer has a fraction. -/
  | fractional
  /-- A number that should be an integer is not finite. -/
  | notFinite
  /-- An integer has more digits than are read. -/
  | tooLarge
  | notText
  /-- A text is none of those allowed. -/
  | notChoice
  | belowMinimum
  | notAboveBound
  deriving DecidableEq, Repr

namespace Fault

def message : Fault → String
  | notJson => "no JSON"
  | missing => "a field is missing"
  | notRecord | notTable => "no object"
  | notList => "no list"
  | notReal | unreadableReal => "no number"
  | notInteger | unreadableInteger | fractional | notFinite => "no integer"
  | tooLarge => "too large"
  | notText => "no text"
  | notChoice => "not allowed"
  | belowMinimum | notAboveBound => "too small"

end Fault

namespace Step

def text : Step → String
  | field name => name
  | item i => toString i

end Step

structure Complaint where
  fault : Fault
  path : List Step
  deriving DecidableEq, Repr

def Complaint.message (c : Complaint) : String :=
  ".".intercalate (c.path.map Step.text) ++ ": " ++ c.fault.message

end RobotHand.Document
