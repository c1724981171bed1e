/-! JSON values. -/
namespace RobotHand

/-- A JSON value. Integers and other numbers are told apart as they are written, and the fields of
an object keep their order, repeated ones included. -/
inductive Json
  | null
  | bool (value : Bool)
  | int (value : Int)
  | real (value : Float)
  | text (value : String)
  | array (items : List Json)
  | object (fields : List (String × Json))
  deriving Repr, Inhabited

namespace Json

def lastField? (name : String) (fields : List (String × Json)) : Option Json :=
  (fields.reverse.find? fun f => f.1 = name).map (·.2)

end Json
end RobotHand
