/-! Computations on numbers that have no answer. -/
namespace RobotHand

/-- Why a number could not be computed, read, written or waited for. -/
inductive Breakdown
  /-- A range of width zero was divided by. -/
  | emptyRange
  /-- An integer lies beyond every finite double. -/
  | tooLarge
  /-- An integer literal has more digits than are read. -/
  | tooManyDigits (digits : Nat)
  /-- An integer has more digits than are written. -/
  | tooLongToWrite
  /-- A text, given in quoted form, is no integer literal. -/
  | notInteger (quoted : String)
  | nanToInteger
  | infinityToInteger
  /-- The clock does not reach to the end of a wait. -/
  | tooLongToWait
  deriving DecidableEq, Repr

namespace Breakdown

/-- How many digits of an integer are read or written as text. -/
def digitLimit : Nat := 4300

def quotedLimit : Nat := 200

def message : Breakdown → String
  | emptyRange => "float division by zero"
  | tooLarge => "int too large to convert to float"
  | tooManyDigits n =>
    "Exceeds the limit (" ++ toString digitLimit ++
      " digits) for integer string conversion: value has " ++ toString n ++
      " digits; use sys.set_int_max_str_digits() to increase the limit"
  | tooLongToWrite =>
    "Exceeds the limit (" ++ toString digitLimit ++
      " digits) for integer string conversion; use sys.set_int_max_str_digits() to increase the limit"
  | notInteger quoted =>
    "invalid literal for int() with base 10: " ++ String.ofList (quoted.toList.take quotedLimit)
  | nanToInteger => "cannot convert float NaN to integer"
  | infinityToInteger => "cannot convert float infinity to integer"
  | tooLongToWait => "timestamp out of range for platform time_t"

end Breakdown
end RobotHand
