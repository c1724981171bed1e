import RobotHand.Document.Complaint

/-! Results of checks that report every fault, and not the first one only. -/
namespace RobotHand.Document

/-- A value, or the complaints that stand against it. -/
inductive Checked (α : Type)
  | ok (value : α)
  | rejected (complaints : List Complaint)
  deriving Repr

namespace Checked

variable {α β : Type}

def complain (f : Fault) : Checked α := .rejected [⟨f, []⟩]

def map (f : α → β) : Checked α → Checked β
  | ok a => ok (f a)
  | rejected cs => rejected cs

/-- Applies a function to a value; the complaints of both sides are kept. -/
def apply : Checked (α → β) → Checked α → Checked β
  | ok f, ok a => ok (f a)
  | ok _, rejected cs => rejected cs
  | rejected cs, ok _ => rejected cs
  | rejected cs, rejected ds => rejected (cs ++ ds)

instance : Applicative Checked where
  pure := ok
  map := map
  seq f a := apply f (a ())

/-- A further check, made of a value that is accepted so far. -/
def andThen (c : Checked α) (f : α → Checked β) : Checked β :=
  match c with
  | ok a => f a
  | rejected cs => rejected cs

/-- A check of a part, seen from the whole. -/
def under (s : Step) : Checked α → Checked α
  | ok a => ok a
  | rejected cs => rejected (cs.map fun c => { c with path := s :: c.path })

def all : List (Checked α) → Checked (List α)
  | [] => ok []
  | c :: cs => List.cons <$> c <*> all cs

/-- The value with the proof that it satisfies a condition. -/
def satisfying (p : α → Prop) [DecidablePred p] (f : Fault) (a : α) : Checked { a // p a } :=
  if h : p a then ok ⟨a, h⟩ else complain f

def toExcept : Checked α → Except (List Complaint) α
  | ok a => .ok a
  | rejected cs => .error cs

end Checked
end RobotHand.Document
