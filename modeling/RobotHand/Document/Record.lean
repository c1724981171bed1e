import RobotHand.Document.Checked
import RobotHand.Json.Reading
import RobotHand.Table

/-! Lists, tables and records in documents. -/
namespace RobotHand.Document

open Checked

variable {α : Type}

def list (check : Json → Checked α) : Json → Checked (List α)
  | .array items => .all (items.mapIdx fun i v => (check v).under (.item i))
  | _ => complain .notList

/-- Null, or what a check accepts. -/
def nullable (check : Json → Checked α) : Json → Checked (Option α)
  | .null => ok none
  | v => some <$> check v

/-- Fields of any names; of fields with one name all are checked, and the last counts. -/
def table (check : Json → Checked α) : Json → Checked (Table String α)
  | .object fields =>
    Table.ofList <$> .all (fields.map fun (name, v) =>
      (fun a => (name, a)) <$> (check v).under (.field name))
  | _ => complain .notTable

/-- A field goes by its name in documents or by a second name, and the first is preferred.
Complaints cite the first. -/
structure Name where
  primary : String
  secondary : String := primary
  deriving DecidableEq, Repr

def Name.find? (n : Name) (fields : List (String × Json)) : Option Json :=
  Json.lastField? n.primary fields <|> Json.lastField? n.secondary fields

/-- Fields of known names; others are ignored. -/
def record (check : List (String × Json) → Checked α) : Json → Checked α
  | .object fields => check fields
  | _ => complain .notRecord

def required (n : Name) (check : Json → Checked α) (fields : List (String × Json)) : Checked α :=
  (match n.find? fields with
  | some v => check v
  | none => complain .missing).under (.field n.primary)

/-- A field with a value for documents that lack it. -/
def optional (n : Name) (default : α) (check : Json → Checked α)
    (fields : List (String × Json)) : Checked α :=
  match n.find? fields with
  | some v => (check v).under (.field n.primary)
  | none => ok default

def read (check : Json → Checked α) (s : String) : Checked α :=
  match Json.read? s with
  | some v => check v
  | none => complain .notJson

end RobotHand.Document
