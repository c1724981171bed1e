import RobotHand.Json.Printing
import RobotHand.Json.Reading
import RobotHand.Link.Dialogue

/-! Requests and their answers as text on the wire. The connection ends with the answer. -/
namespace RobotHand.Wire

/-- Where a request goes: a host, a TCP endpoint of it, and a resource. -/
structure Target where
  host : String
  tcpPort : Nat := 80
  resource : String
  deriving DecidableEq, Repr

/-- The target of an address that starts with `http://`. -/
def target? (url : String) : Option Target :=
  match url.splitOn "/" with
  | "http:" :: "" :: authority :: names =>
    let resource := "/" ++ "/".intercalate names
    match authority.splitOn ":" with
    | [host, number] => number.toNat?.map fun tcpPort => { host, tcpPort, resource }
    | _ => some { host := authority, resource }
  | _ => none

def requestText (r : Request) (t : Target) : String :=
  let body := (r.body.map Json.compact).getD ""
  "\r\n".intercalate
    [r.method.name ++ " " ++ t.resource ++ " HTTP/1.0", "Host: " ++ t.host,
      "Content-Type: application/json", "Content-Length: " ++ toString body.utf8ByteSize, "", body]

/-- The head and the body of an answer, which a blank line parts. -/
def splitBody : List Char → List Char × List Char
  | '\r' :: '\n' :: '\r' :: '\n' :: body => ([], body)
  | c :: r => (c :: (splitBody r).1, (splitBody r).2)
  | [] => ([], [])

def outcome (answer : String) : Outcome :=
  let (head, body) := splitBody answer.toList
  match ((String.ofList head).splitOn " ").drop 1 with
  | status :: _ =>
    match status.toNat? with
    | some status =>
      .answered status (((Json.read? (String.ofList body)).map .ok).getD (.error "no JSON"))
    | none => .failed "no status"
  | [] => .failed "no answer"

end RobotHand.Wire
