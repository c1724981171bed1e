import RobotHand.CommandLine.Report
import RobotHand.Link.Wire
import Std.Async

/-! The program. It gives the commands the files that they name, and talks to the robot. -/
namespace RobotHand.Program

open Std.Async

partial def receive (socket : TCP.Socket.Client) (sofar : ByteArray) : Async ByteArray := do
  match ← socket.recv? 65536 with
  | some part => receive socket (sofar ++ part)
  | none => return sofar

def milliseconds (seconds : Float) : Std.Time.Millisecond.Offset :=
  .ofNat (max 0 (seconds * 1000)).toUInt64.toNat

def exchange (r : Request) (t : Wire.Target) : Async Outcome := do
  let addresses ← DNS.getAddrInfo t.host "" (some .ipv4)
  match addresses[0]? with
  | some (Std.Net.IPAddr.v4 host) =>
    let socket ← TCP.Socket.Client.mk
    socket.connect (.v4 ⟨host, t.tcpPort.toUInt16⟩)
    socket.send (Wire.requestText r t).toUTF8
    let answer ← receive socket .empty
    return match String.fromUTF8? answer with
      | some answer => Wire.outcome answer
      | none => .failed "the answer is no text"
  | _ => return .failed "the host is unknown"

/-- The outcome of a request; the robot has a limited time to answer. -/
def send (r : Request) : IO Outcome := do
  match Wire.target? r.url with
  | none => return .failed "the address is malformed"
  | some t =>
    let late : Async Outcome := do
      sleep (milliseconds r.timeout)
      return .failed "the robot is late"
    try (Async.race (exchange r t) late).block
    catch e => return .failed (toString e)

def converse {α : Type} : Dialogue α → IO α
  | .done a => return a
  | .ask r next => do converse (next (← send r))
  | .close next => converse next
  | .wait seconds next => do
    (sleep (milliseconds seconds)).block
    converse next

/-- The files with some names; what cannot be read counts as a folder. -/
def collect (names : List String) : IO FileTree :=
  names.foldlM (fun tree (name : String) => do
    try return tree.put (Path.ofText name) (.file (← IO.FS.readFile name))
    catch
      | .noFileOrDirectory .. => return tree
      | _ => return tree.put (Path.ofText name) .folder) .empty

end RobotHand.Program

open RobotHand in
def main (texts : List String) : IO UInt32 := do
  let tree ← Program.collect (CommandLine.filesOf texts)
  let report ← Program.converse (CommandLine.run tree texts)
  IO.print report.output
  match report.ending with
  | .ok status => return status.toUInt32
  | .error e =>
    IO.eprintln e.message
    return 1
