import FlowRecovery.Service.Connection
import FlowRecovery.Service.Execution

/-!
# The server for directed execution

The server waits for clients. A request names a program and routes, line by line; the server
executes the program along the routes and answers with the addresses that come after them. It goes
on until no more clients come.
-/

namespace FlowRecovery

/-- A server, and what it has done. -/
structure Server where
  host : Host := {}
  runs : List (List Run) := []
  launches : List Launch := []
  output : String := ""
  journal : Journal := []

namespace Server

/-- How a server ends. -/
inductive Ending where
  | stopped
  | exited (code : Int)
  | failed (f : Fault)

def usage : String := "Usage: Python manticoreServer.py [port number]\n"

def programArguments : List String := List.replicate 3 (String.ofList (List.replicate 20 '+'))

def write (i : Importance) (s : String) : FaultyM Server Unit :=
  modify (fun x => { x with journal := x.journal ++ [⟨i, s⟩] })

def onHost {α : Type} (a : FaultyM Host α) : FaultyM Server α :=
  FaultyM.focus (fun (s : Server) => s.host) (fun h s => { s with host := h }) a

def execute (program : String) (rs : Routes) : FaultyM Server Targets := do
  let s ← get
  let launch : Launch := ⟨program, programArguments⟩
  set { s with runs := s.runs.tail, launches := s.launches ++ [launch] }
  let (r, x) := (Execution.direct rs (s.runs.headD [])).run.run {}
  modify (fun s => { s with journal := s.journal ++ x.journal })
  match r with
  | .ok () => return x.targets
  | .error f => throw f

def serve (request : String) : FaultyM Server Unit := do
  let lines := Text.split '\n' request
  let program := lines.headD ""
  let rs : Routes := (← Routes.read lines.tail).map (·.route)
  write .progress ("Program: " ++ program)
  write .progress ("Number of paths received: " ++ toString rs.length)
  let t ← execute program rs
  let ps ← rs.pairs (t.toList.map (fun (n, ts) => ((n : Int), ts)))
  let answer := answerText (ps.mergeSort (fun a b => decide (a ≤ b)))
  write .detail ("Sending: " ++ answer)
  onHost (Host.answer answer)

def faultText : Fault → String
  | .misencoded p => Encoding.problemText p
  | _ => ""

def attend : Nat → FaultyM Server Unit
  | 0 => return
  | fuel + 1 => do
    let s ← get
    let (r, host) := Host.request.run.run s.host
    set { s with host }
    match r with
    | .ok request =>
      serve request
      attend fuel
    | .error .disconnected => write .progress "Client disconnected"
    | .error f => modify (fun s => { s with output := s.output ++ "Exception:" ++ faultText f ++ "\n" })

def loop : Nat → FaultyM Server Unit
  | 0 => return
  | fuel + 1 => do
    write .progress "Waiting for connection.."
    onHost Host.connect
    write .progress "Connection received!"
    let pieces := match ← onHost Host.client with
      | (_, c) => c.incoming.length
    attend (pieces + 1)
    loop fuel

def run (arguments : List String) (clients : List Connection) (runs : List (List Run)) : Ending × Server :=
  let start : Server := { host := { clients }, runs }
  match arguments with
  | _ :: endpoint :: _ =>
    let work : FaultyM Server Unit := do
      write .progress "Starting server.."
      let endpoint ← Integer.read 10 endpoint
      modify (fun s => { s with host := Host.open_ endpoint clients })
      loop (clients.length + 1)
    match work.run.run start with
    | (.ok (), s) | (.error .unattended, s) => (.stopped, s)
    | (.error f, s) => (.failed f, s)
  | _ => (.exited 0, { start with output := usage })

end Server

end FlowRecovery
