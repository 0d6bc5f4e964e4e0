import FlowRecovery.Service.Encoding
import FlowRecovery.Service.Frame

/-!
# Connections

A host waits for connections at an endpoint, and talks with one client at a time. What clients send
comes in pieces of limited size.
-/

namespace FlowRecovery

/-- What is received at once. -/
structure Piece where
  bytes : List UInt8
  isLast : Bool

namespace Piece

def limit : Nat := 1024

/-- What is received of bytes that are sent at once; `fuel` bounds the number of pieces. -/
def splitTo : Nat → List UInt8 → List Piece
  | 0, bytes => [⟨bytes, true⟩]
  | fuel + 1, bytes =>
    if bytes.length ≤ limit then [⟨bytes, true⟩] else ⟨bytes.take limit, false⟩ :: splitTo fuel (bytes.drop limit)

def split (bytes : List UInt8) : List Piece := splitTo bytes.length bytes

end Piece

/-- A client. -/
structure Connection where
  incoming : List Piece := []
  sent : List UInt8 := []
  isClosed : Bool := false

def Connection.ofChunks (chunks : List (List UInt8)) : Connection := { incoming := chunks.flatMap Piece.split }

def Connection.left (c : Connection) : Nat := (c.incoming.filter Piece.isLast).length

/-- What a host asks of the network. -/
inductive NetworkCall where
  | open_
  | bind (host : String) (endpoint : Int)
  | listen
  | accept

/-- A host and its clients. -/
structure Host where
  clients : List Connection := []
  accepted : Nat := 0
  current : Option Nat := none
  calls : List NetworkCall := []

namespace Host

def name : String := "localhost"

def open_ (endpoint : Int) (clients : List Connection) : Host :=
  { clients, calls := [.open_, .bind name endpoint, .listen] }

def connect : FaultyM Host Unit := do
  modify (fun h => { h with calls := h.calls ++ [.accept] })
  let h ← get
  if h.accepted < h.clients.length then
    set { h with accepted := h.accepted + 1, current := some h.accepted }
  else throw .unattended

def client : FaultyM Host (Nat × Connection) := do
  let h ← get
  match h.current.bind (fun n => h.clients[n]?.map (fun c => (n, c))) with
  | some x => return x
  | none => throw .absent

def put (n : Nat) (c : Connection) : FaultyM Host Unit := modify (fun h => { h with clients := h.clients.set n c })

def request : FaultyM Host String := do
  let (n, c) ← client
  let g := Frame.gather [] (c.incoming.map Piece.bytes)
  put n { c with incoming := c.incoming.drop (c.incoming.length - g.rest.length) }
  match g.bytes with
  | none =>
    modify (fun h => { h with current := none })
    throw .disconnected
  | some bytes => Encoding.decode (← Frame.body bytes)

def answer (s : String) : FaultyM Host Unit := do
  let (n, c) ← client
  put n { c with sent := c.sent ++ Encoding.encode (s ++ "\n") }

def close : FaultyM Host Unit := do
  let (n, c) ← client
  put n { c with isClosed := true }
  modify (fun h => { h with current := none })

end Host

end FlowRecovery
