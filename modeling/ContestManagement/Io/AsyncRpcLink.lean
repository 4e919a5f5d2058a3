import ContestManagement.Lib.Framing
import ContestManagement.Io.AsyncRpcCalls
import ContestManagement.Io.AsyncRpcServerRuns

/-!
# A client and its service

The client and the servers of its connections, one after the other, with the bytes between them.  A
connection may end at any time for either side, with bytes in it that are never read.
-/

namespace ContestManagement
namespace Io
namespace Rpc

open Lib

/-- The request of a call. -/
def requestOf (id method : String) (data : PyValue) : PyValue :=
  .dict [("__id", .str id), ("__method", .str method), ("__data", data)]

/-- A connection: the bytes that were not read yet, and the requests that the client wrote, each with
the number of its call. -/
structure Connection where
  toServer : List UInt8
  toClient : List UInt8
  server : Server
  requests : List (Nat × List UInt8)

namespace Connection

def fresh : Connection := ⟨[], [], .fresh, []⟩

/-- The bytes of a message on the way to the server. -/
def carry (connection : Connection) (index : Nat) (data : List UInt8) : Connection :=
  { connection with
    toServer := connection.toServer ++ framed 13 10 [data]
    requests := connection.requests ++ [(index, data)] }

/-- The server goes on, and what it writes is on its way. -/
def serve (connection : Connection) (server : Server) : Connection :=
  { connection with
    server
    toClient := connection.toClient ++ framed 13 10
      ((server.written.drop connection.server.written.length).map Prod.snd) }

end Connection

/-- The client with the arguments of its calls by their ids, and the connections in the order of
their readers. -/
structure Link where
  client : Client
  arguments : Dict String PyValue
  connections : List Connection

inductive LinkAction
  | call (id method : String) (data : PyValue) (drain : Drain)
  /-- The client connects. -/
  | accept
  /-- The client reads a line. -/
  | receive
  /-- Anything else the client does. -/
  | client (a : RpcAction)
  /-- A server reads a line. -/
  | request (place : Nat)
  /-- Anything else a server does. -/
  | server (place : Nat) (a : ServerAction)

/-- A step of the client that the other side has no part in. -/
def RpcAction.isLocal : RpcAction → Bool
  | .call _ _ _ _ => false
  | .tryConnection true => false
  | .readLine _ => false
  | _ => true

def ServerAction.isLocal : ServerAction → Bool
  | .readLine _ => false
  | _ => true

/-- A new call writes its request at once. -/
def Client.writesAtOnce (s : Client) (length : Nat) : Bool :=
  !(s.connection.isNone || length + 2 > maxMessageSize) &&
    !(s.locked || s.calls.any RpcCall.isWaiting)

namespace Link

variable (loads : List UInt8 → Option PyValue) (tooDeep : List UInt8 → Bool)
  (dumps : PyValue → Option (List UInt8)) (service : String → Attribute) (autoRetry : Bool)

def fresh : Link := ⟨.fresh, .empty, []⟩

/-- The request of a call is written to the current connection. -/
def send (s : Link) (connection : Option Nat) (index : Nat) (data : List UInt8) : Link :=
  match connection with
  | none => s
  | some place =>
      { s with connections := s.connections.modify place fun c => c.carry index data }

/-- The request that a call of the client writes now. -/
def requestAt (s : Link) (index : Nat) : Option (List UInt8) :=
  match s.client.calls[index]? with
  | none => none
  | some c => (s.arguments.get? c.id).bind fun data => dumps (requestOf c.id c.method data)

def step (s : Link) : LinkAction → Option Link
  | .call id method data drain =>
      let request := dumps (requestOf id method data)
      match s.client.step loads autoRetry (.call id method (request.map List.length) drain) with
      | none => none
      | some client =>
          let next := { s with client, arguments := s.arguments.set id data }
          match request with
          | none => some next
          | some bytes =>
              if s.client.writesAtOnce bytes.length then
                some (next.send s.client.connection s.client.calls.length bytes)
              else some next
  | .accept =>
      match s.client.step loads autoRetry (.tryConnection true) with
      | none => none
      | some client => some { s with client, connections := s.connections ++ [.fresh] }
  | .receive =>
      match s.client.loop with
      | .reading _ source =>
          match s.connections[source]? with
          | none => none
          | some connection =>
              match readUntil 13 10 connection.toClient with
              | none => none
              | some (line, rest) =>
                  match s.client.step loads autoRetry (.readLine line) with
                  | none => none
                  | some client => some { s with
                      client
                      connections := s.connections.set source { connection with toClient := rest } }
      | _ => none
  | .client a =>
      if a.isLocal then
        match s.client.step loads autoRetry a with
        | none => none
        | some client =>
            let next := { s with client }
            match a with
            | .acquire index _ =>
                match s.requestAt dumps index with
                | none => some next
                | some bytes => some (next.send s.client.connection index bytes)
            | _ => some next
      else none
  | .request place =>
      match s.connections[place]? with
      | none => none
      | some connection =>
          match readUntil 13 10 connection.toServer with
          | none => none
          | some (line, rest) =>
              match connection.server.step loads tooDeep dumps service (.readLine line) with
              | none => none
              | some server => some { s with
                  connections := s.connections.set place { connection with toServer := rest, server } }
  | .server place a =>
      if a.isLocal then
        match s.connections[place]? with
        | none => none
        | some connection =>
            match connection.server.step loads tooDeep dumps service a with
            | none => none
            | some server =>
                some { s with connections := s.connections.set place (connection.serve server) }
      else none

end Link

/-- The runs of a client and its service. -/
def linkMachine (loads : List UInt8 → Option PyValue) (tooDeep : List UInt8 → Bool)
    (dumps : PyValue → Option (List UInt8)) (service : String → Attribute) (autoRetry : Bool) :
    Machine Link LinkAction where
  init := fun s => s = .fresh
  step := Link.step loads tooDeep dumps service autoRetry

end Rpc
end Io
end ContestManagement
