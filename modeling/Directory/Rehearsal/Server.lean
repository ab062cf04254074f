import Directory.Server.Basic

/-!
# Rehearsals of a server

A script plays the owner of a server and those who try to reach it, on a host of which only the
first free address can be listened on and which lets no connection through: every attempt to
connect is refused, so no session ever starts and no handler is ever called. What a script can see
here is how a server is set up, started, stopped and dropped.
-/

namespace Directory.Rehearsal.Server

inductive Step where
  | register
  /-- Listens on an address, or on one that is free; with a key pair, encrypted. -/
  | listen (address : Option String) (options : Options) (keys : Option (String × String))
  | connect
  | useConnection
  | handshake
  | stop
  /-- Drops the server; the steps after this one see another. -/
  | drop
  | pass
  | command (request : Nat)
  deriving DecidableEq, Repr

inductive Reply where
  | done
  | refusal (cause : ServerError)
  | listening
  | refused
  /-- Nothing has ever been listened on. -/
  | noAddress
  | gone
  | noRequest
  deriving DecidableEq, Repr

structure Stage where
  server : Directory.Server := {}
  files : Acceptor.Files
  listened : Bool := false
  stops : Nat := 0

def freeAddress : String := "127.0.0.1:0"

namespace Stage

def listen (s : Stage) (address : Option String) (options : Options)
    (keys : Option (String × String)) : Reply × Stage :=
  let bindable := fun a => address.isNone && a == freeAddress
  let wanted := address.getD freeAddress
  let started := match keys with
    | none => s.server.listen bindable wanted options false
    | some (certPath, keyPath) =>
        s.server.listenTls bindable s.files wanted certPath keyPath options
  match started with
  | .error cause => (.refusal cause, s)
  | .ok server => (.listening, { s with server, listened := true })

/-- One step; `none` if it needs a client that is connected. -/
def step (s : Stage) : Step → Option (Reply × Stage)
  | .register => some <|
      match s.server.registerHandler with
      | .error cause => (.refusal cause, s)
      | .ok server => (.done, { s with server })
  | .listen address options keys => some (s.listen address options keys)
  | .connect => some (if s.listened then .refused else .noAddress, s)
  | .useConnection => some (.gone, s)
  | .handshake => none
  | .stop =>
      let server := s.server.stop
      some (.done, { s with server, stops := s.stops + if server.isQuiet then 1 else 0 })
  | .drop => some (.done, { s with server := {} })
  | .pass => some (.done, s)
  | .command _ => some (.noRequest, s)

end Stage

structure Note where
  reply : Reply
  sessions : Nat
  stopped : Bool
  stops : Nat
  deriving DecidableEq, Repr

def playFrom (s : Stage) : List Step → Option (List Note)
  | [] => some []
  | step :: rest => do
      let (reply, next) ← s.step step
      let note : Note := {
        reply
        sessions := next.server.sessionCount
        stopped := next.server.life = .stopped
        stops := next.stops }
      (playFrom next rest).map (note :: ·)

def play (files : Acceptor.Files) (script : List Step) : Option (List Note) :=
  playFrom { files } script

end Directory.Rehearsal.Server
