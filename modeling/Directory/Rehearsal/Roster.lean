import Directory.Request.Basic
import Directory.Request.Roster

/-!
# Rehearsals of a roster

A script plays the owner of one roster, the sessions that look at it and the handlers of the
requests on it, one step after the other. Every step has a reply, and after every step it is noted
how many requests are in flight and which requests and tokens are cancelled.
-/

namespace Directory.Rehearsal.Roster

/-- One step of a script. Sessions, requests, guards and tokens are named by number. -/
inductive Step where
  | openSession (info : SessionInfo)
  | cloneSession (session : Nat)
  | sessionInfo (session : Nat)
  | markTls (session : Nat)
  | setAcl (session : Nat) (acl : Acl)
  | sessionAbandon (session : Nat) (id : MessageId)
  | request (message : Message) (session : Nat)
  | requestInfo (request : Nat)
  | register (request : Nat)
  | guarded (guard : Nat)
  | release (guard : Nat)
  /-- A panic unwinds through the one who holds a guard; it is caught further out in any case. -/
  | unwind (guard : Nat)
  | latest (id : MessageId)
  | abandon (id : MessageId) (reason : Reason)
  | cancelAll (reason : Reason)
  | isEmpty
  | disown
  | post (request : Nat) (reason : Reason)
  | pop (request : Nat)
  | isCancelled (request : Nat)
  | abandonOther (request : Nat) (id : MessageId)
  | acceptStartTls (request : Nat)
  | handOut (request : Nat)
  | cancelToken (token : Nat)
  deriving DecidableEq, Repr

inductive Reply where
  | done
  | truth (b : Bool)
  | number (n : Nat)
  | found (request : Option Nat)
  | reason (reason : Option Reason)
  | gone
  | session (info : SessionInfo)
  /-- A request with the place of its session in the order of accepting. -/
  | request (request : Request) (ordinal : Nat)
  deriving DecidableEq, Repr

def loopback : Network.Endpoint := .short ⟨127, 0, 0, 1⟩ 389

structure Stage where
  shared : SharedRoster := {}
  cancellations : Cancellations := []
  requests : List (Request × Nat) := []
  /-- The sessions by number; several numbers may stand for one session. -/
  sessions : List Nat := [0]
  infos : List SessionInfo :=
    [{ ordinal := 1, peer := loopback, localEnd := loopback, tls := false }]
  /-- The tokens by number: the request of each and its number there. -/
  tokens : List (Nat × Nat) := []
  deriving DecidableEq, Repr

namespace Stage

def info? (s : Stage) (session : Nat) : Option SessionInfo :=
  s.sessions[session]?.bind fun k => s.infos[k]?

def modifyInfo (s : Stage) (session : Nat) (change : SessionInfo → SessionInfo) : Stage :=
  { s with infos := s.infos.modify (s.sessions.getD session s.infos.length) change }

def abandonBySession (s : Stage) (id : MessageId) : Reply × Stage :=
  match s.shared.abandon id s.cancellations with
  | none => (.truth false, s)
  | some cancellations => (.truth true, { s with cancellations })

/-- What the owner asks of the roster; without an owner nobody is left to ask. -/
def asOwner (s : Stage) (act : Reply × Stage) : Reply × Stage :=
  if s.shared.owned then act else (.gone, s)

/-- One step. A number that stands for nothing changes nothing. -/
def step (s : Stage) : Step → Reply × Stage
  | .openSession info => s.asOwner
      (.number s.sessions.length,
        { s with sessions := s.sessions ++ [s.infos.length], infos := s.infos ++ [info] })
  | .cloneSession session =>
      match s.sessions[session]? with
      | none => (.gone, s)
      | some k => (.number s.sessions.length, { s with sessions := s.sessions ++ [k] })
  | .sessionInfo session =>
      match s.info? session with
      | none => (.gone, s)
      | some info => (.session info, s)
  | .markTls session => (.done, s.modifyInfo session fun info => { info with tls := true })
  | .setAcl session acl => (.done, s.modifyInfo session fun info => { info with acl })
  | .sessionAbandon _ id => s.abandonBySession id
  | .request message session =>
      (.number s.requests.length,
        { s with
          requests := s.requests ++ [(.ofMessage message, session)]
          cancellations := s.cancellations ++ [{}] })
  | .requestInfo request =>
      match s.requests[request]? with
      | none => (.gone, s)
      | some (r, session) => (.request r ((s.info? session).elim 0 (·.ordinal)), s)
  | .register request => s.asOwner <|
      match s.requests[request]? with
      | none => (.gone, s)
      | some (r, _) =>
          (.number s.shared.guards.length,
            { s with shared := s.shared.register r.message.id request })
  | .guarded guard =>
      match s.shared.guarded? guard with
      | none => (.gone, s)
      | some (_, request) => (.number request, s)
  | .release guard =>
      (.truth (s.shared.guarded? guard).isSome, { s with shared := s.shared.release guard })
  | .unwind guard => (.truth true, { s with shared := s.shared.release guard })
  | .latest id => s.asOwner (.found (s.shared.roster.latest? id), s)
  | .abandon id reason => s.asOwner <|
      match s.shared.roster.abandon id reason s.cancellations with
      | none => (.truth false, s)
      | some cancellations => (.truth true, { s with cancellations })
  | .cancelAll reason => s.asOwner
      (.number s.shared.roster.size,
        { s with cancellations := s.shared.roster.cancelAll reason s.cancellations })
  | .isEmpty => s.asOwner (.truth (s.shared.roster.size == 0), s)
  | .disown => (.truth s.shared.owned, { s with shared := s.shared.disown })
  | .post request reason =>
      (.truth (s.cancellations[request]?.any (·.hasRoom)),
        { s with cancellations := s.cancellations.post request reason })
  | .pop request =>
      (.reason (s.cancellations[request]?.bind (·.next?)),
        { s with cancellations := s.cancellations.modify request (·.pop) })
  | .isCancelled request => (.truth (s.cancellations[request]?.any (·.raised)), s)
  | .abandonOther _ id => s.abandonBySession id
  | .acceptStartTls request =>
      (.done, { s with
        requests := s.requests.modify request fun (r, session) =>
          ({ r with startTlsAccepted := true }, session) })
  | .handOut request =>
      (.number s.tokens.length,
        { s with
          tokens := s.tokens ++ [(request, s.cancellations[request]?.elim 0 (·.tokens.length))]
          cancellations := s.cancellations.modify request (·.handOut) })
  | .cancelToken token =>
      match s.tokens[token]? with
      | none => (.done, s)
      | some (request, k) =>
          (.done, { s with
            cancellations := s.cancellations.modify request (·.cancelToken k) })

end Stage

structure Note where
  reply : Reply
  inFlight : Nat
  cancelled : List Bool
  tokens : List Bool
  deriving DecidableEq, Repr

def Stage.note (s : Stage) (reply : Reply) : Note where
  reply := reply
  inFlight := s.shared.inFlight
  cancelled := s.cancellations.map (·.raised)
  tokens := s.tokens.map fun (request, k) =>
    s.cancellations[request]?.any fun c => c.tokenCancelled k

def playFrom (s : Stage) : List Step → List Note
  | [] => []
  | step :: rest =>
      let (reply, next) := s.step step
      next.note reply :: playFrom next rest

def play (script : List Step) : List Note := playFrom {} script

end Directory.Rehearsal.Roster
