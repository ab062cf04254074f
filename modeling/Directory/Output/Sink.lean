import Directory.Message.Basic

/-!
# Sinks

The handler of a request writes its responses through a sink. A sink has the identifier of its
request and stamps it on everything that it writes, whatever identifier the handler has put there.
-/

namespace Directory

structure Sink where
  id : MessageId
  deriving DecidableEq, Repr

namespace Sink

/-- A message as it leaves the sink: the identifier replaced, everything else as it was. -/
def stamp (s : Sink) (m : Message) : Message := { m with id := s.id }

def response (s : Sink) (op : Operation) : Message := { id := s.id, op }

end Sink

end Directory
