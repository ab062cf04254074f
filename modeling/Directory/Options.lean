import Directory.Framing
import Directory.Security.KeyMaterial

/-!
# Options of a listener

What every session of a listener is run with. A timeout of zero means no timeout. `Options.check`
names the first field that no session could run with; a listener is started only with options that
pass it.
-/

namespace Directory

inductive Admission where
  | welcome
  | refuse (reason : String)
  deriving DecidableEq, Repr

structure Options where
  readTimeout : Option Span := none
  writeTimeout : Option Span := none
  /-- The rule asked about every new connection, before anything is read from it. -/
  admission : Option Admission := none
  /-- What StartTLS requests are answered with; without it they leave a session in the clear. -/
  startTls : Option Acceptor := none
  queueCapacity : Nat := 20
  maxMessageSize : Nat := defaultMaxMessageSize
  backoffMin : Span := Span.ofMillis 5
  backoffMax : Span := Span.ofSecs 1 0
  deriving DecidableEq, Repr

inductive OptionsError where
  | zeroQueueCapacity
  | zeroMaxMessageSize
  | invalidBackoff (min max : Span)
  deriving DecidableEq, Repr

namespace OptionsError

def message : OptionsError → String
  | zeroQueueCapacity => "outbound queue capacity must be at least 1"
  | zeroMaxMessageSize => "maximum message size must be at least 1 byte"
  | invalidBackoff min max =>
      "accept backoff minimum " ++ min.text ++ " must be non-zero and not exceed maximum " ++
        max.text

end OptionsError

namespace Options

/-- A timeout of zero is no timeout. -/
def timeout (limit : Span) : Option Span := if limit = Span.zero then none else some limit

def withReadTimeout (o : Options) (limit : Span) : Options :=
  { o with readTimeout := timeout limit }

def withWriteTimeout (o : Options) (limit : Span) : Options :=
  { o with writeTimeout := timeout limit }

def withAdmission (o : Options) (rule : Admission) : Options := { o with admission := some rule }

def withStartTls (o : Options) (acceptor : Acceptor) : Options :=
  { o with startTls := some acceptor }

def withQueueCapacity (o : Options) (n : Nat) : Options := { o with queueCapacity := n }

def withMaxMessageSize (o : Options) (n : Nat) : Options := { o with maxMessageSize := n }

def withBackoff (o : Options) (min max : Span) : Options :=
  { o with backoffMin := min, backoffMax := max }

/-- The first field that no session could run with. -/
def check (o : Options) : Except OptionsError Unit :=
  if o.queueCapacity = 0 then .error .zeroQueueCapacity
  else if o.maxMessageSize = 0 then .error .zeroMaxMessageSize
  else if o.backoffMin = Span.zero ∨ o.backoffMax.nanos < o.backoffMin.nanos then
    .error (.invalidBackoff o.backoffMin o.backoffMax)
  else .ok ()

def displayTimeout : Option Span → String
  | none => "None"
  | some d => "Some(" ++ d.text ++ ")"

def displayFlag (b : Bool) : String := if b then "true" else "false"

/-- The options on one line. Of the admission rule and of the acceptor only the presence is shown.
-/
def display (o : Options) : String :=
  "ServerOptions \x7b " ++ ", ".intercalate [
    "read_timeout: " ++ displayTimeout o.readTimeout,
    "write_timeout: " ++ displayTimeout o.writeTimeout,
    "on_new_connection: " ++ displayFlag o.admission.isSome,
    "start_tls: " ++ displayFlag o.startTls.isSome,
    "outbound_queue_capacity: " ++ toString o.queueCapacity,
    "max_message_size: " ++ toString o.maxMessageSize,
    "accept_backoff_min: " ++ o.backoffMin.text,
    "accept_backoff_max: " ++ o.backoffMax.text] ++ " \x7d"

end Options

end Directory
