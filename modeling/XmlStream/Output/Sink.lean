namespace XmlStream

/-! The sink is where the bytes of a document end up. A sink may have room for a
limited number of bytes only, and may be unable to flush. -/

inductive SinkError
  | full
  | flushFailed
deriving DecidableEq, Repr

def SinkError.message : SinkError → String
  | .full => "sink full"
  | .flushFailed => "flush failed"

/-- A sink with the bytes it has received. Without a limit it takes all that is
written to it. -/
structure Sink where
  limit : Option Nat := none
  canFlush : Bool := true
  received : ByteArray := .empty

namespace Sink

def fitting (sink : Sink) (bytes : ByteArray) : ByteArray :=
  match sink.limit with
  | none => bytes
  | some limit => bytes.extract 0 (limit - sink.received.size)

/-- Write bytes. A full sink keeps those that fitted and fails. -/
def write (bytes : ByteArray) : EStateM SinkError Sink Unit := fun sink =>
  let taken := sink.fitting bytes
  let after := { sink with received := sink.received ++ taken }
  if taken.size = bytes.size then .ok () after else .error .full after

def flush : EStateM SinkError Sink Unit := fun sink =>
  if sink.canFlush then .ok () sink else .error .flushFailed sink

end Sink

end XmlStream
