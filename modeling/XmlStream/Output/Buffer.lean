import XmlStream.Encoder
import XmlStream.Output.Sink

namespace XmlStream

/-! Buffered output. Text is encoded at once, and the bytes are collected until
enough of them are pending or somebody asks for them to be pushed on. When a push
fails nothing is taken out of the buffer, so a later push tries all of it again. -/

/-- A sink with the encoded bytes that wait to be written to it. Without an
encoder the bytes are UTF-8, and no encoding has a name. -/
structure OutputBuffer where
  sink : Sink
  encoder : Option Encoder := none
  pending : ByteArray := .empty
  written : Nat := 0

namespace OutputBuffer

/-- Actions on buffered output. The state is kept when an action fails. -/
abbrev Action := EStateM SinkError OutputBuffer

def threshold : Nat := 4000

def encoding? (output : OutputBuffer) : Option String :=
  output.encoder.map (·.charset.name)

/-- Append text to the pending bytes. Characters that the encoding lacks become
decimal references. -/
def append (output : OutputBuffer) (text : String) : OutputBuffer :=
  match output.encoder with
  | none => { output with pending := output.pending ++ text.toUTF8 }
  | some encoder =>
    let (encoder, bytes) := encoder.transcribe text
    { output with encoder := some encoder, pending := output.pending ++ bytes }

def terminate (output : OutputBuffer) : OutputBuffer :=
  match output.encoder with
  | none => output
  | some encoder =>
    let ending := encoder.finish
    { output with
      encoder := some ending.encoder
      pending := output.pending ++ ending.bytes.toByteArray }

def onSink (action : EStateM SinkError Sink Unit) : Action Unit := fun output =>
  match action output.sink with
  | .ok _ sink => .ok () { output with sink }
  | .error error sink => .error error { output with sink }

/-- Write all pending bytes to the sink. With nothing pending the sink is left
alone. -/
def push : Action Unit := do
  let output ← get
  unless output.pending.isEmpty do
    onSink (Sink.write output.pending)
    modify fun after =>
      { after with pending := .empty, written := after.written + output.pending.size }

def write (text : String) : Action Unit := do
  modify (·.append text)
  if threshold ≤ (← get).pending.size then push

def flush : Action Unit := do
  push
  onSink Sink.flush

def finish : Action Unit := do
  modify terminate
  flush

/-- Give up an output: what it still holds is pushed on, if that is possible. The
failure, if there is one, is only told. -/
def release (output : OutputBuffer) : OutputBuffer × Option SinkError :=
  match flush output with
  | .ok _ after => (after, none)
  | .error cause after => (after, some cause)

end OutputBuffer

end XmlStream
