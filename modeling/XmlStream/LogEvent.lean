import XmlStream.Error

namespace XmlStream

/-! What a writer reports on the side. -/

inductive LogLevel
  | trace
  | debug
  | warn
deriving DecidableEq, Repr

inductive LogEvent
  | indexBuilt (bindings : Nat)
  | callFailed (phase : Phase) (error : WriterError)
  | declarationRequested (phase : Phase)
  | leftIncomplete (error : WriterError)
  | closeFailed (error : WriterError)
  | bufferKept (cause : SinkError)
deriving DecidableEq, Repr

namespace LogEvent

def level : LogEvent → LogLevel
  | .indexBuilt _ => .trace
  | .callFailed _ _ | .declarationRequested _ | .bufferKept _ => .debug
  | .leftIncomplete _ | .closeFailed _ => .warn

def message : LogEvent → String
  | .indexBuilt bindings => s!"namespace index built over {bindings} bindings"
  | .callFailed phase error => s!"xml writer error in state {phase.name}: {error.message}"
  | .declarationRequested phase => s!"XML declaration requested in state {phase.name}"
  | .leftIncomplete error => s!"document left incomplete on close: {error.message}"
  | .closeFailed error => s!"failed to close the writer: {error.message}"
  | .bufferKept cause => s!"failed to flush the output buffer: {cause.message}"

end LogEvent

end XmlStream
