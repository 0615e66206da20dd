import XmlStream.Charset.SingleByte
import XmlStream.Charset.Japanese
import XmlStream.Escape

namespace XmlStream

/-! Encoders turn text into the bytes of a character set. A character that the
set does not have stops an encoder, and the caller decides how to go on. -/

/-- A character set together with the shift state the bytes so far have led to. -/
structure Encoder where
  charset : Charset
  shift : Charset.Japanese.Shift := .ascii
deriving DecidableEq, Repr

namespace Encoder

def ofLabel? (label : String) : Option Encoder :=
  (Charset.ofLabel? label).map fun charset => { charset }

/-- What encoding one character gives: bytes, the encoder after them, and the
character to report if it has no bytes of its own. -/
structure Step where
  bytes : List UInt8
  encoder : Encoder
  missing : Option Char := none
deriving DecidableEq, Repr

private def tableStep (encoder : Encoder) (upperHalf : List Nat) (character : Char) : Step :=
  match Charset.SingleByte.byteOf? upperHalf character with
  | some byte => { bytes := [byte], encoder }
  | none => { bytes := [], encoder, missing := some character }

def step (encoder : Encoder) (character : Char) : Step :=
  match encoder.charset with
  | .utf8 => { bytes := String.utf8EncodeChar character, encoder }
  | .windows1252 => encoder.tableStep Charset.SingleByte.windows1252 character
  | .iso8859Part15 => encoder.tableStep Charset.SingleByte.iso8859Part15 character
  | .koi8r => encoder.tableStep Charset.SingleByte.koi8r character
  | .windows1251 => encoder.tableStep Charset.SingleByte.windows1251 character
  | .userDefined => encoder.tableStep Charset.SingleByte.userDefined character
  | .iso2022jp =>
    let result := Charset.Japanese.step encoder.shift character
    { bytes := result.bytes
      encoder := { encoder with shift := result.shift }
      missing := result.missing }

def finish (encoder : Encoder) : Step :=
  match encoder.charset with
  | .iso2022jp =>
    { bytes := Charset.Japanese.finish encoder.shift, encoder := { encoder with shift := .ascii } }
  | _ => { bytes := [], encoder }

/-- A character that is missing from the set, and how far encoding had come: the
bytes of text read, the character included, and the bytes written before it. -/
structure Unmappable where
  character : Char
  read : Nat
  written : Nat
deriving DecidableEq, Repr

def Unmappable.message (cause : Unmappable) : String :=
  s!"Unmappable character '{cause.character}' (read: {cause.read}, write: {cause.written})"

/-- How an attempt to encode a text ended. A complete text had so many bytes in
UTF-8. -/
inductive Ending
  | complete (read : Nat)
  | stopped (cause : Unmappable)
deriving DecidableEq, Repr

/-- Encode characters up to the first one that is missing. `read` bytes of the
text and the bytes `done` are already behind. -/
def encodeFrom (encoder : Encoder) (read : Nat) (done : ByteArray) :
    List Char → Encoder × ByteArray × Ending
  | [] => (encoder, done, .complete read)
  | character :: rest =>
    let result := encoder.step character
    let done := done ++ result.bytes.toByteArray
    let read := read + character.utf8Size
    match result.missing with
    | none => result.encoder.encodeFrom read done rest
    | some character =>
      (result.encoder, done, .stopped { character, read, written := done.size })

/-- Encode a text up to the first character that is missing. `last` says that no
more text follows, so that the initial state is returned to. -/
def encode (encoder : Encoder) (text : String) (last : Bool) :
    Encoder × ByteArray × Ending :=
  match encoder.encodeFrom 0 .empty text.toList with
  | (after, done, .complete read) =>
    if last then (after.finish.encoder, done ++ after.finish.bytes.toByteArray, .complete read)
    else (after, done, .complete read)
  | stopped => stopped

/-- Encode a character that is known to be in the set; a missing one leaves no
trace but the change of state. -/
def push (target : Encoder × ByteArray) (character : Char) : Encoder × ByteArray :=
  let result := target.1.step character
  (result.encoder, target.2 ++ result.bytes.toByteArray)

/-- Encode a character, or a decimal reference to it if it is missing. References
are ASCII text, which every set has. -/
def pushOrRefer (target : Encoder × ByteArray) (character : Char) : Encoder × ByteArray :=
  match (target.1.step character).missing with
  | none => push target character
  | some reported =>
    (decimalReference reported).toList.foldl push (push target character)

def transcribe (encoder : Encoder) (text : String) : Encoder × ByteArray :=
  text.toList.foldl pushOrRefer (encoder, .empty)

end Encoder

end XmlStream
