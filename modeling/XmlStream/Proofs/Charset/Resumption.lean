import XmlStream.Proofs.Charset.Transcription
import XmlStream.Proofs.Text.Bytes

namespace XmlStream

/-! An encoder stops at a character that its set does not have. A text is transcribed by going on
behind it, with a reference in its place, until the encoder comes to the end. -/

namespace Encoder

/-- How a text is encoded to its end. Where the encoder stops, it is given a reference and then
what it has not read yet. -/
inductive Resumes (last : Bool) : Encoder → String → Encoder × ByteArray → Prop
  | complete {encoder after : Encoder} {text : String} {bytes : ByteArray} {read : Nat}
      (encodes : encoder.encode text last = (after, bytes, .complete read)) :
      Resumes last encoder text (after, bytes)
  | stopped {encoder stopped referred after : Encoder} {text rest : String}
      {bytes reference more : ByteArray} {cause : Unmappable} {length : Nat}
      (encodes : encoder.encode text last = (stopped, bytes, .stopped cause))
      (behind : textFrom? text cause.read = some rest)
      (refers : stopped.encode (decimalReference cause.character) false =
        (referred, reference, .complete length))
      (resumes : Resumes last referred rest (after, more)) :
      Resumes last encoder text (after, bytes ++ reference ++ more)

def transcribeUpTo (last : Bool) (encoder : Encoder) (text : String) : Encoder × ByteArray :=
  let target := encoder.transcribe text
  if last then (target.1.finish.encoder, target.2 ++ target.1.finish.bytes.toByteArray) else target

variable {last : Bool} {encoder : Encoder} {front rest : List Char} {character reported : Char}

/-! ## Up to the first missing character -/

theorem encodeFrom_append (has : ∀ character ∈ front, encoder.charset.Has character) (read : Nat)
    (done : ByteArray) (rest : List Char) :
    encoder.encodeFrom read done (front ++ rest) =
      (front.foldl push (encoder, done)).1.encodeFrom (read + utf8Length front)
        (front.foldl push (encoder, done)).2 rest := by
  induction front generalizing encoder read done with
  | nil => rfl
  | cons first others induction =>
      rw [List.forall_mem_cons] at has
      have found : (encoder.step first).missing = none := (encoder.step_missing first).trans has.1
      rw [List.cons_append, encodeFrom]
      simp only [found]
      rw [induction (by rw [step_charset]; exact has.2), utf8Length_cons, Nat.add_assoc]
      rfl

theorem foldl_pushOrRefer_of_has (has : ∀ character ∈ front, encoder.charset.Has character)
    (done : ByteArray) :
    front.foldl pushOrRefer (encoder, done) = front.foldl push (encoder, done) := by
  induction front generalizing encoder done with
  | nil => rfl
  | cons first others induction =>
      rw [List.forall_mem_cons] at has
      have found : (encoder.step first).missing = none := (encoder.step_missing first).trans has.1
      have pushed : pushOrRefer (encoder, done) first = push (encoder, done) first := by
        simp only [pushOrRefer, found]
      rw [List.foldl_cons, List.foldl_cons, pushed]
      exact induction (by
        show ∀ character ∈ others, (encoder.step first).encoder.charset.Has character
        rw [step_charset]
        exact has.2) _

theorem encode_of_has (has : ∀ character ∈ front, encoder.charset.Has character) (last : Bool) :
    ∃ read, encoder.encode (String.ofList front) last =
      ((encoder.transcribeUpTo last (String.ofList front)).1,
        (encoder.transcribeUpTo last (String.ofList front)).2, .complete read) := by
  have encodes := encodeFrom_append has 0 .empty []
  rw [List.append_nil] at encodes
  refine ⟨0 + utf8Length front, ?_⟩
  rw [encode, String.toList_ofList, encodes, encodeFrom, transcribeUpTo, transcribe,
    String.toList_ofList, foldl_pushOrRefer_of_has has]
  cases last <;> rfl

theorem missing_behind (has : ∀ character ∈ front, encoder.charset.Has character)
    (missing : encoder.charset.missing? character = some reported) :
    ((front.foldl push (encoder, .empty)).1.step character).missing = some reported := by
  rw [step_missing, (encoder.reads_foldl_push has).charset, missing]

/-- The encoder stops behind the first character that is missing. -/
theorem encode_of_missing (has : ∀ character ∈ front, encoder.charset.Has character)
    (missing : encoder.charset.missing? character = some reported) (last : Bool) :
    let stopped := push (front.foldl push (encoder, .empty)) character
    encoder.encode (String.ofList (front ++ character :: rest)) last =
      (stopped.1, stopped.2, .stopped
        { character := reported
          read := utf8Length (front ++ [character])
          written := stopped.2.size }) := by
  intro stopped
  have found := missing_behind has missing
  have length : utf8Length (front ++ [character]) = 0 + utf8Length front + character.utf8Size := by
    rw [utf8Length_append, utf8Length_cons, Nat.zero_add]
    rfl
  rw [encode, String.toList_ofList, encodeFrom_append has, encodeFrom, length]
  simp only [found]
  rfl

/-- Transcribing goes on behind a missing character, with a reference in its place. -/
theorem transcribeUpTo_of_missing (has : ∀ character ∈ front, encoder.charset.Has character)
    (missing : encoder.charset.missing? character = some reported) (last : Bool) :
    let stopped := push (front.foldl push (encoder, .empty)) character
    let referred := stopped.1.transcribeUpTo false (decimalReference reported)
    let resumed := referred.1.transcribeUpTo last (String.ofList rest)
    encoder.transcribeUpTo last (String.ofList (front ++ character :: rest)) =
      (resumed.1, stopped.2 ++ referred.2 ++ resumed.2) := by
  intro stopped referred resumed
  have found := missing_behind has missing
  have all := stopped.1.charset.has_decimalReference reported
  have refers : pushOrRefer (front.foldl push (encoder, .empty)) character =
      (referred.1, stopped.2 ++ referred.2) := by
    simp only [pushOrRefer, found]
    rw [foldl_push_eq, ← foldl_pushOrRefer_of_has all]
    rfl
  have whole : encoder.transcribe (String.ofList (front ++ character :: rest)) =
      ((referred.1.transcribe (String.ofList rest)).1,
        stopped.2 ++ referred.2 ++ (referred.1.transcribe (String.ofList rest)).2) := by
    simp only [transcribe, String.toList_ofList, List.foldl_append, List.foldl_cons]
    rw [foldl_pushOrRefer_of_has has, refers, foldl_pushOrRefer_eq]
  rw [transcribeUpTo, whole]
  cases last
  · rfl
  · simp [resumed, transcribeUpTo, ByteArray.append_assoc]

theorem has_or_missing (charset : Charset) (text : List Char) :
    (∀ character ∈ text, charset.Has character) ∨
      ∃ front character reported rest, text = front ++ character :: rest ∧
        (∀ character ∈ front, charset.Has character) ∧
        charset.missing? character = some reported := by
  induction text with
  | nil => exact .inl (by simp)
  | cons first others induction =>
      cases missing : charset.missing? first with
      | some reported => exact .inr ⟨[], first, reported, others, rfl, by simp, missing⟩
      | none =>
          rcases induction with has | ⟨front, character, reported, rest, rfl, has, lacks⟩
          · exact .inl (List.forall_mem_cons.mpr ⟨missing, has⟩)
          · exact .inr ⟨first :: front, character, reported, rest, rfl,
              List.forall_mem_cons.mpr ⟨missing, has⟩, lacks⟩

/-! ## To the end -/

theorem resumes_transcribeUpTo (last : Bool) (encoder : Encoder) (text : List Char) :
    Resumes last encoder (String.ofList text)
      (encoder.transcribeUpTo last (String.ofList text)) := by
  rcases has_or_missing encoder.charset text with
    has | ⟨front, character, reported, rest, whole, has, missing⟩
  · rcases encode_of_has has last with ⟨read, encodes⟩
    exact .complete encodes
  · have shorter : rest.length < text.length := by
      rw [whole, List.length_append, List.length_cons]
      omega
    let stopped := push (front.foldl push (encoder, .empty)) character
    have all := stopped.1.charset.has_decimalReference reported
    rcases encode_of_has all false with ⟨length, refers⟩
    rw [String.ofList_toList] at refers
    have behind : textFrom? (String.ofList (front ++ character :: rest))
        (utf8Length (front ++ [character])) = some (String.ofList rest) := by
      have cut := textFrom?_append (String.ofList (front ++ [character])) (String.ofList rest)
      rwa [utf8ByteSize_ofList, ← String.ofList_append, List.append_assoc] at cut
    rw [whole, transcribeUpTo_of_missing has missing]
    exact .stopped (encode_of_missing has missing last) behind refers
      (resumes_transcribeUpTo last _ rest)
termination_by text.length

theorem Resumes.unique {text : String} {first second : Encoder × ByteArray}
    (resumes : Resumes last encoder text first) (other : Resumes last encoder text second) :
    first = second := by
  induction resumes generalizing second with
  | complete encodes =>
      cases other with
      | complete encodesToo => cases encodes.symm.trans encodesToo; rfl
      | stopped encodesToo => cases encodes.symm.trans encodesToo
  | stopped encodes behind refers _ induction =>
      cases other with
      | complete encodesToo => cases encodes.symm.trans encodesToo
      | stopped encodesToo behindToo refersToo resumesToo =>
          cases encodes.symm.trans encodesToo
          cases behind.symm.trans behindToo
          cases refers.symm.trans refersToo
          cases induction resumesToo
          rfl

/-- Whatever the text, the encoder comes to its end, and to no other end than transcribing it. No
reference stops it. -/
theorem resumes_iff {text : String} {result : Encoder × ByteArray} :
    Resumes last encoder text result ↔ result = encoder.transcribeUpTo last text := by
  have ends := resumes_transcribeUpTo last encoder text.toList
  rw [String.ofList_toList] at ends
  constructor
  · exact fun resumes => resumes.unique ends
  · rintro rfl
    exact ends

end Encoder

namespace OutputBuffer

variable {output : OutputBuffer} {encoder after : Encoder} {bytes : ByteArray}

theorem append_of_resumes {text : String} (found : output.encoder = some encoder)
    (resumes : encoder.Resumes false text (after, bytes)) :
    output.append text =
      { output with encoder := some after, pending := output.pending ++ bytes } := by
  have transcribed : (after, bytes) = encoder.transcribe text := Encoder.resumes_iff.mp resumes
  simp only [append, found, ← transcribed]

theorem terminate_of_resumes (found : output.encoder = some encoder)
    (resumes : encoder.Resumes true "" (after, bytes)) :
    output.terminate =
      { output with encoder := some after, pending := output.pending ++ bytes } := by
  have ended := Encoder.resumes_iff.mp resumes
  have nothing : encoder.transcribe "" = (encoder, .empty) := rfl
  simp only [Encoder.transcribeUpTo, nothing, if_true, ByteArray.empty_append,
    Prod.mk.injEq] at ended
  rw [terminate, found, ended.1, ended.2]

end OutputBuffer

end XmlStream
