import XmlStream.Text

namespace XmlStream

/-! A text as the bytes of its UTF-8 form: how many there are, what stands at a position,
and where a text can be cut. -/

def byteAt? (text : String) (position : Nat) : Option UInt8 :=
  text.toByteArray.data[position]?

/-- What a text holds from a position on. There is no answer behind the end of the text,
nor within a character. -/
def textFrom? (text : String) (position : Nat) : Option String :=
  if cuts : (String.Pos.Raw.mk position).IsValid text then
    some (text.sliceFrom ⟨⟨position⟩, cuts⟩).copy
  else none

example : byteAt? "あ:" 3 = some 0x3A ∧ textFrom? "あ:" 1 = none := by decide +kernel

theorem utf8Length_append (characters more : List Char) :
    utf8Length (characters ++ more) = utf8Length characters + utf8Length more := by
  have from_zero (start : Nat) (lengths : List Nat) :
      lengths.foldl (· + ·) start = start + lengths.foldl (· + ·) 0 := by
    induction lengths generalizing start with
    | nil => rfl
    | cons first rest induction =>
        rw [List.foldl_cons, List.foldl_cons, induction, induction (0 + first)]
        omega
  rw [utf8Length, List.map_append, List.foldl_append, from_zero]
  rfl

theorem utf8Length_cons (first : Char) (rest : List Char) :
    utf8Length (first :: rest) = first.utf8Size + utf8Length rest := by
  rw [← List.singleton_append, utf8Length_append]
  exact congrArg (· + utf8Length rest) (Nat.zero_add _)

theorem utf8ByteSize_ofList (characters : List Char) :
    (String.ofList characters).utf8ByteSize = utf8Length characters := by
  induction characters with
  | nil => rfl
  | cons first rest induction =>
      rw [String.ofList_cons, String.utf8ByteSize_append, induction, utf8Length_cons]
      simp

theorem utf8ByteSize_eq (text : String) : text.utf8ByteSize = utf8Length text.toList := by
  rw [← utf8ByteSize_ofList, String.ofList_toList]

theorem utf8Length_eq_zero {characters : List Char} :
    utf8Length characters = 0 ↔ characters = [] := by
  cases characters with
  | nil => exact ⟨fun _ => rfl, fun _ => rfl⟩
  | cons first rest =>
      have positive := first.utf8Size_pos
      simp only [utf8Length_cons, reduceCtorEq, iff_false]
      omega

theorem utf8Length_append_eq_left {characters more : List Char} :
    utf8Length characters = utf8Length (characters ++ more) ↔ more = [] := by
  rw [utf8Length_append, ← utf8Length_eq_zero]
  omega

theorem textFrom?_append (before after : String) :
    textFrom? (before ++ after) before.utf8ByteSize = some after := by
  have cuts : (String.Pos.Raw.mk before.utf8ByteSize).IsValid (before ++ after) :=
    String.Pos.Raw.isValid_iff_exists_append.mpr ⟨before, after, rfl, rfl⟩
  rw [textFrom?, dif_pos cuts]
  exact congrArg some (String.Pos.splits_ofEqAppend rfl).copy_sliceFrom_eq

/-- The byte of the colon begins no other character: where a character takes several
bytes, the first is above the ASCII range. -/
theorem head?_utf8EncodeChar_eq_colon {character : Char} :
    (String.utf8EncodeChar character).head? = some 0x3A ↔ character = ':' := by
  refine ⟨fun first => ?_, fun colon => by subst colon; rfl⟩
  have value {code : Nat} (byte : UInt8.ofNat code = 0x3A) : code % 256 = 0x3A :=
    congrArg UInt8.toNat byte
  have code : character.val.toNat = 0x3A := by
    simp only [String.utf8EncodeChar] at first
    split at first
    · have := value (Option.some.inj first)
      omega
    · split at first
      · have := value (Option.some.inj first)
        omega
      · split at first
        all_goals
          have := value (Option.some.inj first)
          omega
  exact Char.ext (UInt32.toNat_inj.mp code)

theorem byteAt?_append (before : String) (next : Char) (rest : List Char) :
    byteAt? (before ++ String.ofList (next :: rest)) before.utf8ByteSize =
      (String.utf8EncodeChar next).head? := by
  obtain ⟨first, others, encoded⟩ :=
    List.exists_cons_of_ne_nil (@String.utf8EncodeChar_ne_nil next)
  have whole : (before ++ String.ofList (next :: rest)).toByteArray.data =
      before.toByteArray.data ++
        (String.utf8EncodeChar next ++ rest.flatMap String.utf8EncodeChar).toArray := by
    rw [String.toByteArray_append, String.toByteArray_ofList, ByteArray.data_append]
    simp [List.utf8Encode]
  have size : before.utf8ByteSize = before.toByteArray.data.size := rfl
  rw [byteAt?, whole, size, Array.getElem?_append_right (Nat.le_refl _), Nat.sub_self, encoded]
  rfl

end XmlStream
