import XmlStream.Escape

namespace XmlStream

/-! Settings of a writer. -/

inductive Formatting
  | plain
  | indented
deriving DecidableEq, Repr

/-- A number of characters, as a machine word. -/
structure Width where
  toNat : Nat
  small : toNat < Nat.pow 2 64
deriving DecidableEq, Repr

namespace Width

def limit : Nat := Nat.pow 2 64

def ofNat? (number : Nat) : Option Width :=
  if small : number < limit then some ⟨number, small⟩ else none

/-- The word that is left of a number. -/
def ofNat (number : Nat) : Width := ⟨number % limit, Nat.mod_lt _ (by decide)⟩

instance (number : Nat) : OfNat Width number := ⟨ofNat number⟩

instance : Coe Width Nat := ⟨toNat⟩

instance : Coe Nat Width := ⟨ofNat⟩

/-- So many times a width. The product is a word, too, and wraps around where it does not fit. -/
def times (width : Width) (level : Nat) : Nat := level * width.toNat % limit

theorem times_of_lt {width : Width} {level : Nat} (fits : level * width.toNat < limit) :
    width.times level = level * width.toNat :=
  Nat.mod_eq_of_lt fits

@[simp] theorem times_zero (width : Width) : width.times 0 = 0 := by simp [times]

theorem times_of_le_one {width : Width} {level : Nat} (outer : level ≤ 1) :
    width.times level = level * width.toNat := by
  refine times_of_lt (Nat.lt_of_le_of_lt ?_ width.small)
  simpa using Nat.mul_le_mul_right width.toNat outer

end Width

structure Settings where
  namespaces : Bool := true
  formatting : Formatting := .plain
  indentation : Width := 2
  indentChar : Char := ' '
  quote : Quote := .double
deriving DecidableEq, Repr

namespace Settings

def indenting : Settings := { formatting := .indented }

def indents (settings : Settings) : Bool := settings.formatting = .indented

end Settings

end XmlStream
