import Std.Data.HashMap

namespace XmlStream

/-! Bindings of prefixes to namespaces, in the order in which they came into
scope. A binding hides the older ones of its prefix until it goes out of scope.

A few bindings are searched from the newest one back. Many bindings are found
through an index, in which every binding remembers the one it hides, so that the
index can be wound back when bindings are dropped. -/

namespace Namespace

def xml : String := "http://www.w3.org/XML/1998/namespace"

def declarations : String := "http://www.w3.org/2000/xmlns/"

end Namespace

structure Binding where
  nsPrefix : String
  uri : String
  /-- Whether the declaration stands in the output, or need not stand there. -/
  declared : Bool
  /-- The position of the binding that this one hides. It is kept while there is
  an index. -/
  hidden : Option Nat := none
deriving DecidableEq, Repr

/-- All bindings in scope, oldest first, and the index if there is one. The index
gives the position of the newest binding of a prefix. -/
structure Bindings where
  entries : Array Binding := #[]
  index : Option (Std.HashMap String Nat) := none

namespace Bindings

/-- More bindings than this are searched through an index. -/
def scanLimit : Nat := 16

def size (bindings : Bindings) : Nat := bindings.entries.size

def isIndexed (bindings : Bindings) : Bool := bindings.index.isSome

def newestBelow (entries : Array Binding) (wanted : Nat → Binding → Bool) :
    (bound : Nat) → Option Nat
  | 0 => none
  | position + 1 =>
    match entries[position]? with
    | some binding =>
      if wanted position binding then some position
      else newestBelow entries wanted position
    | none => newestBelow entries wanted position

def newest (bindings : Bindings) (wanted : Nat → Binding → Bool) : Option Nat :=
  newestBelow bindings.entries wanted bindings.size

def lookup? (bindings : Bindings) (nsPrefix : String) : Option Nat :=
  match bindings.index with
  | some index => index[nsPrefix]?
  | none => bindings.newest fun _ binding => binding.nsPrefix == nsPrefix

def lookupFrom? (bindings : Bindings) (mark : Nat) (nsPrefix : String) : Option Nat :=
  match bindings.index with
  | some index => index[nsPrefix]?.filter (mark ≤ ·)
  | none =>
    bindings.newest fun position binding =>
      mark ≤ position && binding.nsPrefix == nsPrefix

def boundTo? (bindings : Bindings) (nsPrefix uri : String) : Option Nat :=
  (bindings.lookup? nsPrefix).filter fun position =>
    bindings.entries[position]?.any (·.uri == uri)

def isVisible (bindings : Bindings) (position : Nat) (binding : Binding) : Bool :=
  bindings.lookup? binding.nsPrefix == some position

/-- The prefix that stands for a namespace. Of several the newest is taken. -/
def findPrefix? (bindings : Bindings) (uri : String) : Option String := do
  let position ← bindings.newest fun position binding =>
    binding.uri == uri && bindings.isVisible position binding
  let binding ← bindings.entries[position]?
  return binding.nsPrefix

/-- Enter the binding at a position into an index, noting which one it hides. -/
def enter (target : Array Binding × Std.HashMap String Nat) (position : Nat) :
    Array Binding × Std.HashMap String Nat :=
  match target.1[position]? with
  | none => target
  | some binding =>
    (target.1.setIfInBounds position { binding with hidden := target.2[binding.nsPrefix]? },
      target.2.insert binding.nsPrefix position)

def indexed (entries : Array Binding) : Bindings :=
  let (entries, index) := (List.range entries.size).foldl enter (entries, ∅)
  { entries, index := some index }

/-- Add a binding. One binding too many to be searched makes an index. -/
def push (bindings : Bindings) (nsPrefix uri : String) (declared : Bool) : Bindings :=
  let entries := bindings.entries.push { nsPrefix, uri, declared }
  match bindings.index with
  | some index =>
    let (entries, index) := enter (entries, index) bindings.size
    { entries, index := some index }
  | none => if scanLimit < entries.size then indexed entries else { entries }

def setDeclared (bindings : Bindings) (position : Nat) : Bindings :=
  match bindings.entries[position]? with
  | none => bindings
  | some binding =>
    { bindings with
      entries := bindings.entries.setIfInBounds position { binding with declared := true } }

/-- Take the newest binding out of an index. What it hid is found again. -/
def leave (index : Std.HashMap String Nat) (binding : Binding) : Std.HashMap String Nat :=
  match binding.hidden with
  | some older => index.insert binding.nsPrefix older
  | none => index.erase binding.nsPrefix

def popTo (bindings : Bindings) (mark : Nat) : Bindings :=
  let dropped := (bindings.entries.toList.drop mark).reverse
  { entries := bindings.entries.take mark
    index := bindings.index.map fun index => dropped.foldl leave index }

def initial : Bindings := ({} : Bindings).push "xml" Namespace.xml true

/-- The positions from `mark` on, newest first, whose declarations are still owed.
A binding that is hidden by a newer one of its prefix is owed none. -/
def owed (bindings : Bindings) (mark : Nat) : List (Nat × Binding) :=
  ((bindings.entries.toList.zipIdx.drop mark).reverse.filter fun (binding, position) =>
    !binding.declared && bindings.isVisible position binding).map Prod.swap

def generatedPrefix (depth number : Nat) : String := s!"d{depth}p{number}"

/-- The first number after `count` whose prefix is not bound, if it is among the
next `tries` ones; else the number after these. -/
def freshNumber (bindings : Bindings) (depth count : Nat) : (tries : Nat) → Nat
  | 0 => count + 1
  | tries + 1 =>
    if (bindings.lookup? (generatedPrefix depth (count + 1))).isNone then count + 1
    else bindings.freshNumber depth (count + 1) tries

/-- The first number after `count` whose prefix is not bound. Each binding can
spoil one number only, so one more try than there are bindings is enough. -/
def nextNumber (bindings : Bindings) (depth count : Nat) : Nat :=
  bindings.freshNumber depth count bindings.size

end Bindings

end XmlStream
