import OnePass.Tree.Handle

/-!
# Entities

An entity is what a name can stand for: a variable, a function or a type. Everything but a
variable can stand where a type is expected; a function there means its own type.
-/

namespace OnePass

/-- How the bits of an atomic type are read: as a float, as a signed number, or raw. Reading
both ways at once comes from combining two types and counts as a float. -/
structure Reading where
  signed : Bool
  float : Bool
deriving DecidableEq, Inhabited

namespace Reading

/-- Bits without a sign. -/
def raw : Reading := ⟨false, false⟩

/-- A number with a sign. -/
def asSigned : Reading := ⟨true, false⟩

/-- A float. -/
def asFloat : Reading := ⟨false, true⟩

/-- Both readings at once. -/
def join (a b : Reading) : Reading := ⟨a.signed || b.signed, a.float || b.float⟩

/-- The one reading that prevails: float over signed over raw. -/
def dominant (r : Reading) : Reading :=
  if r.float then asFloat else if r.signed then asSigned else raw

/-- The word for the reading that prevails. -/
def label (r : Reading) : String :=
  if r.float then "float" else if r.signed then "signed" else "raw"

end Reading

/-- An atomic type: a reading and a size in bytes. -/
structure Atom where
  reading : Reading
  size : Nat
deriving DecidableEq, Inhabited

/-- What an entity is. -/
inductive EntityKind where
  /-- A variable of a type, alive between two points that are set later. -/
  | var (type : EntityId) (start stop : Nat)
  /-- A function: its parameters in order, and what it returns. -/
  | function (params : List EntityId) (result : EntityId)
  | void
  | atom (atom : Atom)
  /-- A structure; its members are the names of a frame. -/
  | struct (frame : FrameId)
  /-- An enumeration; its members are the names of a frame. -/
  | enum (frame : FrameId)
deriving DecidableEq, Inhabited

namespace EntityKind

/-- The word for the sort of entity. -/
def label : EntityKind → String
  | .var .. => "Var"
  | .function .. => "Function"
  | .void => "Void_Type"
  | .atom _ => "Atom_Type"
  | .struct _ => "Struct_Type"
  | .enum _ => "Enum_Type"

/-- Whether the entity holds a value. -/
def isValue : EntityKind → Bool
  | .var .. => true
  | _ => false

end EntityKind

/-- What a name can stand for. -/
structure Entity where
  name : String
  kind : EntityKind
deriving DecidableEq, Inhabited

namespace Entity

/-- A variable that is not alive anywhere yet. -/
def var (name : String) (type : EntityId) : Entity := ⟨name, .var type 0 0⟩

/-- Whether the entity is a variable. -/
def isVar (e : Entity) : Bool := e.kind.isValue

/-- Whether the entity can stand where a type is expected. -/
def isType (e : Entity) : Bool := !e.isVar

/-- The atomic type that the entity is. -/
def atom? (e : Entity) : Option Atom :=
  match e.kind with
  | .atom a => some a
  | _ => none

/-- Parameters and result of the function that the entity is. -/
def function? (e : Entity) : Option (List EntityId × EntityId) :=
  match e.kind with
  | .function params result => some (params, result)
  | _ => none

/-- The frame of the members of a structure. -/
def structFrame? (e : Entity) : Option FrameId :=
  match e.kind with
  | .struct frame => some frame
  | _ => none

/-- The frame of the members of a structure or enumeration. -/
def recordFrame? (e : Entity) : Option FrameId :=
  match e.kind with
  | .struct frame => some frame
  | .enum frame => some frame
  | _ => none

end Entity

end OnePass
