import OnePass.Tree.Assoc
import OnePass.Tree.Handle

/-!
# Frames

A frame is one lexical scope: the names defined in it, with the entities they stand for, and
a link to the frame around it. It also keeps, per entity, a storage slot if one has been
given out, and per function the scope that is its body.
-/

namespace OnePass

/-- One lexical scope. -/
structure Frame where
  parent : Option FrameId
  /-- Number of frames around this one. -/
  depth : Nat
  names : Assoc String EntityId
  slots : Assoc EntityId Nat
  bodies : Assoc EntityId ExprId
deriving DecidableEq, Inhabited

namespace Frame

/-- A frame without names. -/
def new (parent : Option FrameId) (depth : Nat) : Frame :=
  ⟨parent, depth, .empty, .empty, .empty⟩

/-- The entity that a name stands for in this frame. -/
def find? (f : Frame) (name : String) : Option EntityId := f.names.get? name

/-- Lets a name stand for an entity, instead of any other. -/
def bind (f : Frame) (name : String) (entity : EntityId) : Frame :=
  { f with names := f.names.put name entity }

theorem find?_bind (f : Frame) (name other : String) (entity : EntityId) :
    (f.bind name entity).find? other = if name = other then some entity else f.find? other :=
  f.names.get?_put name other entity

theorem keys_bind (f : Frame) (name : String) (entity : EntityId) :
    (f.bind name entity).names.keys =
      if name ∈ f.names.keys then f.names.keys else f.names.keys ++ [name] :=
  Assoc.keys_replace name entity f.names.entries

/-- The names with their entities, in the order of definition. -/
def entries (f : Frame) : List (String × EntityId) := f.names.entries

/-- The entities named, each once, in the order of definition. -/
def entities (f : Frame) : List EntityId := f.names.values.eraseDups

theorem mem_entities {f : Frame} {m : EntityId} :
    m ∈ f.entities ↔ m ∈ f.names.entries.map Prod.snd := List.mem_eraseDups

/-- Number of names. -/
def size (f : Frame) : Nat := f.names.size

/-- Gives an entity a storage slot, instead of any other. -/
def setSlot (f : Frame) (entity : EntityId) (slot : Nat) : Frame :=
  { f with slots := f.slots.put entity slot }

/-- The storage slot of an entity. -/
def slot? (f : Frame) (entity : EntityId) : Option Nat := f.slots.get? entity

/-- The scope that is the body of a function. -/
def body? (f : Frame) (function : EntityId) : Option ExprId := f.bodies.get? function

/-- Gives a function the scope that is its body. -/
def setBody (f : Frame) (function : EntityId) (body : ExprId) : Frame :=
  { f with bodies := f.bodies.put function body }

/-- Records the body of a function; one that has a body keeps it, which is the answer. -/
def bindBody (f : Frame) (function : EntityId) (body : ExprId) : Except ExprId Frame :=
  match f.body? function with
  | some taken => .error taken
  | none => .ok (f.setBody function body)

end Frame

end OnePass
