import OnePass.Tree.Basic

/-!
# Built-in types

The types that every source finds in its main frame. They are installed first and in one
order, so a built-in type has the same handle in every tree.
-/

namespace OnePass

/-- The built-in types, in the order of their handles. -/
inductive Builtin where
  | void
  | f16 | f32 | f64
  | s8 | s16 | s32 | s64
  | u8 | u16 | u32 | u64
  | char | ssize | usize
  | bool
deriving DecidableEq, Inhabited

namespace Builtin

/-- All built-in types, in order. -/
def all : List Builtin :=
  [.void, .f16, .f32, .f64, .s8, .s16, .s32, .s64, .u8, .u16, .u32, .u64, .char, .ssize,
   .usize, .bool]

/-- The types that arithmetic can result in, in the order in which they are looked at. -/
def composable : List Builtin :=
  [.f16, .f32, .f64, .s8, .s16, .s32, .s64, .u8, .u16, .u32, .u64]

/-- The types of numbers and characters. -/
def atoms : List Builtin := composable ++ [.char, .ssize, .usize]

/-- The name of a built-in type. -/
def name : Builtin → String
  | .void => "void"
  | .f16 => "f16"
  | .f32 => "f32"
  | .f64 => "f64"
  | .s8 => "s8"
  | .s16 => "s16"
  | .s32 => "s32"
  | .s64 => "s64"
  | .u8 => "u8"
  | .u16 => "u16"
  | .u32 => "u32"
  | .u64 => "u64"
  | .char => "char"
  | .ssize => "ssize"
  | .usize => "usize"
  | .bool => "bool"

/-- Size of an address in bytes. -/
def addressSize : Nat := 8

/-- What a built-in type is. -/
def kind : Builtin → EntityKind
  | .void => .void
  | .f16 => .atom ⟨.asFloat, 2⟩
  | .f32 => .atom ⟨.asFloat, 4⟩
  | .f64 => .atom ⟨.asFloat, 8⟩
  | .s8 => .atom ⟨.asSigned, 1⟩
  | .s16 => .atom ⟨.asSigned, 2⟩
  | .s32 => .atom ⟨.asSigned, 4⟩
  | .s64 => .atom ⟨.asSigned, 8⟩
  | .u8 => .atom ⟨.raw, 1⟩
  | .u16 => .atom ⟨.raw, 2⟩
  | .u32 => .atom ⟨.raw, 4⟩
  | .u64 => .atom ⟨.raw, 8⟩
  | .char => .atom ⟨.asSigned, 1⟩
  | .ssize => .atom ⟨.asSigned, addressSize⟩
  | .usize => .atom ⟨.raw, addressSize⟩
  | .bool => .atom ⟨.raw, 1⟩

/-- The entity of a built-in type. -/
def entity (b : Builtin) : Entity := ⟨b.name, b.kind⟩

/-- The handle of a built-in type. -/
def handle (b : Builtin) : EntityId := ⟨b.ctorIdx⟩

end Builtin

/-- The tree in which only the built-in types are defined. -/
def Tree.withBuiltins : Tree :=
  Builtin.all.foldl (fun t b => (t.install b.entity).2) .empty

namespace Builtin

theorem all_getElem?_handle (b : Builtin) : all[b.handle.index]? = some b := by
  cases b <;> rfl

theorem mem_all (b : Builtin) : b ∈ all := List.mem_of_getElem? (all_getElem?_handle b)

/-- In a tree with the built-in types each is found under its handle. -/
theorem entity?_withBuiltins (b : Builtin) :
    Tree.withBuiltins.entity? b.handle = some b.entity := by
  cases b <;> rfl

/-- In a tree with the built-in types each is found under its name. -/
theorem find?_withBuiltins (b : Builtin) :
    Tree.withBuiltins.find? b.name = some b.handle := by
  cases b <;> decide +kernel

end Builtin

end OnePass
