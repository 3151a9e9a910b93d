import OnePass.Number.Binary64
import OnePass.Span
import OnePass.Tree.Handle
import OnePass.Tree.Operator

/-!
# Expressions

The nodes of the tree. A node refers to its children, and to entities and frames, by
handles. Operators keep the type found for them when the node was made, so that the type of
an expression is known without walking down the tree.
-/

namespace OnePass

/-- What an expression is. -/
inductive Node where
  | char (byte : UInt8)
  | text (value : String)
  /-- A whole number that fits into `size` bytes. -/
  | int (value size : Nat)
  | float (value : Number.Binary64) (size : Nat)
  | bool (value : Bool)
  /-- `type` is the type of the operand. -/
  | unary (op : UnaryOp) (side : Side) (type : EntityId) (operand : ExprId)
  /-- `type` is the type of the result. -/
  | binary (op : BinaryOp) (type : EntityId) (left right : ExprId)
  /-- An expression between parentheses. -/
  | group (inner : ExprId)
  | scope (body : List ExprId) (frame : FrameId)
  | result (value : Option ExprId) (function : EntityId)
  /-- The use of a name. -/
  | name (name : String) (entity : Option EntityId)
  /-- The definition of a variable or constant; `next` is the one after a comma. -/
  | definition (name : String) (op : DefOp) (init : Option ExprId) (entity : EntityId)
      (next : Option ExprId)
  /-- Parameters, as a chain of definitions, and what is returned. -/
  | signature (params : Option ExprId) (result : EntityId) (frame : FrameId)
  | function (name : String) (function : EntityId) (signature scope : ExprId)
  | call (callee : ExprId) (function : EntityId) (args : Option ExprId)
  /-- One argument; `next` is the one after it. -/
  | argument (value : ExprId) (next : Option ExprId)
  | branch (cond thenScope : ExprId) (elseScope : Option ExprId) (frame : FrameId)
  | loop (init cond step scope : ExprId) (frame : FrameId)
  | whileLoop (cond scope : ExprId) (frame : FrameId)
  /-- The members of a record, before it has a name. -/
  | record (form : RecordForm) (body : List ExprId) (frame : FrameId)
  /-- A record and the name given to it. -/
  | typedef (name : String) (op : DefOp) (record : ExprId) (entity : EntityId)
  | member (base : ExprId) (name : String) (entity : EntityId)
  /-- A structure with a value per member. -/
  | structLiteral (type : EntityId) (args : Option ExprId)
deriving DecidableEq, Inhabited

namespace Node

/-- The word for the sort of node. -/
def label : Node → String
  | .char .. => "Char_Expr"
  | .text .. => "Str_Expr"
  | .int .. => "Int_Expr"
  | .float .. => "Float_Expr"
  | .bool .. => "Bool_Expr"
  | .unary .. => "Unary_Expr"
  | .binary .. => "Binary_Expr"
  | .group .. => "Nested_Expr"
  | .scope .. => "Scope_Expr"
  | .result .. => "Return_Expr"
  | .name .. => "Id_Expr"
  | .definition .. => "Def_Expr"
  | .signature .. => "Signature_Expr"
  | .function .. => "Function_Expr"
  | .call .. => "Invoke_Expr"
  | .argument .. => "Argument_Expr"
  | .branch .. => "If_Expr"
  | .loop .. => "For_Expr"
  | .whileLoop .. => "For_While_Expr"
  | .record .. => "Record_Expr"
  | .typedef .. => "Typedef_Expr"
  | .member .. => "Member_Expr"
  | .structLiteral .. => "Struct_Lit_Expr"

end Node

/-- A node and the part of the source that it was made from. -/
structure Expr where
  node : Node
  span : Span
deriving DecidableEq, Inhabited

end OnePass
