/-!
# Texts

A text is a list of characters, and a place in it is an offset in bytes of its UTF-8
form. Only the offsets between two characters are places where a text can be cut:
`dropBytes?` and `takeBytes?` answer `none` inside a character and past the end, and
`slice?` is the piece between two such offsets.
-/

namespace OnePass.Text

/-- Length of `text` in bytes. -/
def byteLength (text : List Char) : Nat :=
  text.foldl (fun n c => n + c.utf8Size) 0

@[simp] theorem byteLength_nil : byteLength [] = 0 := rfl

theorem foldl_add_utf8Size (n : Nat) (text : List Char) :
    text.foldl (fun n c => n + c.utf8Size) n = n + byteLength text := by
  induction text generalizing n with
  | nil => rfl
  | cons c rest ih =>
    rw [byteLength, List.foldl_cons, List.foldl_cons, ih, ih, Nat.zero_add, Nat.add_assoc]

@[simp] theorem byteLength_cons (c : Char) (text : List Char) :
    byteLength (c :: text) = c.utf8Size + byteLength text := by
  rw [byteLength, List.foldl_cons, foldl_add_utf8Size, Nat.zero_add]

@[simp] theorem byteLength_append (s t : List Char) :
    byteLength (s ++ t) = byteLength s + byteLength t := by
  induction s with
  | nil => simp
  | cons c s ih => simp [ih, Nat.add_assoc]

/-- What is left of a text after exactly `n` bytes. -/
def dropBytes? : Nat → List Char → Option (List Char)
  | 0, text => some text
  | _ + 1, [] => none
  | n + 1, c :: rest =>
    if c.utf8Size ≤ n + 1 then dropBytes? (n + 1 - c.utf8Size) rest else none

/-- The characters that fill exactly `n` bytes, after those in `taken` (latest first). -/
def takeBytesOnto? (taken : List Char) : Nat → List Char → Option (List Char)
  | 0, _ => some taken.reverse
  | _ + 1, [] => none
  | n + 1, c :: rest =>
    if c.utf8Size ≤ n + 1 then takeBytesOnto? (c :: taken) (n + 1 - c.utf8Size) rest else none

/-- The characters at the start of `text` that fill exactly `n` bytes. -/
def takeBytes? (n : Nat) (text : List Char) : Option (List Char) :=
  takeBytesOnto? [] n text

/-- The piece of `text` from byte `start` to byte `stop`; both have to be places between
characters, in this order. -/
def slice? (text : List Char) (start stop : Nat) : Option (List Char) :=
  if start ≤ stop then (dropBytes? start text).bind (takeBytes? (stop - start)) else none

/-- `n` copies of `c`. -/
def repeated (n : Nat) (c : Char) : String :=
  String.ofList (List.replicate n c)

end OnePass.Text
