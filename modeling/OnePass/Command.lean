import OnePass.Options
import OnePass.Parse
import OnePass.Tree.Dump

/-!
# The command

What the command writes and how it ends, given a way to read files. `Command.run` works in
any monad that can read them.
-/

namespace OnePass.Command

/-- Why a file cannot be read. -/
inductive ReadError where
  /-- The system refuses; reasons are numbered. -/
  | system (reason : Nat)
  /-- The file does not hold text. -/
  | notText
deriving DecidableEq

/-- The system's words for the reasons why a file is not opened or not read. -/
def reasonText : Nat → String
  | 1 => "Operation not permitted"
  | 2 => "No such file or directory"
  | 4 => "Interrupted system call"
  | 5 => "Input/output error"
  | 6 => "No such device or address"
  | 11 => "Resource temporarily unavailable"
  | 12 => "Cannot allocate memory"
  | 13 => "Permission denied"
  | 16 => "Device or resource busy"
  | 19 => "No such device"
  | 20 => "Not a directory"
  | 21 => "Is a directory"
  | 22 => "Invalid argument"
  | 23 => "Too many open files in system"
  | 24 => "Too many open files"
  | 26 => "Text file busy"
  | 27 => "File too large"
  | 36 => "File name too long"
  | 40 => "Too many levels of symbolic links"
  | 75 => "Value too large for defined data type"
  | 116 => "Stale file handle"
  | reason => s!"Unknown error {reason}"

/-- The wording. -/
def ReadError.message : ReadError → String
  | .system reason => s!"{reasonText reason} (os error {reason})"
  | .notText => "stream did not contain valid UTF-8"

/-- How the command ends, and what it has written. -/
structure Outcome where
  exit : Nat
  stdout : String
  stderr : String
deriving DecidableEq

/-- How the command is used. -/
def usage : String :=
  "Usage: beec <file.bee> [options]\n\nOptions:\n"
    ++ "  --frames    Also print the definitions of every frame\n"
    ++ "  --quiet     Only report success or the first error\n"

/-- Arguments that are not taken. -/
def refuse : OptionsError → Outcome
  | .help => ⟨0, "", usage⟩
  | e => ⟨1, "", "error: " ++ e.message ++ "\n" ++ usage⟩

/-- A file that cannot be read. -/
def unreadable (path : String) (e : ReadError) : Outcome :=
  ⟨1, "", "error: cannot read '" ++ path ++ "': " ++ e.message ++ "\n"⟩

/-- What is written about a tree. -/
def present (options : Options) (tree : Tree) : String :=
  if options.quiet then options.path ++ ": ok\n"
  else tree.render ++ (if options.frames then tree.renderFrames else "")

/-- A source that has been read. -/
def check (options : Options) (source : String) : Outcome :=
  match parseSource source with
  | .ok tree => ⟨0, present options tree, ""⟩
  | .error fault => ⟨1, "", (fault.report source.toList).toText ++ "\n"⟩

/-- The command with its arguments. -/
def run {m : Type → Type} [Monad m] (read : String → m (Except ReadError ByteArray))
    (arguments : List String) : m Outcome := do
  match Options.parse arguments with
  | .error e => return refuse e
  | .ok options =>
    match ← read options.path with
    | .error e => return unreadable options.path e
    | .ok bytes =>
      match String.fromUTF8? bytes with
      | none => return unreadable options.path .notText
      | some source => return check options source

end OnePass.Command
