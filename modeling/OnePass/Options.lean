/-!
# Options

The arguments of the command: the path of one source, and flags before or after it. The first
argument that cannot stand, in order, decides what is reported.
-/

namespace OnePass

/-- What the command is asked to do. -/
structure Options where
  path : String
  /-- Show the names of every frame after the tree. -/
  frames : Bool
  /-- Show no tree. -/
  quiet : Bool
deriving DecidableEq

/-- Why arguments are not taken. -/
inductive OptionsError where
  | help
  | missingPath
  | unexpected (argument : String)
  | unknownOption (argument : String)
deriving DecidableEq

/-- The wording. -/
def OptionsError.message : OptionsError → String
  | .help => "help requested"
  | .missingPath => "missing source file"
  | .unexpected argument => "unexpected argument '" ++ argument ++ "'"
  | .unknownOption argument => "unknown option '" ++ argument ++ "'"

namespace Options

/-- Reads arguments after those that gave `path`, `frames` and `quiet`. -/
def parseFrom (path : Option String) (frames quiet : Bool) :
    List String → Except OptionsError Options
  | [] =>
    match path with
    | some path => .ok ⟨path, frames, quiet⟩
    | none => .error .missingPath
  | argument :: rest =>
    if argument = "-h" ∨ argument = "--help" then .error .help
    else if argument = "--frames" then parseFrom path true quiet rest
    else if argument = "-q" ∨ argument = "--quiet" then parseFrom path frames true rest
    else if argument.toList.head? = some '-' then .error (.unknownOption argument)
    else if path.isSome then .error (.unexpected argument)
    else parseFrom (some argument) frames quiet rest

/-- Reads the arguments after the name of the command. -/
def parse (arguments : List String) : Except OptionsError Options :=
  parseFrom none false false arguments

end Options

end OnePass
