import TreeCompiler.CommandLine

set_option autoImplicit false

open TreeCompiler CommandLine

def readFailure (code : UInt32) (error : IO.Error) : ReadFailure :=
  -- Some calls report the code negated.
  match code.toInt32.toInt.natAbs with
  | 2 => .notFound
  | 20 => .notDirectory
  | 21 => .isDirectory
  | 36 => .nameTooLong
  | _ => .other (toString error)

def readInput (path : String) : IO (Except ReadFailure String) := do
  try
    return textOfBytes (← IO.FS.readBinFile path)
  catch error =>
    return .error <| match error with
      | .noFileOrDirectory _ code _ | .inappropriateType _ code _ | .invalidArgument _ code _ =>
          readFailure code error
      | _ => .other (toString error)

def main (arguments : List String) : IO UInt32 := do
  let outcome ← match Command.ofArguments arguments with
    | .ok (.compile path options) => do
        let text ← readInput path
        pure (Command.run (fun _ => text) (.compile path options))
    | .ok command => pure (command.run fun _ => .error .notFound)
    | .error fault => pure fault.outcome
  (← IO.getStdout).putStr outcome.stdout
  (← IO.getStderr).putStr outcome.stderr
  return outcome.exitCode
