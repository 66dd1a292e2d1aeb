import TreeCompiler.Bindings

set_option autoImplicit false

namespace TreeCompiler.CommandLine

inductive ReadFailure
  | notFound
  | notDirectory
  | isDirectory
  | nameTooLong
  | notText
  | other (message : String)
  deriving DecidableEq, Repr

def ReadFailure.message : ReadFailure → String
  | notFound => "No such file or directory (os error 2)"
  | notDirectory => "Not a directory (os error 20)"
  | isDirectory => "Is a directory (os error 21)"
  | nameTooLong => "File name too long (os error 36)"
  | notText => "stream did not contain valid UTF-8"
  | other message => message

def textOfBytes (bytes : ByteArray) : Except ReadFailure String :=
  match String.fromUTF8? bytes with
  | some text => .ok text
  | none => .error .notText

inductive Entry
  | file (bytes : ByteArray)
  | directory

/-- A working directory held in memory: what lies below it, by path. -/
structure Directory where
  entries : Bindings Entry

inductive Place
  -- The names, the innermost first.
  | inside (names : List String)
  | outside

namespace Directory

def entry? (directory : Directory) : Place → Option Entry
  | .outside | .inside [] => some .directory
  | .inside names =>
      let path := "/".intercalate names.reverse
      match directory.entries.get? path with
      | some entry => some entry
      | none =>
          -- A path that leads on to an entry is a directory without an entry itself.
          if directory.entries.names.any (·.startsWith (path ++ "/")) then some .directory else none

-- The longest name and the longest path, in bytes.
def nameLimit : Nat := 255

def pathLimit : Nat := 4095

def follow (directory : Directory) (place : Place) (name : String) : Except ReadFailure Place :=
  -- Of what lies outside, no name is known.
  match directory.entry? place, name, place with
  | none, _, _ => .error .notFound
  | some (.file _), _, _ => .error .notDirectory
  | some .directory, "", _ => .ok place
  | some .directory, ".", _ => .ok place
  | some .directory, "..", .inside (_ :: names) => .ok (.inside names)
  | some .directory, "..", _ => .ok .outside
  | some .directory, _, place =>
      if name.utf8ByteSize > nameLimit then .error .nameTooLong
      else match place with
        | .inside names => .ok (.inside (name :: names))
        | .outside => .error .notFound

def read (directory : Directory) (path : String) : Except ReadFailure String := do
  if path = "" then throw .notFound
  if path.utf8ByteSize > pathLimit then throw .nameTooLong
  let start := if path.startsWith "/" then .outside else .inside []
  let place ← (path.splitOn "/").foldlM directory.follow start
  match directory.entry? place with
  | some (.file bytes) => textOfBytes bytes
  | some .directory => throw .isDirectory
  | none => throw .notFound

end Directory

end TreeCompiler.CommandLine
