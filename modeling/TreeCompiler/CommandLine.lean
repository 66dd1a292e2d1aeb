import TreeCompiler.CommandLine.Directory
import TreeCompiler.Compile
import TreeCompiler.Source.Reader
import TreeCompiler.Text.Integer

set_option autoImplicit false

namespace TreeCompiler.CommandLine

open Diagnostic (Code)
open Source (Program)

structure Outcome where
  exitCode : UInt32
  stdout : String := ""
  stderr : String := ""
  deriving DecidableEq, Repr

def Outcome.success (stdout : String) : Outcome := { exitCode := 0, stdout }

def Outcome.failure (stderr : String) : Outcome := { exitCode := 1, stderr }

inductive Command
  | help
  | version
  | explain (code : String)
  | compile (path : String) (options : Options)
  deriving DecidableEq, Repr

inductive ArgumentFault
  | noArguments
  | missingCode
  | missingInput
  | unknownOption (argument : String)
  | unreadableWordSize (value : String) (fault : Text.IntegerFault)
  | invalidWordSize (invalid : InvalidWordSize)
  | unreadableErrorLimit (value : String)
  deriving DecidableEq, Repr

def usage : String :=
  "mexp compiler\n" ++
  "\n" ++
  "Usage: mexpc <program.json> [options]\n" ++
  "       mexpc --explain <code>\n" ++
  "\n" ++
  "Options:\n" ++
  "  --word-size=<bytes>   Frame word size, 1 to 1024 (default: 8)\n" ++
  "  --error-limit=<n>     Stop collecting after n errors (0: unlimited)\n" ++
  "  --explain <code>      Explain an error code (e.g., E2001)\n" ++
  "  help                  Show this help message\n" ++
  "  version               Show version information\n" ++
  "\n" ++
  "Set RUST_LOG (e.g. RUST_LOG=mexp_translate=trace) for tracing output.\n"

def ArgumentFault.outcome : ArgumentFault → Outcome
  | noArguments => { exitCode := 1, stdout := usage }
  | missingCode => .failure "Usage: mexpc --explain <code>\n"
  | missingInput => { exitCode := 1, stdout := usage, stderr := "error: missing input file\n" }
  | unknownOption argument => .failure ("error: unknown option `" ++ argument ++ "`\n")
  | unreadableWordSize value fault =>
      .failure ("error: invalid word size `" ++ value ++ "`: " ++ fault.message ++ "\n")
  | invalidWordSize invalid => .failure ("error: " ++ invalid.message ++ "\n")
  | unreadableErrorLimit value => .failure ("error: invalid error limit `" ++ value ++ "`\n")

def following? : List Char → List Char → Option (List Char)
  | [], rest => some rest
  | _ :: _, [] => none
  | c :: leading, d :: text => if c = d then following? leading text else none

def optionValue? (option argument : String) : Option String :=
  (following? (option ++ "=").toList argument.toList).map String.ofList

structure Request where
  path? : Option String := none
  options : Options := {}
  deriving DecidableEq, Repr

def Request.extend (request : Request) (argument : String) : Except ArgumentFault Request :=
  -- A later option replaces an earlier one of its name.
  match optionValue? "--word-size" argument with
  | some value => do
      let bytes ← (Text.readInt64 value).mapError (.unreadableWordSize value)
      let _ ← (WordSize.check bytes).mapError .invalidWordSize
      return { request with options.wordSize := bytes }
  | none =>
      match optionValue? "--error-limit" argument with
      | some value => do
          let limit ← (Text.readNat 0xffffffffffffffff value).mapError fun _ => .unreadableErrorLimit value
          return { request with options.errorLimit := limit }
      | none =>
          if (following? ['-', '-'] argument.toList).isSome then .error (.unknownOption argument)
          else .ok { request with path? := request.path?.or (some argument) }

def Command.ofArguments (arguments : List String) : Except ArgumentFault Command :=
  match arguments with
  | [] => .error .noArguments
  | "help" :: _ | "--help" :: _ | "-h" :: _ => .ok .help
  | "version" :: _ | "--version" :: _ => .ok .version
  | ["--explain"] => .error .missingCode
  | "--explain" :: code :: _ => .ok (.explain code)
  | _ => do
      let request ← arguments.foldlM Request.extend {}
      match request.path? with
      | some path => return .compile path request.options
      | none => .error .missingInput

def explain (code : String) : Outcome :=
  match Code.ofText? code with
  | some known => .success (known.text ++ ": " ++ known.description ++ "\n")
  | none => .failure ("error: unknown error code `" ++ code ++ "`\n")

def failureText (error : CompileError) : String :=
  String.join (error.diagnostics.map fun diagnostic => diagnostic.text ++ "\n\n")
    ++ "error: " ++ error.message ++ "\n"

def compileText (path : String) (options : Options) (text : String) : Outcome :=
  match Program.parse text with
  | .error fault =>
      .failure ("error: `" ++ path ++ "` is not a valid source tree: " ++ fault.message ++ "\n")
  | .ok program =>
      match compile program options with
      | .ok fragments => .success (Code.listing fragments)
      | .error error => .failure (failureText error)

def Command.run (readFile : String → Except ReadFailure String) : Command → Outcome
  | help => .success usage
  | version => .success "mexpc 0.1.0\n"
  | explain code => CommandLine.explain code
  | compile path options =>
      match readFile path with
      | .error failure =>
          .failure ("error: cannot read `" ++ path ++ "`: " ++ failure.message ++ "\n")
      | .ok text => compileText path options text

def run (readFile : String → Except ReadFailure String) (arguments : List String) : Outcome :=
  match Command.ofArguments arguments with
  | .ok command => command.run readFile
  | .error fault => fault.outcome

end TreeCompiler.CommandLine
