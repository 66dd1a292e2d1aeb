import Mathlib
import TreeCompiler.CommandLine
import TreeCompiler.Proofs.ErrorLimit
import TreeCompiler.Proofs.IntegerTexts
import TreeCompiler.Proofs.SourceRoundTrip

set_option autoImplicit false

namespace TreeCompiler.CommandLine

open Source (Program)
open Diagnostic (Queue)

theorem following?_eq_some {leading text rest : List Char} :
    following? leading text = some rest ↔ text = leading ++ rest := by
  fun_induction following? leading text with
  | case1 rest' => simp [eq_comm]
  | case2 => simp
  | case3 c leading text ih => simp [ih]
  | case4 c leading d text differ => simp [Ne.symm differ]

theorem optionValue?_eq_some {option argument value : String} :
    optionValue? option argument = some value ↔ argument = option ++ "=" ++ value := by
  have written : (option ++ "=" ++ value).toList = (option ++ "=").toList ++ value.toList :=
    String.toList_append
  rw [optionValue?, Option.map_eq_some_iff, ← String.toList_inj, written]
  constructor
  · rintro ⟨rest, found, rfl⟩
    rw [following?_eq_some.mp found, String.toList_ofList]
  · intro same
    exact ⟨value.toList, following?_eq_some.mpr same, String.ofList_toList⟩

def isOption (argument : String) : Bool := ['-', '-'].isPrefixOf argument.toList

def AsksWordSize (argument : String) (bytes : Int) : Prop :=
  ∃ value, argument = "--word-size=" ++ value ∧ Text.IsInteger value.toList bytes ∧
    1 ≤ bytes ∧ bytes ≤ 1024

def AsksErrorLimit (argument : String) (limit : Nat) : Prop :=
  ∃ value, argument = "--error-limit=" ++ value ∧ Text.IsWhole value.toList limit ∧
    limit ≤ 0xffffffffffffffff

/-- The argument cannot be taken into account, and what is written about it. -/
inductive Rejected : String → String → Prop
  | noInteger {value : String} {fault : Text.IntegerFault}
      (unreadable : ∀ n, Text.IsInteger value.toList n →
        n < -0x8000000000000000 ∨ 0x7fffffffffffffff < n)
      (cause : Text.readInt64 value = .error fault) :
      Rejected ("--word-size=" ++ value)
        ("error: invalid word size `" ++ value ++ "`: " ++ fault.message ++ "\n")
  | outOfRange {value : String} {n : Int} (isInteger : Text.IsInteger value.toList n)
      (readable : -0x8000000000000000 ≤ n ∧ n ≤ 0x7fffffffffffffff) (outside : n < 1 ∨ 1024 < n) :
      Rejected ("--word-size=" ++ value) ("error: " ++ InvalidWordSize.message ⟨n⟩ ++ "\n")
  | noWhole {value : String}
      (unreadable : ∀ n, Text.IsWhole value.toList n → 0xffffffffffffffff < n) :
      Rejected ("--error-limit=" ++ value) ("error: invalid error limit `" ++ value ++ "`\n")
  | unknown {argument : String} (option : isOption argument = true)
      (noWordSize : ∀ value, argument ≠ "--word-size=" ++ value)
      (noErrorLimit : ∀ value, argument ≠ "--error-limit=" ++ value) :
      Rejected argument ("error: unknown option `" ++ argument ++ "`\n")

section Arguments

variable {argument value complaint : String} {bytes : Int} {limit : Nat}

theorem wordSize_ne_errorLimit (value value' : String) :
    "--word-size=" ++ value ≠ "--error-limit=" ++ value' := by
  rw [ne_eq, ← String.toList_inj, String.toList_append, String.toList_append]
  simp

theorem optionValue?_wordSize (value : String) :
    optionValue? "--word-size" ("--word-size=" ++ value) = some value :=
  optionValue?_eq_some.mpr rfl

theorem optionValue?_errorLimit (value : String) :
    optionValue? "--word-size" ("--error-limit=" ++ value) = none ∧
      optionValue? "--error-limit" ("--error-limit=" ++ value) = some value := by
  refine ⟨?_, optionValue?_eq_some.mpr rfl⟩
  rw [Option.eq_none_iff_forall_ne_some]
  intro other found
  exact wordSize_ne_errorLimit other value (optionValue?_eq_some.mp found).symm

theorem isSome_following? (argument : String) :
    (following? ['-', '-'] argument.toList).isSome = isOption argument := by
  rw [Bool.eq_iff_iff, Option.isSome_iff_exists, isOption, List.isPrefixOf_iff_prefix, List.IsPrefix]
  simp only [following?_eq_some, eq_comm (a := argument.toList)]

theorem isOption_wordSize (value : String) : isOption ("--word-size=" ++ value) = true := by
  rw [isOption, String.toList_append]
  rfl

theorem isOption_errorLimit (value : String) : isOption ("--error-limit=" ++ value) = true := by
  rw [isOption, String.toList_append]
  rfl

theorem AsksWordSize.isOption (asks : AsksWordSize argument bytes) : isOption argument = true := by
  obtain ⟨value, rfl, -⟩ := asks
  exact isOption_wordSize value

theorem AsksErrorLimit.isOption (asks : AsksErrorLimit argument limit) :
    isOption argument = true := by
  obtain ⟨value, rfl, -⟩ := asks
  exact isOption_errorLimit value

theorem Rejected.isOption (rejected : Rejected argument complaint) : isOption argument = true := by
  cases rejected with
  | noInteger | outOfRange => exact isOption_wordSize _
  | noWhole => exact isOption_errorLimit _
  | unknown option => exact option

theorem AsksWordSize.not_asksErrorLimit (asks : AsksWordSize argument bytes) :
    ¬AsksErrorLimit argument limit := by
  obtain ⟨value, rfl, -⟩ := asks
  rintro ⟨value', same, -⟩
  exact wordSize_ne_errorLimit value value' same

section Extend

variable (request : Request)

theorem extend_wordSize (asks : AsksWordSize argument bytes) :
    request.extend argument = .ok { request with options.wordSize := bytes } := by
  obtain ⟨value, rfl, isInteger, low, high⟩ := asks
  have read : Text.readInt64 value = .ok bytes :=
    Text.readInt64_eq_ok.mpr ⟨isInteger, by omega, by omega⟩
  obtain ⟨wordSize, checked⟩ := WordSize.check_of_valid ⟨low, high⟩
  rw [Request.extend, optionValue?_wordSize]
  simp only [read, checked, Except.mapError, bind, Except.bind]
  rfl

theorem extend_errorLimit (asks : AsksErrorLimit argument limit) :
    request.extend argument = .ok { request with options.errorLimit := limit } := by
  obtain ⟨value, rfl, isWhole, within⟩ := asks
  have read := Text.readNat_eq_ok.mpr ⟨isWhole, within⟩
  rw [Request.extend, (optionValue?_errorLimit value).1, (optionValue?_errorLimit value).2]
  simp only [read]
  rfl

theorem extend_other (noWordSize : ∀ value, argument ≠ "--word-size=" ++ value)
    (noErrorLimit : ∀ value, argument ≠ "--error-limit=" ++ value) :
    request.extend argument =
      if isOption argument then .error (.unknownOption argument)
      else .ok { request with path? := request.path?.or (some argument) } := by
  have noSize : optionValue? "--word-size" argument = none :=
    Option.eq_none_iff_forall_ne_some.mpr fun value found =>
      noWordSize value (optionValue?_eq_some.mp found)
  have noLimit : optionValue? "--error-limit" argument = none :=
    Option.eq_none_iff_forall_ne_some.mpr fun value found =>
      noErrorLimit value (optionValue?_eq_some.mp found)
  simp only [Request.extend, noSize, noLimit, isSome_following?]

theorem extend_input (input : isOption argument = false) :
    request.extend argument = .ok { request with path? := request.path?.or (some argument) } := by
  have noWordSize (value : String) : argument ≠ "--word-size=" ++ value := by
    rintro rfl
    simp [isOption_wordSize] at input
  have noErrorLimit (value : String) : argument ≠ "--error-limit=" ++ value := by
    rintro rfl
    simp [isOption_errorLimit] at input
  rw [extend_other request noWordSize noErrorLimit, input]
  rfl

theorem AsksWordSize.unique (asks : AsksWordSize argument bytes) {bytes' : Int}
    (asks' : AsksWordSize argument bytes') : bytes = bytes' := by
  have same := (extend_wordSize {} asks).symm.trans (extend_wordSize {} asks')
  cases same
  rfl

theorem AsksErrorLimit.unique (asks : AsksErrorLimit argument limit) {limit' : Nat}
    (asks' : AsksErrorLimit argument limit') : limit = limit' := by
  have same := (extend_errorLimit {} asks).symm.trans (extend_errorLimit {} asks')
  cases same
  rfl

end Extend

-- An argument is an input, or an option that asks for something, or else it is rejected.
theorem argument_cases (argument : String) :
    (∃ complaint, Rejected argument complaint) ∨ isOption argument = false ∨
      (∃ bytes, AsksWordSize argument bytes) ∨ ∃ limit, AsksErrorLimit argument limit := by
  by_cases sizes : ∃ value, argument = "--word-size=" ++ value
  · obtain ⟨value, rfl⟩ := sizes
    cases read : Text.readInt64 value with
    | error fault =>
        refine .inl ⟨_, .noInteger (fun n isInteger => ?_) read⟩
        by_contra readable
        have found := Text.readInt64_eq_ok.mpr ⟨isInteger, by omega, by omega⟩
        rw [read] at found
        cases found
    | ok n =>
        obtain ⟨isInteger, readable⟩ := Text.readInt64_eq_ok.mp read
        by_cases inside : 1 ≤ n ∧ n ≤ 1024
        · exact .inr (.inr (.inl ⟨n, value, rfl, isInteger, inside⟩))
        · exact .inl ⟨_, .outOfRange isInteger readable (by omega)⟩
  by_cases limits : ∃ value, argument = "--error-limit=" ++ value
  · obtain ⟨value, rfl⟩ := limits
    by_cases readable : ∃ n, Text.IsWhole value.toList n ∧ n ≤ 0xffffffffffffffff
    · obtain ⟨n, isWhole, within⟩ := readable
      exact .inr (.inr (.inr ⟨n, value, rfl, isWhole, within⟩))
    · refine .inl ⟨_, .noWhole fun n isWhole => ?_⟩
      by_contra within
      exact readable ⟨n, isWhole, by omega⟩
  cases option : isOption argument with
  | false => exact .inr (.inl rfl)
  | true =>
      exact .inl ⟨_, .unknown option (fun value same => sizes ⟨value, same⟩)
        fun value same => limits ⟨value, same⟩⟩

end Arguments

section LastAsked

variable {α : Type} {Asks : String → α → Prop} {fallback value : α} {arguments : List String}
  {argument : String}

/-- What the last of the arguments to ask for a value asks for, or what holds where none asks. -/
def LastAsked (Asks : String → α → Prop) (fallback : α) (arguments : List String) (value : α) : Prop :=
  (∃ before argument after, arguments = before ++ argument :: after ∧ Asks argument value ∧
    ∀ later ∈ after, ∀ other, ¬Asks later other) ∨
  value = fallback ∧ ∀ argument ∈ arguments, ∀ other, ¬Asks argument other

theorem LastAsked.of_concat (last : LastAsked Asks fallback (arguments ++ [argument]) value) :
    Asks argument value ∨
      (∀ other, ¬Asks argument other) ∧ LastAsked Asks fallback arguments value := by
  rcases last with ⟨before, asker, after, split, asks, later⟩ | ⟨rfl, none⟩
  · cases after using List.reverseRecOn with
    | nil =>
        obtain ⟨-, same⟩ := List.append_inj' split rfl
        obtain rfl : argument = asker := List.singleton_inj.mp same
        exact .inl asks
    | append_singleton after final =>
        rw [← List.cons_append, ← List.append_assoc] at split
        obtain ⟨rfl, same⟩ := List.append_inj' split rfl
        obtain rfl : argument = final := List.singleton_inj.mp same
        obtain ⟨others, silent⟩ := List.forall_mem_append.mp later
        exact .inr ⟨silent argument List.mem_cons_self, .inl ⟨before, asker, after, rfl, asks, others⟩⟩
  · obtain ⟨others, silent⟩ := List.forall_mem_append.mp none
    exact .inr ⟨silent argument List.mem_cons_self, .inr ⟨rfl, others⟩⟩

theorem LastAsked.unique
    (functional : ∀ argument one other, Asks argument one → Asks argument other → one = other)
    {value' : α} (last : LastAsked Asks fallback arguments value)
    (last' : LastAsked Asks fallback arguments value') : value = value' := by
  induction arguments using List.reverseRecOn with
  | nil =>
      rcases last with ⟨before, _, _, split, _⟩ | ⟨rfl, -⟩
      · simp at split
      rcases last' with ⟨before, _, _, split, _⟩ | ⟨rfl, -⟩
      · simp at split
      rfl
  | append_singleton arguments argument ih =>
      rcases last.of_concat with asks | ⟨silent, last⟩
      · rcases last'.of_concat with asks' | ⟨silent, -⟩
        · exact functional argument value value' asks asks'
        · exact absurd asks (silent value)
      · rcases last'.of_concat with asks' | ⟨-, last'⟩
        · exact absurd asks' (silent value')
        · exact ih last last'

theorem LastAsked.asked (asks : Asks argument value) :
    LastAsked Asks fallback (arguments ++ [argument]) value :=
  .inl ⟨arguments, argument, [], rfl, asks, List.forall_mem_nil _⟩

theorem LastAsked.silent (last : LastAsked Asks fallback arguments value)
    (silent : ∀ other, ¬Asks argument other) :
    LastAsked Asks fallback (arguments ++ [argument]) value := by
  rcases last with ⟨before, asker, after, rfl, asks, later⟩ | ⟨rfl, none⟩
  · refine .inl ⟨before, asker, after ++ [argument], by simp, asks, ?_⟩
    exact List.forall_mem_append.mpr ⟨later, List.forall_mem_singleton.mpr silent⟩
  · exact .inr ⟨rfl, List.forall_mem_append.mpr ⟨none, List.forall_mem_singleton.mpr silent⟩⟩

end LastAsked

section Requests

variable {arguments : List String} {argument : String} {request : Request}

structure Reflects (arguments : List String) (request : Request) : Prop where
  path : request.path? = arguments.find? (!isOption ·)
  wordSize : LastAsked AsksWordSize 8 arguments request.options.wordSize
  errorLimit : LastAsked AsksErrorLimit 10 arguments request.options.errorLimit

theorem Reflects.extend (reflects : Reflects arguments request)
    (accepted : ∀ complaint, ¬Rejected argument complaint) :
    ∃ next, request.extend argument = .ok next ∧ Reflects (arguments ++ [argument]) next := by
  have path (option : isOption argument = true) :
      request.path? = (arguments ++ [argument]).find? (!isOption ·) := by
    simp [reflects.path, List.find?_append, option]
  rcases argument_cases argument with ⟨complaint, rejected⟩ | input | ⟨bytes, asks⟩ | ⟨limit, asks⟩
  · exact absurd rejected (accepted complaint)
  · have noWordSize (bytes : Int) (asks : AsksWordSize argument bytes) : False := by
      simp [asks.isOption] at input
    have noErrorLimit (limit : Nat) (asks : AsksErrorLimit argument limit) : False := by
      simp [asks.isOption] at input
    refine ⟨_, extend_input request input, ?_, reflects.wordSize.silent noWordSize,
      reflects.errorLimit.silent noErrorLimit⟩
    simp [reflects.path, List.find?_append, input]
  · exact ⟨_, extend_wordSize request asks, path asks.isOption, .asked asks,
      reflects.errorLimit.silent fun _ => asks.not_asksErrorLimit⟩
  · exact ⟨_, extend_errorLimit request asks, path asks.isOption,
      reflects.wordSize.silent fun _ other => other.not_asksErrorLimit asks, .asked asks⟩

end Requests

section Commands

variable {arguments : List String} {request : Request}

end Commands

namespace Directory

def Holds (directory : Directory) (path : String) (bytes : ByteArray) : Prop :=
  path ≠ "" ∧ path.utf8ByteSize ≤ pathLimit ∧
    ∃ place, (path.splitOn "/").foldlM directory.follow
        (if path.startsWith "/" then .outside else .inside []) = .ok place ∧
      directory.entry? place = some (.file bytes)

theorem textOfBytes_eq_ok {bytes : ByteArray} {text : String} :
    textOfBytes bytes = .ok text ↔ bytes = text.toUTF8 := by
  by_cases valid : bytes.IsValidUTF8
  · have found : String.fromUTF8? bytes = some (.fromUTF8 bytes valid) := dif_pos valid
    rw [textOfBytes, found, Except.ok.injEq, ← String.toByteArray_inj]
    rfl
  · have none : String.fromUTF8? bytes = none := dif_neg valid
    rw [textOfBytes, none]
    constructor
    · rintro ⟨⟩
    · rintro rfl
      exact absurd text.isValidUTF8 valid

theorem read_eq_ok {directory : Directory} {path text : String} :
    directory.read path = .ok text ↔ directory.Holds path text.toUTF8 := by
  unfold Directory.read Holds
  by_cases empty : path = ""
  · simp [empty, throw, throwThe, MonadExceptOf.throw, bind, Except.bind]
  by_cases long : path.utf8ByteSize > pathLimit
  · simp [empty, long, Nat.not_le.mpr long, throw, throwThe, MonadExceptOf.throw, bind, Except.bind]
  simp only [empty, long, Nat.not_lt.mp long, if_false, ne_eq, not_false_eq_true, true_and, bind,
    Except.bind]
  cases (path.splitOn "/").foldlM directory.follow
      (if path.startsWith "/" then .outside else .inside []) with
  | error => simp
  | ok place =>
      simp only [Except.ok.injEq, exists_eq_left']
      cases directory.entry? place with
      | none => simp [throw, throwThe, MonadExceptOf.throw]
      | some entry =>
          cases entry with
          | directory => simp [throw, throwThe, MonadExceptOf.throw]
          | file bytes => simp [textOfBytes_eq_ok]

end Directory

section Compile

variable {program : Program} {diagnostic : Diagnostic}

end Compile

/-- The file is the UTF-8 text of a program that compiles to these fragments. -/
def Builds (directory : Directory) (path : String) (options : Options)
    (fragments : List (Code.Fragment StackFrame)) : Prop :=
  ∃ text program, directory.Holds path text.toUTF8 ∧ Program.parse text = .ok program ∧
    compile program options = .ok fragments

section Run

variable {directory : Directory} {path : String} {options : Options} {arguments : List String}

theorem Builds.run {fragments : List (Code.Fragment StackFrame)}
    (builds : Builds directory path options fragments) :
    (Command.compile path options).run directory.read =
      { exitCode := 0, stdout := Code.listing fragments, stderr := "" } := by
  obtain ⟨text, program, held, parsed, compiled⟩ := builds
  simp only [Command.run, Directory.read_eq_ok.mpr held, compileText, parsed, compiled]
  rfl

end Run

end TreeCompiler.CommandLine
