import TreeCompiler.Json.Reader

set_option autoImplicit false

namespace TreeCompiler.Json.Reader

def hexDigit? (c : Char) : Option Nat :=
  if c.isDigit then some (c.toNat - '0'.toNat)
  else if 'a' ≤ c ∧ c ≤ 'f' then some (c.toNat - 'a'.toNat + 10)
  else if 'A' ≤ c ∧ c ≤ 'F' then some (c.toNat - 'A'.toNat + 10)
  else none

def hexUnit? (a b c d : Char) : Option Nat := do
  return (((← hexDigit? a) * 16 + (← hexDigit? b)) * 16 + (← hexDigit? c)) * 16 + (← hexDigit? d)

def codeUnitFault (text : List Char) : Fault :=
  -- With less than four bytes left the text breaks off.
  if (String.ofList (text.take 4)).utf8ByteSize < 4 then .unfinished .string
  else .malformed .invalidEscape

def codeUnit (text : List Char) : Except Fault (Nat × List Char) :=
  match text with
  | a :: b :: c :: d :: rest =>
      match hexUnit? a b c d with
      | some unit => .ok (unit, rest)
      | none => .error (codeUnitFault text)
  | _ => .error (codeUnitFault text)

def isHighSurrogate (unit : Nat) : Bool := 0xD800 ≤ unit && unit ≤ 0xDBFF

def isLowSurrogate (unit : Nat) : Bool := 0xDC00 ≤ unit && unit ≤ 0xDFFF

def lowHalf (high : Nat) : List Char → Except Fault (Char × List Char)
  | [] | ['\\'] => .error (.unfinished .string)
  | '\\' :: 'u' :: text => do
      let (low, rest) ← codeUnit text
      if isLowSurrogate low then
        .ok (Char.ofNat (0x10000 + (high - 0xD800) * 0x400 + (low - 0xDC00)), rest)
      else
        .error (.malformed .loneSurrogate)
  | _ => .error (.malformed .unpairedSurrogate)

def shortEscape? : Char → Option Char
  | '"' => some '"'
  | '\\' => some '\\'
  | '/' => some '/'
  | 'b' => some '\x08'
  | 'f' => some '\x0c'
  | 'n' => some '\n'
  | 'r' => some '\r'
  | 't' => some '\t'
  | _ => none

def escape : List Char → Except Fault (Char × List Char)
  | [] => .error (.unfinished .string)
  | 'u' :: text => do
      let (unit, rest) ← codeUnit text
      if isLowSurrogate unit then .error (.malformed .loneSurrogate)
      else if isHighSurrogate unit then lowHalf unit rest
      else .ok (Char.ofNat unit, rest)
  | c :: rest =>
      match shortEscape? c with
      | some character => .ok (character, rest)
      | none => .error (.malformed .invalidEscape)

theorem length_of_codeUnit {text rest : List Char} {unit : Nat}
    (read : codeUnit text = .ok (unit, rest)) : rest.length < text.length := by
  unfold codeUnit at read
  split at read
  · split at read
    · simp only [Except.ok.injEq, Prod.mk.injEq] at read
      simp only [← read.2, List.length_cons]
      omega
    · cases read
  · cases read

theorem length_of_lowHalf {high : Nat} {text rest : List Char} {c : Char}
    (read : lowHalf high text = .ok (c, rest)) : rest.length < text.length := by
  unfold lowHalf at read
  split at read
  · cases read
  · cases read
  · next text =>
    cases unitRead : codeUnit text with
    | error fault => simp [unitRead, bind, Except.bind] at read
    | ok result =>
        obtain ⟨low, after⟩ := result
        have shorter := length_of_codeUnit unitRead
        simp only [unitRead, bind, Except.bind] at read
        split at read
        · simp only [Except.ok.injEq, Prod.mk.injEq] at read
          simp only [← read.2, List.length_cons]
          omega
        · cases read
  · cases read

theorem length_of_escape {text rest : List Char} {c : Char}
    (read : escape text = .ok (c, rest)) : rest.length < text.length := by
  unfold escape at read
  split at read
  · cases read
  · next text =>
    cases unitRead : codeUnit text with
    | error fault => simp [unitRead, bind, Except.bind] at read
    | ok result =>
        obtain ⟨unit, after⟩ := result
        have shorter := length_of_codeUnit unitRead
        simp only [unitRead, bind, Except.bind] at read
        split at read
        · cases read
        · split at read
          · have shorterStill := length_of_lowHalf read
            simp only [List.length_cons]
            omega
          · simp only [Except.ok.injEq, Prod.mk.injEq] at read
            simp only [← read.2, List.length_cons]
            omega
  · split at read
    · simp only [Except.ok.injEq, Prod.mk.injEq] at read
      simp [← read.2]
    · cases read

def stringFrom (reversed : List Char) (text : List Char) : Except Fault (String × List Char) :=
  match text with
  | [] => .error (.unfinished .string)
  | '"' :: rest => .ok (String.ofList reversed.reverse, rest)
  | '\\' :: rest =>
      match read : escape rest with
      | .ok (c, after) =>
          have := length_of_escape read
          stringFrom (c :: reversed) after
      | .error fault => .error fault
  | c :: rest =>
      if c.toNat < 0x20 then .error (.malformed .controlCharacter)
      else stringFrom (c :: reversed) rest
termination_by text.length

def string : Reader String := do
  advance
  stringFrom []

def skipEscape : List Char → Except Fault (List Char)
  | [] => .error (.unfinished .string)
  -- Surrogates need no partner in a string that is passed over.
  | 'u' :: text => (codeUnit text).map Prod.snd
  | c :: rest =>
      if (shortEscape? c).isSome then .ok rest else .error (.malformed .invalidEscape)

theorem length_of_skipEscape {text rest : List Char} (read : skipEscape text = .ok rest) :
    rest.length < text.length := by
  unfold skipEscape at read
  split at read
  · cases read
  · next text =>
    cases unitRead : codeUnit text with
    | error fault => simp [unitRead, Except.map] at read
    | ok result =>
        have shorter := length_of_codeUnit unitRead
        simp only [unitRead, Except.map, Except.ok.injEq] at read
        simp only [← read, List.length_cons]
        omega
  · split at read
    · simp only [Except.ok.injEq] at read
      simp [← read]
    · cases read

def skipStringFrom (text : List Char) : Except Fault (List Char) :=
  match text with
  | [] => .error (.unfinished .string)
  | '"' :: rest => .ok rest
  | '\\' :: rest =>
      match read : skipEscape rest with
      | .ok after =>
          have := length_of_skipEscape read
          skipStringFrom after
      | .error fault => .error fault
  | c :: rest =>
      if c.toNat < 0x20 then .error (.malformed .controlCharacter) else skipStringFrom rest
termination_by text.length

def skipString : Reader Unit := do
  advance
  fun text => (skipStringFrom text).map ((), ·)

end TreeCompiler.Json.Reader
