import Telematics.Json.Value

/-!
# Reading JSON

A text is first cut into tokens by a machine that reads one character at a time, then a second
machine reads one token at a time and keeps a stack of the arrays and objects that are still open.
Both accept strict JSON (RFC 8259) only: no comma before a bracket, no leading zeros, no control
characters in strings, nothing after the value.
-/

set_option autoImplicit false

namespace Telematics

namespace Json

/-- The smallest piece of a JSON text. -/
inductive Token where
  | openArray
  | closeArray
  | openObject
  | closeObject
  | colon
  | comma
  /-- A value without parts. -/
  | scalar (value : Json)

/-- What stands in a string literal: a character, or an escaped unit of UTF-16. -/
inductive Piece where
  | char (c : Char)
  /-- A unit of UTF-16. -/
  | unit (n : Nat)

/-- The characters of a string literal; none if half a character stands alone. -/
def joinPieces : List Piece → Option (List Char)
  | [] => some []
  | .char c :: rest => (joinPieces rest).map (c :: ·)
  | .unit high :: .unit low :: rest =>
    if 0xD800 ≤ high ∧ high ≤ 0xDBFF then
      if 0xDC00 ≤ low ∧ low ≤ 0xDFFF then
        (joinPieces rest).map (Char.ofNat (0x10000 + (high - 0xD800) * 0x400 + (low - 0xDC00)) :: ·)
      else none
    else if 0xDC00 ≤ high ∧ high ≤ 0xDFFF then none
    else (joinPieces (.unit low :: rest)).map (Char.ofNat high :: ·)
  | .unit n :: rest =>
    if 0xD800 ≤ n ∧ n ≤ 0xDFFF then none else (joinPieces rest).map (Char.ofNat n :: ·)

/-- The digits at the start of a list of characters, and the characters after them. -/
def spanDigits : List Char → List Nat × List Char
  | [] => ([], [])
  | c :: cs =>
    match Text.digit? c with
    | some d => (d :: (spanDigits cs).1, (spanDigits cs).2)
    | none => ([], c :: cs)

/-- The exponent at the end of a number. -/
def exponentOf : List Char → Option (Option Int)
  | [] => some none
  | c :: cs =>
    if c = 'e' ∨ c = 'E' then
      let (negative, cs) :=
        match cs with
        | '-' :: rest => (true, rest)
        | '+' :: rest => (false, rest)
        | _ => (false, cs)
      match spanDigits cs with
      | ([], _) => none
      | (digits, []) =>
        let n : Int := NumberLiteral.digitsValue digits
        some (some (if negative then -n else n))
      | _ => none
    else none

/-- The number that characters write: no leading zeros, and digits on both sides of a point. -/
def numberOf (cs : List Char) : Option NumberLiteral :=
  let (negative, cs) :=
    match cs with
    | '-' :: rest => (true, rest)
    | _ => (false, cs)
  match spanDigits cs with
  | ([], _) => none
  | (0 :: _ :: _, _) => none
  | (whole, '.' :: rest) =>
    match spanDigits rest with
    | ([], _) => none
    | (fraction, rest) => (exponentOf rest).map fun e => ⟨negative, whole, fraction, e⟩
  | (whole, rest) => (exponentOf rest).map fun e => ⟨negative, whole, [], e⟩

/-- The value that a word of letters names. -/
def wordOf (cs : List Char) : Option Json :=
  match String.ofList cs with
  | "null" => some .null
  | "true" => some (.bool true)
  | "false" => some (.bool false)
  | _ => none

/-- Where the first machine stands; characters and pieces so far are kept last one first. -/
inductive Lexing where
  /-- Between tokens. -/
  | between
  | word (sofar : List Char)
  | number (sofar : List Char)
  | string (sofar : List Piece)
  /-- After a backslash in a string. -/
  | escape (sofar : List Piece)
  /-- In an escaped unit, with so many hexadecimal digits to come. -/
  | unit (sofar : List Piece) (missing : Nat) (value : Nat)

/-- The value of a hexadecimal digit. -/
def hexDigit? (c : Char) : Option Nat :=
  if 'a' ≤ c ∧ c ≤ 'f' then some (c.toNat - 'a'.toNat + 10)
  else if 'A' ≤ c ∧ c ≤ 'F' then some (c.toNat - 'A'.toNat + 10)
  else Text.digit? c

/-- The character that a letter after a backslash stands for. -/
def escaped? : Char → Option Char
  | '\"' => some '\"'
  | '\\' => some '\\'
  | '/' => some '/'
  | 'b' => some '\x08'
  | 'f' => some '\x0c'
  | 'n' => some '\n'
  | 'r' => some '\r'
  | 't' => some '\t'
  | _ => none

/-- A character that numbers are made of. -/
def isNumeric (c : Char) : Bool :=
  (Text.digit? c).isSome || c == '-' || c == '+' || c == '.' || c == 'e' || c == 'E'

/-- A character between tokens: the token that it is, or the place to which it leads. -/
def startToken (c : Char) : Option (List Token × Lexing) :=
  match c with
  | '[' => some ([.openArray], .between)
  | ']' => some ([.closeArray], .between)
  | '\x7b' => some ([.openObject], .between)
  | '\x7d' => some ([.closeObject], .between)
  | ':' => some ([.colon], .between)
  | ',' => some ([.comma], .between)
  | '\"' => some ([], .string [])
  | ' ' | '\t' | '\n' | '\r' => some ([], .between)
  | _ =>
    if c == '-' || (Text.digit? c).isSome then some ([], .number [c])
    else if 'a' ≤ c ∧ c ≤ 'z' then some ([], .word [c])
    else none

/-- One character: the tokens it completes and the place to which it leads; none if it may not stand
there. -/
def lexStep (place : Lexing) (c : Char) : Option (List Token × Lexing) :=
  match place with
  | .between => startToken c
  | .word sofar =>
    if 'a' ≤ c ∧ c ≤ 'z' then some ([], .word (c :: sofar))
    else do
      let value ← wordOf sofar.reverse
      let (tokens, next) ← startToken c
      some (.scalar value :: tokens, next)
  | .number sofar =>
    if isNumeric c then some ([], .number (c :: sofar))
    else do
      let n ← numberOf sofar.reverse
      let (tokens, next) ← startToken c
      some (.scalar (.number n) :: tokens, next)
  | .string sofar =>
    if c = '\"' then
      some ([.scalar (.text ((joinPieces sofar.reverse).map String.ofList))], .between)
    else if c = '\\' then some ([], .escape sofar)
    else if c.toNat < 0x20 then none
    else some ([], .string (.char c :: sofar))
  | .escape sofar =>
    if c = 'u' then some ([], .unit sofar 4 0)
    else (escaped? c).map fun d => ([], .string (.char d :: sofar))
  | .unit sofar missing value =>
    (hexDigit? c).map fun d =>
      if missing ≤ 1 then ([], .string (.unit (16 * value + d) :: sofar))
      else ([], .unit sofar (missing - 1) (16 * value + d))

/-- The tokens that the end of the text completes. -/
def lexEnd : Lexing → Option (List Token)
  | .between => some []
  | .word sofar => (wordOf sofar.reverse).map fun value => [.scalar value]
  | .number sofar => (numberOf sofar.reverse).map fun n => [.scalar (.number n)]
  | _ => none

/-- The tokens of a text, last one first, after those that were read before. -/
def lexAll (place : Lexing) (tokens : List Token) : List Char → Option (List Token)
  | [] => (lexEnd place).map fun more => more.reverse ++ tokens
  | c :: cs =>
    match lexStep place c with
    | some (more, next) => lexAll next (more.reverse ++ tokens) cs
    | none => none

/-- An array or object that is still open; its parts so far are kept last one first. -/
inductive Frame where
  | array (items : List Json)
  /-- An object, and the name of the member that is being read. -/
  | object (members : List (Option String × Json)) (name : Option String)

/-- What the second machine waits for. -/
inductive Await where
  | value
  /-- A value, or the end of an array that has no item yet. -/
  | firstItem
  /-- A name, or the end of an object that has no member yet. -/
  | firstName
  | name
  | colon
  /-- A comma, or the end of what is open. -/
  | next
  /-- Nothing: the value is complete. -/
  | nothing (value : Json)

/-- A value is complete: it becomes a part of what is open, or the whole value. -/
def complete (value : Json) : List Frame → List Frame × Await
  | [] => ([], .nothing value)
  | .array items :: outer => (.array (value :: items) :: outer, .next)
  | .object members name :: outer => (.object ((name, value) :: members) none :: outer, .next)

/-- The first token of a value. -/
def beginValue (stack : List Frame) : Token → Option (List Frame × Await)
  | .openArray => some (.array [] :: stack, .firstItem)
  | .openObject => some (.object [] none :: stack, .firstName)
  | .scalar value => some (complete value stack)
  | _ => none

/-- The name of a member. -/
def beginMember (stack : List Frame) : Token → Option (List Frame × Await)
  | .scalar (.text name) =>
    match stack with
    | .object members _ :: outer => some (.object members name :: outer, .colon)
    | _ => none
  | _ => none

/-- The end of what is open. -/
def close (stack : List Frame) : Token → Option (List Frame × Await)
  | .closeArray =>
    match stack with
    | .array items :: outer => some (complete (.array items.reverse) outer)
    | _ => none
  | .closeObject =>
    match stack with
    | .object members _ :: outer => some (complete (.object members.reverse) outer)
    | _ => none
  | _ => none

/-- A comma in what is open. -/
def nextPart (stack : List Frame) : Option (List Frame × Await) :=
  match stack with
  | .array _ :: _ => some (stack, .value)
  | .object _ _ :: _ => some (stack, .name)
  | [] => none

/-- One token. -/
def parseStep (stack : List Frame) (await : Await) (t : Token) : Option (List Frame × Await) :=
  match await with
  | .value => beginValue stack t
  | .firstItem =>
    match t with
    | .closeArray => close stack t
    | _ => beginValue stack t
  | .firstName =>
    match t with
    | .closeObject => close stack t
    | _ => beginMember stack t
  | .name => beginMember stack t
  | .colon =>
    match t with
    | .colon => some (stack, .value)
    | _ => none
  | .next =>
    match t with
    | .comma => nextPart stack
    | _ => close stack t
  | .nothing _ => none

/-- Reads tokens to the end, never with more than `deepest` arrays and objects open. -/
def parseTokens (deepest : Nat) (stack : List Frame) (await : Await) : List Token → Option Json
  | [] =>
    match await with
    | .nothing value => some value
    | _ => none
  | t :: tokens =>
    match parseStep stack await t with
    | some (stack, await) =>
      if stack.length ≤ deepest then parseTokens deepest stack await tokens else none
    | none => none

/-- The value that a text writes, if no more than `deepest` arrays and objects are nested in it. -/
def parseWithin (deepest : Nat) (s : String) : Option Json :=
  (lexAll .between [] s.toList).bind fun tokens =>
    parseTokens deepest [] .value tokens.reverse

/-- The value that a text writes. -/
def parse (s : String) : Option Json := parseWithin s.length s

end Json

end Telematics
