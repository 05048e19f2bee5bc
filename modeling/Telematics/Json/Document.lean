import Telematics.Number.Decimal

/-!
# JSON documents to be written

A document is what records and answers are turned into before they leave: texts, truth values,
numbers, lists, and objects whose members keep their order. `Document.render` writes one as JSON
text without blanks. A number that is not finite has no JSON text and is written as null.
-/

set_option autoImplicit false

namespace Telematics

/-- A JSON document. -/
inductive Document where
  | null
  | bool (b : Bool)
  | whole (n : Int)
  | number (x : Float)
  | text (s : String)
  | list (items : List Document)
  | object (members : List (String × Document))

namespace Document

/-- A document, or null. -/
def optional {α : Type} (toDocument : α → Document) : Option α → Document
  | some a => toDocument a
  | none => null

/-- A character of a text, escaped where JSON asks for it. -/
def escapeChar (c : Char) : List Char :=
  match c with
  | '\"' => ['\\', '\"']
  | '\\' => ['\\', '\\']
  | '\n' => ['\\', 'n']
  | '\r' => ['\\', 'r']
  | '\t' => ['\\', 't']
  | _ =>
    if c.toNat < 0x20 then
      ['\\', 'u', '0', '0', Nat.digitChar (c.toNat / 16), Nat.digitChar (c.toNat % 16)]
    else [c]

/-- A text between quotes. -/
def quote (s : String) : String := "\"" ++ String.ofList (s.toList.flatMap escapeChar) ++ "\""

/-- A number as JSON text. -/
def renderNumber (x : Float) : String :=
  if x.isNaN || x.isInf then "null" else Number.plain x

mutual

/-- The JSON text of a document. -/
def render : Document → String
  | null => "null"
  | bool b => if b then "true" else "false"
  | whole n => toString n
  | number x => renderNumber x
  | text s => quote s
  | list items => "[" ++ renderItems items ++ "]"
  | object members => "\x7b" ++ renderMembers members ++ "\x7d"

/-- The JSON texts of documents with commas between them. -/
def renderItems : List Document → String
  | [] => ""
  | [d] => render d
  | d :: e :: rest => render d ++ "," ++ renderItems (e :: rest)

/-- The JSON texts of members with commas between them. -/
def renderMembers : List (String × Document) → String
  | [] => ""
  | [(name, d)] => quote name ++ ":" ++ render d
  | (name, d) :: m :: rest => quote name ++ ":" ++ render d ++ "," ++ renderMembers (m :: rest)

end

end Document

end Telematics
