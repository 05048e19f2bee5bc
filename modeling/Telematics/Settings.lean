import Telematics.Json.Decode
import Telematics.Json.Reader
import Telematics.Number.Decimal
import Telematics.Number.Reader
import Telematics.Number.Word
import Telematics.Time.Timeout

/-!
# Settings of the service

Settings are laid over one another: defaults first, then a JSON file, then variables of the
environment. Each layer gives values to keys; a value is taken for what its key needs if it can be:
a number for a text, a word for a truth value, and so on. Other keys are passed over. A key may be a
path into a value; a setting that is given parts in this way has no plain value any more.
-/

set_option autoImplicit false

namespace Telematics

/-- What the service is started with. -/
structure Settings where
  /-- The address at which it listens. -/
  bindAddress : String
  logLevel : String
  /-- Messages are logged as JSON. -/
  jsonLogs : Bool
  /-- How long a detection may take. -/
  requestTimeout : Timeout
  /-- The fixture that is served, if any. -/
  fixturePath : Option String
deriving DecidableEq

namespace Settings

/-- The settings by their keys. -/
inductive Key where
  | bindAddress
  | logLevel
  | jsonLogs
  | requestTimeout
  | fixturePath
deriving DecidableEq

/-- All keys. -/
def Key.all : List Key := [.bindAddress, .logLevel, .jsonLogs, .requestTimeout, .fixturePath]

/-- The name of a key. -/
def Key.name : Key → String
  | bindAddress => "bind_address"
  | logLevel => "log_level"
  | jsonLogs => "json_logs"
  | requestTimeout => "request_timeout_ms"
  | fixturePath => "fixture_path"

/-- A value of a key, before it is known what it is for. -/
inductive Value where
  | null
  | flag (b : Bool)
  /-- A whole number of 64 bits with a sign. -/
  | whole (n : Int)
  | number (x : Float)
  | text (s : String)
  /-- A value with parts. -/
  | parts
  /-- A table without entries. -/
  | emptyTable

namespace Value

/-- The value as a text. -/
def asText? : Value → Option String
  | text s => some s
  | flag b => some (if b then "true" else "false")
  | whole n => some (toString n)
  | number x => some (Number.plain x)
  | _ => none

/-- The truth value that a word says. -/
def wordTruth? (s : String) : Option Bool :=
  match Text.lowerAscii s with
  | "true" | "on" | "yes" => some true
  | "false" | "off" | "no" => some false
  | _ => none

/-- The value as a truth value. -/
def asFlag? : Value → Option Bool
  | flag b => some b
  | whole n => some (n != 0)
  | number x => some (x != 0.0)
  | text s => if s = "1" then some true else if s = "0" then some false else wordTruth? s
  | _ => none

/-- The value as a count. A number is rounded, and one that is out of range becomes the nearest
count. -/
def asCount? : Value → Option Nat
  | flag b => some (if b then 1 else 0)
  | whole n => if 0 ≤ n then some n.toNat else none
  | number x => some (Number.nearestWithin Number.mostNat64 x)
  | text s =>
    match wordTruth? s with
    | some b => some (if b then 1 else 0)
    | none => (Number.readNat Number.mostNat64 s).toOption
  | _ => none

end Value

/-- Values of keys, the last given first. -/
abbrev Layers := List (Key × Value)

/-- Gives a value to a key. A table without entries adds nothing to what is there. -/
def assign (key : Key) (value : Value) (layers : Layers) : Layers :=
  match value, layers.lookup key with
  | .emptyTable, some _ => layers
  | _, _ => (key, value) :: layers

/-- A character of a name in a path. -/
def isPathChar (c : Char) : Bool := c.isAlphanum || c == '_' || c == '-' || c == ' '

/-- A blank or a tab. -/
def isGap (c : Char) : Bool := c == ' ' || c == '\t'

/-- What follows a position and the bracket that closes it: the position is a whole number of 64
bits with an optional minus sign, with gaps on either side. -/
def afterPosition? (cs : List Char) : Option (List Char) :=
  let (negative, cs) :=
    match cs.dropWhile isGap with
    | '-' :: rest => (true, rest)
    | rest => (false, rest)
  let most := if negative then Number.leastInt64.natAbs else Number.mostInt64.natAbs
  match Number.takeDigits 0 0 cs with
  | (n, count, rest) =>
    match rest.dropWhile isGap with
    | ']' :: after => if 0 < count ∧ n ≤ most then some after else none
    | _ => none

/-- What follows the first name of a path: further names after points, and positions in brackets. -/
def isPathRest (fuel : Nat) (cs : List Char) : Bool :=
  match fuel, cs with
  | _, [] => true
  | 0, _ => false
  | fuel + 1, '.' :: rest =>
    match rest.span isPathChar with
    | ([], _) => false
    | (_, after) => isPathRest fuel after
  | fuel + 1, '[' :: rest => (afterPosition? rest).any fun after => isPathRest fuel after
  | _ + 1, _ => false

/-- The key that a name means, and whether the name is a path into the value of the key. -/
def target? (name : String) : Option (Key × Bool) :=
  match name.toList.span isPathChar with
  | (first, rest) =>
    match Key.all.find? fun k => k.name == String.ofList first with
    | none => none
    | some key =>
      if rest.isEmpty then some (key, false)
      else if isPathRest rest.length rest then some (key, true)
      else none

/-- Gives a value to what a name means. -/
def assignNamed (name : String) (value : Value) (layers : Layers) : Layers :=
  match target? name with
  | none => layers
  | some (key, true) => assign key .parts layers
  | some (key, false) => assign key value layers

/-- What every key starts with. The fixture starts with no value. -/
def defaults : Layers :=
  [(.bindAddress, .text "0.0.0.0:8080"), (.logLevel, .text "info"), (.jsonLogs, .flag false),
    (.requestTimeout, .whole 30000)]

/-- A number is one of 64 bits with a sign or has a floating-point value. -/
def numberValue? (n : NumberLiteral) : Option Value :=
  match n.toInt? with
  | some v => some (if v ≤ Number.mostInt64 then .whole v else .number (Float.ofInt v))
  | none => n.toFloat?.map .number

mutual

/-- Every text and every number of a JSON value can be had. -/
def readable : Json → Bool
  | .number n => (numberValue? n).isSome
  | .text s => s.isSome
  | .array items => readableItems items
  | .object members => readableMembers members
  | _ => true

/-- Every item can be had. -/
def readableItems : List Json → Bool
  | [] => true
  | j :: rest => readable j && readableItems rest

/-- Every member can be had. -/
def readableMembers : List (Option String × Json) → Bool
  | [] => true
  | (name, j) :: rest => name.isSome && readable j && readableMembers rest

end

/-- The value of a JSON value. -/
def valueOf : Json → Value
  | .null => .null
  | .bool b => .flag b
  | .number n => (numberValue? n).getD .null
  | .text s => .text (s.getD "")
  | .array _ => .parts
  | .object [] => .emptyTable
  | .object _ => .parts

/-- The most arrays and objects that a file may nest. -/
def deepest : Nat := 127

/-- The members of an object without those whose names come again later. -/
def lastOfEach : List (Option String × Json) → List (Option String × Json)
  | [] => []
  | m :: rest =>
    if rest.any fun later => later.1 == m.1 then lastOfEach rest else m :: lastOfEach rest

/-- The members of the object that a file holds; of members with one name the last counts. -/
def membersOf? (file : String) : Option (List (Option String × Json)) :=
  match Json.parseWithin deepest file with
  | some (.object members) => if readableMembers members then some (lastOfEach members) else none
  | _ => none

/-- Lays a file over what is there. -/
def addFile? (file : String) (layers : Layers) : Option Layers :=
  (membersOf? file).map fun members =>
    members.foldl (fun layers m => assignNamed (m.1.getD "") (valueOf m.2) layers) layers

/-- What the names of variables start with, in any case. -/
def variableStart : List Char := "segment_api__".toList

/-- Two underscores in the name of a variable are a point. -/
def pathOf : List Char → List Char
  | '_' :: '_' :: rest => '.' :: pathOf rest
  | c :: rest => c :: pathOf rest
  | [] => []

/-- The small letters of a name. The Kelvin sign is a capital K; no other character outside ASCII is
the capital of an ASCII letter. -/
def smallLetters (name : String) : List Char :=
  name.toList.map fun c => if c = '\u212a' then 'k' else c.toLower

/-- The name that a variable means, if it is one of the service. -/
def nameOf? (variableName : String) : Option String :=
  let cs := smallLetters variableName
  if variableStart.isPrefixOf cs then
    some (String.ofList (pathOf (cs.drop variableStart.length)))
  else none

/-- The value of a variable: a truth value or a number if it reads as one. -/
def variableValue (s : String) : Value :=
  match Text.lowerAscii s with
  | "true" => .flag true
  | "false" => .flag false
  | _ =>
    match Number.readInt64 s, Number.readFloat s with
    | .ok n, _ => .whole n
    | .error _, .ok x => .number x
    | .error _, .error _ => .text s

/-- Lays variables over what is there. -/
def addVariables (environment : List (String × String)) (layers : Layers) : Layers :=
  environment.foldl (fun layers v =>
    match nameOf? v.1 with
    | some name => assignNamed name (variableValue v.2) layers
    | none => layers) layers

/-- The path of the fixture; none if there is no value. The outer option is none if the value is no
path. -/
def fixtureOf? (layers : Layers) : Option (Option String) :=
  match layers.lookup .fixturePath with
  | none => some none
  | some .null => some none
  | some value => value.asText?.map some

/-- The settings that layers amount to; none if a value cannot be taken for what its key needs. -/
def ofLayers? (layers : Layers) : Option Settings := do
  let bindAddress ← (layers.lookup .bindAddress).bind Value.asText?
  let logLevel ← (layers.lookup .logLevel).bind Value.asText?
  let jsonLogs ← (layers.lookup .jsonLogs).bind Value.asFlag?
  let millis ← (layers.lookup .requestTimeout).bind Value.asCount?
  let fixturePath ← fixtureOf? layers
  some ⟨bindAddress, logLevel, jsonLogs, ⟨millis⟩, fixturePath⟩

/-- The settings from an optional file and the variables of the environment. -/
def load? (file : Option String) (environment : List (String × String)) : Option Settings :=
  (match file with
    | none => some defaults
    | some text => addFile? text defaults).bind fun layers =>
      ofLayers? (addVariables environment layers)

end Settings

end Telematics
