import LlmGate.Shared.Text

set_option autoImplicit false

namespace LlmGate

inductive Number
  | uint (value : Nat)
  | negInt (magnitude : Nat)
  | float (bits : UInt64)
deriving DecidableEq, Repr

/-- `serde_json::Value`. -/
inductive Json
  | null
  | bool (value : Bool)
  | num (value : Number)
  | str (value : Str)
  | arr (items : List Json)
  | obj (fields : List (Str × Json))
deriving Repr, Inhabited

namespace Json

def ofNat (n : Nat) : Json := .num (.uint n)

-- Of equal keys the last one counts, as in a map that is filled in order.
def lookupLast {V : Type} : List (Str × V) → Str → Option V
  | [], _ => none
  | (key, value) :: rest, wanted =>
    (lookupLast rest wanted).or (if wanted = key then some value else none)

def get (value : Json) (key : Str) : Option Json :=
  match value with
  | .obj fields => lookupLast fields key
  | _ => none

def asStr : Json → Option Str
  | .str text => some text
  | _ => none

def asBool : Json → Option Bool
  | .bool flag => some flag
  | _ => none

def asU64 : Json → Option Nat
  | .num (.uint n) => some n
  | _ => none

def asArray : Json → Option (List Json)
  | .arr items => some items
  | _ => none

def asObject : Json → Option (List (Str × Json))
  | .obj fields => some fields
  | _ => none

-- `v.get(key).and_then(Value::as_str)` and its siblings.
def getStr (value : Json) (key : Str) : Option Str := (value.get key).bind asStr
def getU64 (value : Json) (key : Str) : Option Nat := (value.get key).bind asU64
def getBool (value : Json) (key : Str) : Option Bool := (value.get key).bind asBool
def getArray (value : Json) (key : Str) : Option (List Json) := (value.get key).bind asArray

-- `as u32`.
def truncate32 (n : Nat) : Nat := n % 2 ^ 32

mutual
def mapStrings (f : Str → Str) : Json → Json
  | .str text => .str (f text)
  | .arr items => .arr (mapItems f items)
  | .obj fields => .obj (mapFields f fields)
  | .null => .null
  | .bool flag => .bool flag
  | .num n => .num n
def mapItems (f : Str → Str) : List Json → List Json
  | [] => []
  | item :: rest => mapStrings f item :: mapItems f rest
def mapFields (f : Str → Str) : List (Str × Json) → List (Str × Json)
  | [] => []
  | (key, value) :: rest => (key, mapStrings f value) :: mapFields f rest
end

mutual
def strings : Json → List Str
  | .str text => [text]
  | .arr items => itemStrings items
  | .obj fields => fieldStrings fields
  | .null => []
  | .bool _ => []
  | .num _ => []
def itemStrings : List Json → List Str
  | [] => []
  | item :: rest => strings item ++ itemStrings rest
def fieldStrings : List (Str × Json) → List Str
  | [] => []
  | (_, value) :: rest => strings value ++ fieldStrings rest
end

def hexDigit (n : Nat) : Char := if n < 10 then Char.ofNat (48 + n) else Char.ofNat (87 + n)

-- serde_json's escape table.
def escapeChar (c : Char) : Str :=
  if c = '"' then ['\\', '"']
  else if c = '\\' then ['\\', '\\']
  else if c = Char.ofNat 8 then ['\\', 'b']
  else if c = '\t' then ['\\', 't']
  else if c = '\n' then ['\\', 'n']
  else if c = Char.ofNat 12 then ['\\', 'f']
  else if c = '\r' then ['\\', 'r']
  else if c.toNat < 32 then
    ['\\', 'u', '0', '0', hexDigit (c.toNat / 16), hexDigit (c.toNat % 16)]
  else [c]

def escape (text : Str) : Str := text.flatMap escapeChar

-- `serde_json::to_string` of a string.
def quote (text : Str) : Str := '"' :: (escape text ++ ['"'])

def renderNumber (float : UInt64 → Str) : Number → Str
  | .uint value => Text.decimal value
  | .negInt magnitude => '-' :: Text.decimal magnitude
  | .float bits => float bits

-- `Display` of a value; `float` writes a finite `f64`.
mutual
def render (float : UInt64 → Str) : Json → Str
  | .null => "null"
  | .bool true => "true"
  | .bool false => "false"
  | .num n => renderNumber float n
  | .str text => quote text
  | .arr items => '[' :: (renderItems float items ++ [']'])
  | .obj fields => '\x7b' :: (renderFields float fields ++ ['\x7d'])
def renderItems (float : UInt64 → Str) : List Json → Str
  | [] => []
  | [item] => render float item
  | item :: rest => render float item ++ ',' :: renderItems float rest
def renderFields (float : UInt64 → Str) : List (Str × Json) → Str
  | [] => []
  | [(key, value)] => quote key ++ ':' :: render float value
  | (key, value) :: rest => quote key ++ ':' :: render float value ++ ',' :: renderFields float rest
end

end Json

end LlmGate
