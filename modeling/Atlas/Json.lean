import Atlas.Lib.Text
import Atlas.Lib.Fallible

/-! The dynamically typed values that cross the program's boundaries: tool arguments and outputs,
    resume payloads and the detail of audit events. A float is held as its shortest decimal form
    (sign, significant digits, exponent), which is what `repr` and the JSON encoder print. Truthiness,
    iteration, `str` and the canonical JSON text (`sort_keys`, compact separators, no ASCII escaping)
    are read off the value. -/

namespace Atlas

/-- A finite float as its shortest round-trip decimal: `± digits · 10 ^ exponent`. -/
structure PyFloat where
  negative : Bool
  digits : ℕ
  exponent : ℤ
  deriving DecidableEq, Repr

/-- `repr` of a float: positional between `1e-4` and `1e16`, scientific outside. -/
def PyFloat.repr (x : PyFloat) : String :=
  let ds := (toString x.digits).toList
  let point : ℤ := ds.length + x.exponent
  let body : List Char :=
    if x.digits = 0 then ['0', '.', '0']
    else if -4 < point ∧ point ≤ 16 then
      if point ≤ 0 then ['0', '.'] ++ List.replicate (-point).toNat '0' ++ ds
      else if point < ds.length then ds.take point.toNat ++ ['.'] ++ ds.drop point.toNat
      else ds ++ List.replicate (point - ds.length).toNat '0' ++ ['.', '0']
    else
      let e := point - 1
      let mantissa := if ds.length = 1 then ds else ds.take 1 ++ ['.'] ++ ds.drop 1
      let power := (toString e.natAbs).toList
      mantissa ++ ['e', if e < 0 then '-' else '+'] ++
        (if power.length = 1 then '0' :: power else power)
  String.ofList (if x.negative then '-' :: body else body)

inductive Json where
  | null
  | bool (b : Bool)
  | int (n : ℤ)
  | float (x : PyFloat)
  | str (s : String)
  | arr (items : List Json)
  | obj (fields : List (String × Json))

/-- The error a Python call ends with: its class and its text. -/
structure PyError where
  type : String
  message : String
  deriving DecidableEq, Repr

namespace Json

/-- `bool(v)`. -/
def truthy : Json → Bool
  | null => false
  | bool b => b
  | int n => n != 0
  | float x => x.digits != 0
  | str s => s != ""
  | arr items => !items.isEmpty
  | obj fields => !fields.isEmpty

/-- `d.get(key)` on the entries of a mapping. -/
def field? (key : String) (fields : List (String × Json)) : Option Json := fields.lookup key

/-- The literal `v is True`. -/
def isTrue : Json → Bool
  | bool true => true
  | _ => false

def typeName : Json → String
  | null => "NoneType"
  | bool _ => "bool"
  | int _ => "int"
  | float _ => "float"
  | str _ => "str"
  | arr _ => "list"
  | obj _ => "dict"

/-- `iter(v)`: lists yield their items, strings their characters, mappings their keys. -/
def iterate : Json → Except PyError (List Json)
  | arr items => .ok items
  | str s => .ok (s.toList.map (fun c => str (String.singleton c)))
  | obj fields => .ok (fields.map (fun f => str f.1))
  | v => .error ⟨"TypeError", "'" ++ v.typeName ++ "' object is not iterable"⟩

/-- `v in ids` for a set of strings: a list or a mapping cannot be hashed. -/
def memberOf (ids : List String) : Json → Except PyError Bool
  | str s => .ok (ids.contains s)
  | arr _ => .error ⟨"TypeError", "unhashable type: 'list'"⟩
  | obj _ => .error ⟨"TypeError", "unhashable type: 'dict'"⟩
  | _ => .ok false

mutual
/-- `repr(v)`. -/
def pyRepr : Json → String
  | null => "None"
  | bool b => if b then "True" else "False"
  | int n => toString n
  | float x => x.repr
  | str s => Text.reprStr s
  | arr items => "[" ++ ", ".intercalate (pyReprItems items) ++ "]"
  | obj fields => "\x7b" ++ ", ".intercalate (pyReprFields fields) ++ "\x7d"

def pyReprItems : List Json → List String
  | [] => []
  | v :: vs => pyRepr v :: pyReprItems vs

def pyReprFields : List (String × Json) → List String
  | [] => []
  | (k, v) :: fs => (Text.reprStr k ++ ": " ++ pyRepr v) :: pyReprFields fs
end

/-- `str(v)`. -/
def pyStr : Json → String
  | str s => s
  | v => pyRepr v

/-- One code point inside a JSON string (`ensure_ascii=False`). -/
def dumpChar (c : Char) : String :=
  if c == '"' then "\\\"" else if c == '\\' then "\\\\"
  else if c == '\n' then "\\n" else if c == '\r' then "\\r" else if c == '\t' then "\\t"
  else if c.toNat == 0x08 then "\\b" else if c.toNat == 0x0c then "\\f"
  else if c.toNat < 0x20 then
    String.ofList ['\\', 'u', '0', '0', Text.hexDigit (c.toNat / 16), Text.hexDigit (c.toNat % 16)]
  else String.singleton c

def dumpStr (s : String) : String := "\"" ++ String.join (s.toList.map dumpChar) ++ "\""

mutual
/-- `json.dumps(v, sort_keys=True, separators=(",", ":"), ensure_ascii=False)`. -/
def dumps : Json → String
  | null => "null"
  | bool b => if b then "true" else "false"
  | int n => toString n
  | float x => x.repr
  | str s => dumpStr s
  | arr items => "[" ++ ",".intercalate (dumpsItems items) ++ "]"
  | obj fields =>
    "\x7b" ++ ",".intercalate
      (((dumpsFields fields).insertionSort (fun a b => a.1 ≤ b.1)).map (·.2)) ++ "\x7d"

def dumpsItems : List Json → List String
  | [] => []
  | v :: vs => dumps v :: dumpsItems vs

/-- Each member with the key it is sorted by. -/
def dumpsFields : List (String × Json) → List (String × String)
  | [] => []
  | (k, v) :: fs => (k, dumpStr k ++ ":" ++ dumps v) :: dumpsFields fs
end

end Json

end Atlas
