import Residiuum.Lib.Distinct
import Residiuum.Lib.SortedMap
import Residiuum.Sda.Base16
import Residiuum.Sda.Value

/-!
# The JSON bridge

`from_json` and `to_json` of `sda-core/src/lib.rs`. A JSON object keeps its entries in key order and
a JSON number keeps the text it was written with, as the library is assumed to.
-/

namespace Residiuum.Sda

open DistinctLib SortedMapLib

inductive Json where
  | null
  | bool (b : Bool)
  | number (text : Text)
  | string (s : Text)
  | array (items : List Json)
  | object (entries : List (Text × Json))

def Json.ofEntries (es : List (Text × Json)) : Json := .object (collect es)

/-! ## Reading -/

/-- `obj.get(key)` when it holds a string. -/
def textAt (key : Text) : List (Text × Json) → Option Text
  | [] => none
  | (k, j) :: es =>
    if k = key then
      match j with
      | .string s => some s
      | _ => none
    else textAt key es

mutual

/-- `from_json`. A tag whose fields are missing is no tag. -/
def fromJson : Json → Option Value
  | .null => some .null
  | .bool b => some (.bool b)
  | .number text => match parseLiteral text with
    | .ok n => some (.num n)
    | .error _ => none
  | .string s => some (.str s)
  | .array items => (fromItems items).map .seq
  | .object obj =>
    let plain := (fromEntries obj).map .map
    match textAt "$type".toList obj with
    | none => plain
    | some ty =>
      if ty = "bytes".toList then
        ((textAt "$base16".toList obj).map fun b => (decodeBase16 b).toOption.map .bytes).getD plain
      else if ty = "map".toList then
        ((entriesAt "$entries".toList obj).map fun es => es.map .map).getD plain
      else if ty = "num".toList then
        ((textAt "$value".toList obj).map fun t => (parseCanonical t).toOption.map .num).getD plain
      else if ty = "set".toList then
        ((itemsAt "$items".toList obj).map fun vs => vs.map .set).getD plain
      else if ty = "bag".toList then
        ((itemsAt "$items".toList obj).map fun vs => vs.map .bag).getD plain
      else if ty = "prod".toList then
        ((entriesAt "$fields".toList obj).map fun es => es.map .prod).getD plain
      else if ty = "bagkv".toList then
        ((pairsAt "$items".toList obj).map fun ps => ps.map .bagKV).getD plain
      else if ty = "bind".toList then
        match valueAt "$key".toList obj, valueAt "$val".toList obj with
        | some k, some v => k.bind fun k => v.map fun v => .bind k v
        | _, _ => plain
      else if ty = "some".toList then
        ((valueAt "$value".toList obj).map fun v => v.map .some_).getD plain
      else if ty = "none".toList then some .none_
      else if ty = "ok".toList then
        ((valueAt "$value".toList obj).map fun v => v.map .ok_).getD plain
      else if ty = "fail".toList then
        some (.fail_ ((textAt "$code".toList obj).getD []) ((textAt "$msg".toList obj).getD []))
      else plain
termination_by structural j => j

def fromItems : List Json → Option (List Value)
  | [] => some []
  | j :: js => (fromJson j).bind fun v => (fromItems js).map (v :: ·)

/-- Every entry of an object. -/
def fromEntries : List (Text × Json) → Option (List (Text × Value))
  | [] => some []
  | (k, j) :: es => (fromJson j).bind fun v => (fromEntries es).map ((k, v) :: ·)

/-- The items that are arrays of two, as pairs; others are skipped. -/
def fromPairs : List Json → Option (List (Value × Value))
  | [] => some []
  | .array [a, b] :: js =>
    (fromJson a).bind fun a => (fromJson b).bind fun b => (fromPairs js).map ((a, b) :: ·)
  | _ :: js => fromPairs js

/-- `obj.get(key)`, converted. -/
def valueAt (key : Text) : List (Text × Json) → Option (Option Value)
  | [] => none
  | (k, j) :: es => if k = key then some (fromJson j) else valueAt key es

/-- `obj.get(key)` when it holds an array, its items converted. -/
def itemsAt (key : Text) : List (Text × Json) → Option (Option (List Value))
  | [] => none
  | (k, .array items) :: es => if k = key then some (fromItems items) else itemsAt key es
  | (k, _) :: es => if k = key then none else itemsAt key es

/-- `obj.get(key)` when it holds an array, its pairs converted. -/
def pairsAt (key : Text) : List (Text × Json) → Option (Option (List (Value × Value)))
  | [] => none
  | (k, .array items) :: es => if k = key then some (fromPairs items) else pairsAt key es
  | (k, _) :: es => if k = key then none else pairsAt key es

/-- `obj.get(key)` when it holds an object, its entries converted. -/
def entriesAt (key : Text) : List (Text × Json) → Option (Option (List (Text × Value)))
  | [] => none
  | (k, .object obj) :: es => if k = key then some (fromEntries obj) else entriesAt key es
  | (k, _) :: es => if k = key then none else entriesAt key es

end

/-! ## The text of a JSON value -/

def escapeChar (c : Char) : Text :=
  if c = '"' then ['\\', '"']
  else if c = '\\' then ['\\', '\\']
  else if c = '\n' then ['\\', 'n']
  else if c = '\r' then ['\\', 'r']
  else if c = '\t' then ['\\', 't']
  else if c.toNat = 8 then ['\\', 'b']
  else if c.toNat = 12 then ['\\', 'f']
  else if c.toNat < 32 then
    ['\\', 'u', '0', '0', Nat.digitChar (c.toNat / 16), Nat.digitChar (c.toNat % 16)]
  else [c]

def stringText (s : Text) : Text := '"' :: s.flatMap escapeChar ++ ['"']

/-- The entries sorted by key, as `canonical_json_text` sorts them. -/
def sortEntries {ν : Type} (es : List (Text × ν)) : List (Text × ν) :=
  sortBy (fun a b => compare a.1 b.1) es

def joinComma : List Text → Text
  | [] => []
  | [t] => t
  | t :: ts => t ++ ',' :: joinComma ts

mutual

def canonicalJsonText : Json → Text
  | .null => "null".toList
  | .bool true => "true".toList
  | .bool false => "false".toList
  | .number text => text
  | .string s => stringText s
  | .array items => '[' :: joinComma (itemTexts items) ++ [']']
  | .object es =>
    '{' :: joinComma ((sortEntries (entryTexts es)).map fun e => stringText e.1 ++ ':' :: e.2) ++
      ['}']
termination_by structural j => j

def itemTexts : List Json → List Text
  | [] => []
  | j :: js => canonicalJsonText j :: itemTexts js

def entryTexts : List (Text × Json) → List (Text × Text)
  | [] => []
  | (k, j) :: es => (k, canonicalJsonText j) :: entryTexts es

end

/-- `sort_by_key(canonical_json_text)`. -/
def sortRendered (js : List Json) : List Json :=
  sortBy (fun a b => compare (canonicalJsonText a) (canonicalJsonText b)) js

/-! ## Writing -/

def reservedJsonTag (tag : Text) : Bool :=
  ["map", "num", "bytes", "set", "bag", "prod", "bagkv", "bind", "some", "none", "ok", "fail",
    "fn"].any fun t => tag == t.toList

def shouldWrapMap (es : List (Text × Json)) : Bool := (textAt "$type".toList es).any reservedJsonTag

/-- The deduplication loop of `canonicalize_set_items`, over items with their renderings. -/
def pushUnique (unique : List (Value × Json)) (item : Value × Json) : List (Value × Json) :=
  if unique.any fun existing => existing.1.eq item.1 then unique else unique ++ [item]

def canonicalizeSetItems (items : List (Value × Json)) : List Json :=
  sortRendered ((items.foldl pushUnique []).map Prod.snd)

def canonicalizeMapEntries (es : List (Text × Json)) : List (Text × Json) := sortEntries es

def tagged (tag : String) (fields : List (Text × Json)) : Json :=
  .ofEntries (("$type".toList, .string tag.toList) :: fields)

/-- A map, wrapped when it would look like a tagged object. -/
def mapJson (es : List (Text × Json)) : Json :=
  let mapped := canonicalizeMapEntries es
  if shouldWrapMap mapped then tagged "map" [("$entries".toList, .ofEntries mapped)]
  else .ofEntries mapped

mutual

/-- `to_json`, for a given rendering of numbers. -/
def render (num : ExactNum → Json) : Value → Json
  | .null => .null
  | .bool b => .bool b
  | .num n => num n
  | .str s => .string s
  | .bytes b => tagged "bytes" [("$base16".toList, .string (encodeBase16 b))]
  | .seq items => .array (renderItems num items)
  | .set items =>
    tagged "set"
      [("$items".toList, .array (canonicalizeSetItems (items.zip (renderItems num items))))]
  | .bag items => tagged "bag" [("$items".toList, .array (sortRendered (renderItems num items)))]
  | .map es => mapJson (renderEntries num es)
  | .prod es => tagged "prod" [("$fields".toList, .ofEntries (renderEntries num es))]
  | .bagKV ps => tagged "bagkv" [("$items".toList, .array (sortRendered (renderPairs num ps)))]
  | .bind k v => tagged "bind" [("$key".toList, render num k), ("$val".toList, render num v)]
  | .some_ v => tagged "some" [("$value".toList, render num v)]
  | .none_ => tagged "none" []
  | .ok_ v => tagged "ok" [("$value".toList, render num v)]
  | .fail_ code msg => tagged "fail" [("$code".toList, .string code), ("$msg".toList, .string msg)]
  | .lambda _ _ _ => tagged "fn" []
termination_by structural v => v

def renderItems (num : ExactNum → Json) : List Value → List Json
  | [] => []
  | v :: vs => render num v :: renderItems num vs

def renderEntries (num : ExactNum → Json) : List (Text × Value) → List (Text × Json)
  | [] => []
  | (k, v) :: es => (k, render num v) :: renderEntries num es

def renderPairs (num : ExactNum → Json) : List (Value × Value) → List Json
  | [] => []
  | (k, v) :: ps => .array [render num k, render num v] :: renderPairs num ps

end

def numJson (n : ExactNum) : Json :=
  match finiteDecimalString n with
  | some decimal => .number decimal
  | none => tagged "num" [("$value".toList, .string (canonicalString n))]

def toJson (v : Value) : Json := render numJson v

end Residiuum.Sda
