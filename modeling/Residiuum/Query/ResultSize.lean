import Residiuum.Sda.Json

/-!
# The size of a query result

`json_byte_len` of `query_bytecode_v1/core_phases.rs` counts the bytes of the compact encoding of a
value without encoding it.

* **`json_byte_len_exact`**: the count is the number of bytes, up to the largest `u64`.
-/

namespace Residiuum.Query

open List Sda

mutual

/-- `serde_json::to_string`: no white space, the entries of an object in the order of its map. -/
def compactText : Json → Text
  | .null => "null".toList
  | .bool true => "true".toList
  | .bool false => "false".toList
  | .number text => text
  | .string s => stringText s
  | .array items => '[' :: joinComma (compactItems items) ++ [']']
  | .object fields => '{' :: joinComma (compactFields fields) ++ ['}']

def compactItems : List Json → List Text
  | [] => []
  | j :: js => compactText j :: compactItems js

def compactFields : List (Text × Json) → List Text
  | [] => []
  | (k, j) :: es => (stringText k ++ ':' :: compactText j) :: compactFields es

end

/-- The number of bytes of a text in UTF-8. -/
def byteLen (t : Text) : ℕ := (t.flatMap String.utf8EncodeChar).length

def saturate (n : ℕ) : ℕ := min n (2 ^ 64 - 1)

def saturatingAdd (a b : ℕ) : ℕ := saturate (a + b)

def charByteLen (c : Char) : ℕ :=
  if c = '"' ∨ c = '\\' ∨ c.toNat = 8 ∨ c = '\t' ∨ c = '\n' ∨ c.toNat = 12 ∨ c = '\r' then 2
  else if c.toNat ≤ 0x1f then 6
  else c.utf8Size

def jsonStringByteLen (s : Text) : ℕ :=
  saturatingAdd 2 (s.foldl (fun length c => saturatingAdd length (charByteLen c)) 0)

mutual

def jsonByteLen : Json → ℕ
  | .null => 4
  | .bool true => 4
  | .bool false => 5
  | .number text => byteLen text
  | .string s => jsonStringByteLen s
  | .array items => saturatingAdd (saturatingAdd 2 (items.length - 1)) (itemsByteLen 0 items)
  | .object fields =>
    saturatingAdd (saturatingAdd (saturatingAdd 2 (fields.length - 1)) fields.length)
      (fieldsByteLen 0 fields)

/-- The fold over the items of an array. -/
def itemsByteLen (total : ℕ) : List Json → ℕ
  | [] => total
  | j :: js => itemsByteLen (saturatingAdd total (jsonByteLen j)) js

/-- The fold over the fields of an object. -/
def fieldsByteLen (total : ℕ) : List (Text × Json) → ℕ
  | [] => total
  | (k, j) :: es =>
    fieldsByteLen (saturatingAdd (saturatingAdd total (jsonStringByteLen k)) (jsonByteLen j)) es

end

/-! ## Counting and encoding -/

theorem saturate_inj {a b : ℕ} :
    saturate a = saturate b ↔ a = b ∨ 2 ^ 64 - 1 ≤ a ∧ 2 ^ 64 - 1 ≤ b := by
  unfold saturate
  omega

theorem saturatingAdd_eq (a b : ℕ) :
    saturatingAdd a b = a + b ∨ 2 ^ 64 - 1 ≤ a + b ∧ saturatingAdd a b = 2 ^ 64 - 1 := by
  unfold saturatingAdd saturate
  omega

@[simp] theorem byteLen_nil : byteLen [] = 0 := rfl

@[simp] theorem byteLen_cons (c : Char) (t : Text) : byteLen (c :: t) = c.utf8Size + byteLen t := by
  simp [byteLen]

@[simp] theorem byteLen_append (s t : Text) : byteLen (s ++ t) = byteLen s + byteLen t := by
  simp [byteLen]

/-- Both escape tables give every character the same length. -/
theorem byteLen_escapeChar (c : Char) : byteLen (escapeChar c) = charByteLen c := by
  have hhex : ∀ n < 32,
      byteLen ['\\', 'u', '0', '0', (n / 16).digitChar, (n % 16).digitChar] = 6 := by decide
  unfold escapeChar charByteLen
  split_ifs with _ _ _ _ _ _ _ hcontrol
  all_goals first
    | exact hhex _ hcontrol
    | rfl
    | omega
    | simp_all

theorem saturate_foldl (n : ℕ) (s : Text) :
    saturate (s.foldl (fun length c => saturatingAdd length (charByteLen c)) n) =
      saturate (n + byteLen (s.flatMap escapeChar)) := by
  induction s generalizing n with
  | nil => simp
  | cons c s ih =>
    have hadd := saturatingAdd_eq n (charByteLen c)
    rw [foldl_cons, ih, saturate_inj]
    simp only [flatMap_cons, byteLen_append, byteLen_escapeChar]
    omega

theorem saturate_jsonStringByteLen (s : Text) :
    saturate (jsonStringByteLen s) = saturate (byteLen (stringText s)) := by
  have hquote : '"'.utf8Size = 1 := rfl
  have hadd := saturatingAdd_eq 2 (s.foldl (fun n c => saturatingAdd n (charByteLen c)) 0)
  have hfold := saturate_foldl 0 s
  rw [saturate_inj] at hfold ⊢
  simp only [jsonStringByteLen, stringText, cons_append, byteLen_cons, byteLen_append, byteLen_nil,
    hquote]
  omega

theorem byteLen_joinComma (ts : List Text) :
    byteLen (joinComma ts) = ts.length - 1 + byteLen ts.flatten := by
  fun_induction joinComma ts with
  | case1 => simp
  | case2 t => simp
  | case3 t ts hts ih =>
    have hpos := length_pos_iff.mpr hts
    have hcomma : ','.utf8Size = 1 := rfl
    simp only [byteLen_append, byteLen_cons, hcomma, ih, length_cons, flatten_cons]
    omega

/-- An array or an object: two brackets, the commas and the parts. -/
theorem byteLen_brackets {l r : Char} (hl : l.utf8Size = 1) (hr : r.utf8Size = 1) (ts : List Text) :
    byteLen (l :: joinComma ts ++ [r]) = 2 + (ts.length - 1) + byteLen ts.flatten := by
  simp only [cons_append, byteLen_cons, byteLen_append, byteLen_joinComma, byteLen_nil, hl, hr]
  omega

theorem length_compactItems (js : List Json) : (compactItems js).length = js.length := by
  induction js with
  | nil => rfl
  | cons j js ih => simp [compactItems, ih]

theorem length_compactFields (es : List (Text × Json)) : (compactFields es).length = es.length := by
  induction es with
  | nil => rfl
  | cons e es ih => simp [compactFields, ih]

mutual

theorem saturate_jsonByteLen : ∀ j, saturate (jsonByteLen j) = saturate (byteLen (compactText j))
  | .null | .bool true | .bool false | .number _ => rfl
  | .string s => saturate_jsonStringByteLen s
  | .array items => by
    have hitems := saturate_itemsByteLen items 0
    have hcommas := saturatingAdd_eq 2 (items.length - 1)
    have hadd := saturatingAdd_eq (saturatingAdd 2 (items.length - 1)) (itemsByteLen 0 items)
    rw [compactText, byteLen_brackets rfl rfl, length_compactItems, jsonByteLen]
    rw [saturate_inj] at hitems ⊢
    omega
  | .object fields => by
    have hfields := saturate_fieldsByteLen fields 0
    have hcommas := saturatingAdd_eq 2 (fields.length - 1)
    have hcolons := saturatingAdd_eq (saturatingAdd 2 (fields.length - 1)) fields.length
    have hadd := saturatingAdd_eq
      (saturatingAdd (saturatingAdd 2 (fields.length - 1)) fields.length) (fieldsByteLen 0 fields)
    rw [compactText, byteLen_brackets rfl rfl, length_compactFields, jsonByteLen]
    rw [saturate_inj] at hfields ⊢
    omega

theorem saturate_itemsByteLen : ∀ js total,
    saturate (itemsByteLen total js) = saturate (total + byteLen (compactItems js).flatten)
  | [], total => by simp [itemsByteLen, compactItems]
  | j :: js, total => by
    have hj := saturate_jsonByteLen j
    have hadd := saturatingAdd_eq total (jsonByteLen j)
    rw [itemsByteLen, saturate_itemsByteLen js, compactItems, flatten_cons, byteLen_append]
    rw [saturate_inj] at hj ⊢
    omega

/-- Each field has a colon, which the fold does not count. -/
theorem saturate_fieldsByteLen : ∀ es total, saturate (fieldsByteLen total es + es.length) =
    saturate (total + byteLen (compactFields es).flatten)
  | [], total => by simp [fieldsByteLen, compactFields]
  | (k, j) :: es, total => by
    have hcolon : ':'.utf8Size = 1 := rfl
    have hk := saturate_jsonStringByteLen k
    have hj := saturate_jsonByteLen j
    have hkey := saturatingAdd_eq total (jsonStringByteLen k)
    have hadd := saturatingAdd_eq (saturatingAdd total (jsonStringByteLen k)) (jsonByteLen j)
    have hes := saturate_fieldsByteLen es
      (saturatingAdd (saturatingAdd total (jsonStringByteLen k)) (jsonByteLen j))
    rw [saturate_inj] at hk hj hes ⊢
    simp only [fieldsByteLen, compactFields, flatten_cons, length_cons, byteLen_append,
      byteLen_cons, hcolon]
    omega

end

theorem saturatingAdd_lt (a b : ℕ) : saturatingAdd a b < 2 ^ 64 := by
  unfold saturatingAdd saturate
  omega

/-- **The count is the length of the encoding** if that fits in `u64`. -/
theorem json_byte_len_exact (j : Json) (h : byteLen (compactText j) < 2 ^ 64) :
    jsonByteLen j = byteLen (compactText j) := by
  have hlen := saturate_inj.mp (saturate_jsonByteLen j)
  have hlt : jsonByteLen j < 2 ^ 64 := by
    cases j with
    | null => decide
    | bool b => cases b <;> decide
    | number text => exact h
    | string s | array items | object fields => exact saturatingAdd_lt ..
  omega

theorem json_byte_len_nested :
    jsonByteLen (.array [.null, .string ['é', '\n', Char.ofNat 1]]) = 19 :=
  json_byte_len_exact (.array [.null, .string ['é', '\n', Char.ofNat 1]]) (by decide)

end Residiuum.Query
