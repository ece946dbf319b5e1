import Slam.Json.Text

/-!
# `json.encode`

A table is written as an array if its keys say so, and as an object otherwise; entries that cannot be encoded are
left out of an object. Tables are known by their entries, so none of them is `json.EMPTY_ARRAY` or
`json.EMPTY_OBJECT`.

* `isEncodable`, `isArray`: what is written, and how;
* `encode`: the text of a value.
-/

namespace Slam.Json

variable (js : JsonRuntime)

/-- `isEncodable` of a value. -/
def isEncodable : LuaValue → Bool
  | .function id => id = js.null
  | .object _ => false
  | _ => true

/-- `tostring` of a key that is encodable; there is none for another key. -/
def keyText : LuaKey → Option (List Byte)
  | .string s => some s
  | .number x _ => some (js.numberText x)
  | .boolean b => some (booleanText b)
  | .object id => js.objectText id

/-- The index that a key is: a number with `math.floor(k)==k and 1<=k`. Infinity is one too. -/
def arrayIndex : LuaKey → Option (WithTop ℕ)
  | .number x _ =>
    match x.value with
    | .finite q => if q.den = 1 ∧ 1 ≤ q then some q.num.toNat else none
    | .inf negative => if negative then none else some ⊤
    | .nan => none
  | _ => none

/-- `v ~= (t.n or #t)` for the `v` that is `t.n`. It is equal to itself unless it is NaN, and `false` is no length. -/
def differsFromN : LuaValue → Bool
  | .boolean b => !b
  | .number x => x.value = .nan
  | _ => false

/-- The key `n`. -/
def countKey : LuaKey := .string (asciiBytes "n")

/-- One turn of the loop of `isArray`; none is false returned. -/
def isArrayTurn (maxIndex : WithTop ℕ) (e : LuaKey × LuaValue) : Option (WithTop ℕ) :=
  match arrayIndex e.1 with
  | some k => if isEncodable js e.2 then some (max maxIndex k) else none
  | none =>
    if e.1 = countKey then if differsFromN e.2 then none else some maxIndex
    else if isEncodable js e.2 then none else some maxIndex

/-- `isArray`: the largest index of a table that is taken for an array. -/
def isArray (es : LuaEntries) : Option (WithTop ℕ) := (js.next es).foldlM (isArrayTurn js) 0

theorem ofInt_ne_nan (n : ℤ) : (BinaryFloat.ofInt n : Double).value ≠ .nan := FloatFormat.round_ne_nan _

/-- An index of the loop over an array. -/
def indexKey (i : ℕ) : LuaKey := .number (.ofInt i) (ofInt_ne_nan i)

/-- What `table.concat` makes of the parts. -/
def concat (parts : List (List Byte)) : List Byte := (parts.intersperse (asciiBytes ",")).flatten

/-- The entries that are written of an object, with the texts of their keys. -/
def objectEntries (es : LuaEntries) : List (List Byte × LuaValue) :=
  (js.next es).filterMap fun e => if isEncodable js e.2 then (keyText js e.1).map fun k => (k, e.2) else none

theorem sizeOf_objectEntries_lt {es : LuaEntries} {p : List Byte × LuaValue} (h : p ∈ objectEntries js es) :
    sizeOf p.2 < sizeOf (LuaValue.table es) := by
  obtain ⟨e, he, hp⟩ := List.mem_filterMap.1 h
  split_ifs at hp
  obtain ⟨k, -, rfl⟩ := Option.map_eq_some_iff.1 hp
  exact sizeOf_lt_of_mem_entries ((js.next_perm es).mem_iff.1 he)

/-- The largest bound of the loop over an array for which it ends: from `2 ^ 53` on, `i + 1` is rounded to `i`. -/
def lastIndex : ℕ := 2 ^ 53 - 1

/-- `json.encode` -/
def encode : LuaValue → Except JsonError (List Byte)
  | .nil => .ok (asciiBytes "null")
  | .string s => .ok (quotationMark :: encodeString s ++ [quotationMark])
  | .number x => .ok (js.numberText x)
  | .boolean b => .ok (booleanText b)
  | .table es =>
    match isArray js es with
    | some maxCount =>
      if lastIndex < maxCount then .error .endless
      else do
        let rval ← (List.range' 1 (maxCount.untopD 0)).mapM fun i => encode (tableGet es (indexKey i))
        return asciiBytes "[" ++ concat rval ++ asciiBytes "]"
    | none => do
      let rval ← (objectEntries js es).attach.mapM fun p => do
        return quotationMark :: encodeString p.1.1 ++ asciiBytes "\":" ++ (← encode p.1.2)
      return asciiBytes "\x7b" ++ concat rval ++ asciiBytes "\x7d"
  | .function id => if id = js.null then .ok (asciiBytes "null") else .error (.unsupported .function)
  | .object _ => .error (.unsupported .userdata)
termination_by v => sizeOf v
decreasing_by
  · exact sizeOf_tableGet_lt es (indexKey i)
  · exact sizeOf_objectEntries_lt js p.2

end Slam.Json
