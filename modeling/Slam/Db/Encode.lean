import Slam.Lua.Value

/-!
# `slam_lua_db.c`: a record as the text of a `SET` clause

`slam_lua_db_encode_table` writes `key=value` for each entry of a table, with commas between them. Keys and numbers
are written as Lua converts them, strings between quotes and otherwise as they are. A byte buffer is here the bytes
written to it; none stands for false returned, after which nothing is executed.

* `encodeTable`: the text of a table;
* `ccDbInsert`, `ccDbUpdate`: the statements into which it goes, as `slam_db_execute` cuts them at the first NUL;
* `encodeTable_eq_none_iff`: false is returned exactly for a table with a value of another type;
* `ccDbInsert_eq`, `updateWhere_eq`: what the server is given of the text.
-/

namespace Slam.Db

variable (rt : LuaRuntime)

/-- `lua_isboolean` -/
def isboolean : LuaValue → Bool
  | .boolean _ => true
  | _ => false

/-- `lua_isnumber`: a number, or a string that converts to one. -/
def isnumber : LuaValue → Bool
  | .number _ => true
  | .string s => (rt.textNumber s).isSome
  | _ => false

/-- `lua_isstring`: a string, or a number, which always converts to one. -/
def isstring : LuaValue → Bool
  | .string _ => true
  | .number _ => true
  | _ => false

/-- `lua_tolstring`, as it is written: a value that does not convert has a length of 0. -/
def tolstring (v : LuaValue) : List Byte := (rt.tostring v).getD []

/-- `slam_lua_db_encode_key` -/
def encodeKey (key : LuaKey) : List Byte := tolstring rt (.ofKey key)

/-- `slam_lua_db_encode_value` -/
def encodeValue (v : LuaValue) : Option (List Byte) :=
  if v.isNil then some (asciiBytes "null")
  else if isboolean v || isnumber rt v then some (tolstring rt v)
  else if isstring v then some (asciiBytes "'" ++ tolstring rt v ++ asciiBytes "'")
  else none

/-- The loop of `slam_lua_db_encode_table`, which writes a comma once `rc` is true. -/
def encodePairs : Bool → LuaEntries → List Byte → Option (List Byte)
  | _, [], byteBuffer => some byteBuffer
  | rc, (key, value) :: es, byteBuffer => do
    let byteBuffer := if rc then byteBuffer ++ asciiBytes "," else byteBuffer
    let byteBuffer := byteBuffer ++ encodeKey rt key ++ asciiBytes "="
    let text ← encodeValue rt value
    encodePairs true es (byteBuffer ++ text)

/-- `slam_lua_db_encode_table` -/
def encodeTable (es : LuaEntries) (byteBuffer : List Byte) : Option (List Byte) :=
  encodePairs rt false (rt.next es) byteBuffer

/-- The statement that `slam_db_execute` sends. -/
def slamDbExecute (sql : List Byte) : List Byte := cstring sql

/-- `cc_db_insert`: the statement that is executed. The first argument is the database. -/
def ccDbInsert : List LuaValue → Option (List Byte)
  | [_, tableName, .table es] =>
    if isstring tableName then do
      let sql ← encodeTable rt es (asciiBytes "insert into `" ++ tolstring rt tableName ++ asciiBytes "` set ")
      return slamDbExecute (sql ++ [0])
    else none
  | _ => none

/-- What `cc_db_update` writes behind the assignments. -/
def whereText : Option (List Byte) → List Byte
  | none => []
  | some condition => asciiBytes " where " ++ condition

/-- `cc_db_update` from where the condition is known. -/
def updateWhere (table : LuaValue) (record : LuaValue) (condition : Option (List Byte)) : Option (List Byte) :=
  match record with
  | .table es => do
    let sql ← encodeTable rt es (asciiBytes "update `" ++ tolstring rt table ++ asciiBytes "` set ")
    return slamDbExecute (sql ++ whereText condition ++ [0])
  | _ => none

/-- `cc_db_update`: the statement that is executed. -/
def ccDbUpdate : List LuaValue → Option (List Byte)
  | [_, table, record] => if isstring table then updateWhere rt table record none else none
  | [_, table, record, condition] =>
    if isstring table && isstring condition then updateWhere rt table record (some (tolstring rt condition))
    else none
  | _ => none

/-- The values that can be written. -/
def Encodable : LuaValue → Prop
  | .nil => True
  | .boolean _ => True
  | .number _ => True
  | .string _ => True
  | _ => False

variable {rt}

theorem encodeValue_eq_none_iff {v : LuaValue} : encodeValue rt v = none ↔ ¬ Encodable v := by
  unfold encodeValue Encodable
  cases v with
  | string s =>
    simp only [LuaValue.isNil, isboolean, isnumber, isstring]
    cases rt.textNumber s <;> simp
  | _ => simp [LuaValue.isNil, isboolean, isnumber, isstring]

/-- What is in the buffer stays in front. -/
theorem encodePairs_eq (rc : Bool) (es : LuaEntries) (byteBuffer : List Byte) :
    encodePairs rt rc es byteBuffer = (encodePairs rt rc es []).map (byteBuffer ++ ·) := by
  induction es generalizing rc byteBuffer with
  | nil => simp [encodePairs]
  | cons e es ih =>
    obtain ⟨key, value⟩ := e
    simp only [encodePairs]
    cases encodeValue rt value with
    | none => rfl
    | some text =>
      simp only [Option.bind_eq_bind, Option.bind_some]
      rw [ih, ih _ (_ ++ text), Option.map_map]
      cases rc <;> simp [Function.comp_def]

/-- An entry in front of others. -/
theorem encodePairs_cons (key : LuaKey) (value : LuaValue) (es : LuaEntries) :
    encodePairs rt false ((key, value) :: es) [] =
      (encodeValue rt value).bind fun text =>
        (encodePairs rt true es []).map fun more => encodeKey rt key ++ asciiBytes "=" ++ text ++ more := by
  simp only [encodePairs]
  cases encodeValue rt value with
  | none => rfl
  | some text =>
    simp only [Option.bind_eq_bind, Option.bind_some]
    rw [encodePairs_eq]
    simp

/-- Entries behind another one. -/
theorem encodePairs_true (e : LuaKey × LuaValue) (es : LuaEntries) :
    encodePairs rt true (e :: es) [] = (encodePairs rt false (e :: es) []).map (asciiBytes "," ++ ·) := by
  obtain ⟨key, value⟩ := e
  rw [← encodePairs_eq]
  simp [encodePairs]

theorem encodePairs_eq_none_iff (rc : Bool) (es : LuaEntries) (byteBuffer : List Byte) :
    encodePairs rt rc es byteBuffer = none ↔ ∃ e ∈ es, ¬ Encodable e.2 := by
  induction es generalizing rc byteBuffer with
  | nil => simp [encodePairs]
  | cons e es ih =>
    obtain ⟨key, value⟩ := e
    have hvalue : encodeValue rt value = none ↔ ¬ Encodable value := encodeValue_eq_none_iff
    simp only [encodePairs, List.exists_mem_cons_iff]
    rw [← hvalue]
    cases encodeValue rt value with
    | none => simp
    | some text =>
      simp only [Option.bind_eq_bind, Option.bind_some, reduceCtorEq, false_or]
      exact ih true _

/-- **False** is returned exactly for a table with a value that cannot be written. -/
theorem encodeTable_eq_none_iff (es : LuaEntries) (byteBuffer : List Byte) :
    encodeTable rt es byteBuffer = none ↔ ∃ e ∈ es, ¬ Encodable e.2 := by
  unfold encodeTable
  rw [encodePairs_eq_none_iff]
  simp only [(rt.next_perm es).mem_iff]

/-! ### The statement -/

theorem cstring_append {s : List Byte} (hs : 0 ∉ s) (t : List Byte) : cstring (s ++ t) = s ++ cstring t := by
  unfold cstring
  refine List.takeWhile_append_of_pos fun b hb => ?_
  have hne : b ≠ 0 := fun heq => hs (heq ▸ hb)
  simpa using hne

/-- What lies behind a NUL is cut off. -/
theorem cstring_append_of_mem {s : List Byte} (hs : 0 ∈ s) (t : List Byte) :
    cstring (s ++ t) = cstring s ∧ (cstring s).length < s.length := by
  induction s with
  | nil => cases hs
  | cons b s ih =>
    unfold cstring at ih ⊢
    by_cases hb : b = 0
    · simp [hb]
    · have hmem : 0 ∈ s := (List.mem_cons.1 hs).resolve_left (Ne.symm hb)
      obtain ⟨hcut, hlength⟩ := ih hmem
      rw [List.cons_append, List.takeWhile_cons, List.takeWhile_cons, if_pos (by simpa using hb),
        if_pos (by simpa using hb), hcut]
      exact ⟨rfl, Nat.succ_lt_succ hlength⟩

/-- The NUL that is written at the end. -/
theorem slamDbExecute_append_zero (sql : List Byte) : slamDbExecute (sql ++ [0]) = cstring sql := by
  unfold slamDbExecute
  by_cases hzero : 0 ∈ sql
  · exact (cstring_append_of_mem hzero [0]).1
  · rw [cstring_append hzero, cstring_of_nul_free hzero]
    exact List.append_nil sql

/-- An insert statement is its head, and the text of the record up to the first NUL. -/
theorem ccDbInsert_eq {db tableName : LuaValue} (hname : isstring tableName) (hzero : 0 ∉ tolstring rt tableName)
    (es : LuaEntries) :
    ccDbInsert rt [db, tableName, .table es] = (encodeTable rt es []).map fun text =>
      asciiBytes "insert into `" ++ tolstring rt tableName ++ asciiBytes "` set " ++
        cstring (text ++ whereText none) := by
  have hhead : 0 ∉ asciiBytes "insert into `" ++ tolstring rt tableName ++ asciiBytes "` set " := by
    simp only [List.mem_append, not_or]
    exact ⟨⟨by decide, hzero⟩, by decide⟩
  unfold ccDbInsert encodeTable
  dsimp only
  rw [encodePairs_eq, if_pos hname]
  cases encodePairs rt false (rt.next es) [] with
  | none => rfl
  | some text =>
    simp only [Option.map_some, Option.bind_eq_bind, Option.bind_some, Option.pure_def, slamDbExecute_append_zero]
    rw [cstring_append hhead]
    simp [whereText]

/-- An update statement is its head, and the text of the record and the condition up to the first NUL. -/
theorem updateWhere_eq {table : LuaValue} (hzero : 0 ∉ tolstring rt table) (es : LuaEntries)
    (condition : Option (List Byte)) :
    updateWhere rt table (.table es) condition = (encodeTable rt es []).map fun text =>
      asciiBytes "update `" ++ tolstring rt table ++ asciiBytes "` set " ++
        cstring (text ++ whereText condition) := by
  have hhead : 0 ∉ asciiBytes "update `" ++ tolstring rt table ++ asciiBytes "` set " := by
    simp only [List.mem_append, not_or]
    exact ⟨⟨by decide, hzero⟩, by decide⟩
  unfold updateWhere encodeTable
  dsimp only
  rw [encodePairs_eq]
  cases encodePairs rt false (rt.next es) [] with
  | none => rfl
  | some text =>
    simp only [Option.map_some, Option.bind_eq_bind, Option.bind_some, Option.pure_def, slamDbExecute_append_zero]
    rw [List.append_assoc, cstring_append hhead]

end Slam.Db
