import Slam.Lua.Event
import Slam.Lib.Machine

/-!
# `cc.bindmsg`: the functions that messages are given to

A script binds a message id to the name of its type and to a function. `slam_protocol_reg_message` keeps the type, and
the name `typename.msgid` under which the function stands in the Lua registry; when a message comes, its id is looked up
for both. The name is cut to the buffer of `MESSAGE_REF_NAME`, so that two ids could meet under one name: after that the
messages of both would be given to the function bound last. `dispatch_first` says that this is the only way in which a
message can miss the function of the first binding of its id that was accepted; all later ones of that id are refused.
-/

namespace Slam

/-- The arguments of a call of `cc.bindmsg`: a number, a string and a function. `typeNamed` is what is found in the
descriptors that have been loaded by then. -/
structure Bind where
  typeNamed : List Byte → Option ℕ
  msgid : ℤ
  typename : List Byte
  handler : LuaValue
  isFunction : handler.isFunction = true

/-- `lua_settable(L, LUA_REGISTRYINDEX)` under a string. -/
def luaSetregistry : LuaM Unit := fun L =>
  match L.stack with
  | v :: .string k :: vs => (.ok (), { L with stack := vs, registry := Function.update L.registry k v })
  | _ :: _ :: _ => (.error .luaError, L)
  | _ => (.error .badIndex, L)

@[simp] theorem run_luaSetregistry (v : LuaValue) (k : List Byte) (vs : List LuaValue) (L : LuaState) :
    luaSetregistry.run { L with stack := v :: .string k :: vs } =
      (.ok (), { L with stack := vs, registry := Function.update L.registry k v }) := rfl

/-- `cc_bindmsg`. -/
def ccBindmsg (P : SlamProtocol) (b : Bind) : LuaM SlamProtocol :=
  match P.regMessage b.typeNamed b.msgid b.typename with
  | (some name, P') => do
    luaPushstring name
    -- `lua_pushvalue(L, 3)`
    luaPush b.handler
    luaSetregistry
    luaPushboolean true
    return P'
  | (none, P') => do
    luaPushboolean false
    return P'

/-- What binds and uses messages. -/
structure Script where
  protocol : SlamProtocol
  lua : LuaState

/-- What a script does. -/
inductive ScriptEvent
  | bindmsg (b : Bind)
  /-- Anything else it does to the stack and to the globals. -/
  | other (stack : List LuaValue) (globals : List Byte → LuaValue)

/-- A script that runs. -/
def scripting : Machine Script ScriptEvent where
  step s
    | .bindmsg b =>
      match (ccBindmsg s.protocol b).run s.lua with
      | (.ok P, L) => some ⟨P, L⟩
      | (.error _, _) => none
    | .other stack globals => some { s with lua := { s.lua with stack := stack, globals := globals } }

/-- The value that `slam_lua_event_message` calls for a message, if it is a function. -/
def Script.handler (s : Script) (msgid : ℤ) : Option LuaValue :=
  (s.protocol.findName msgid).map fun name => s.lua.registry (cstring name)

/-- The binding names an id in range and a type that is known. -/
def Bind.Valid (b : Bind) : Prop := (0 ≤ b.msgid ∧ b.msgid < maxMessageId) ∧ (b.typeNamed (cstring b.typename)).isSome

instance (b : Bind) : Decidable b.Valid := inferInstanceAs (Decidable (_ ∧ _))

/-- The first valid binding of an id. -/
def firstBind (msgid : ℤ) : List ScriptEvent → Option Bind
  | [] => none
  | .bindmsg b :: es => if b.msgid = msgid ∧ b.Valid then some b else firstBind msgid es
  | .other _ _ :: es => firstBind msgid es

/-- The name fits into the buffer of `MESSAGE_REF_NAME` whatever the id. -/
def Bind.Fits (b : Bind) : Prop := (cstring b.typename).length ≤ 4089

instance (b : Bind) : Decidable b.Fits := inferInstanceAs (Decidable (_ ≤ _))

/-! ### Names -/

theorem toList_toString (n : ℕ) : (toString (n : ℤ)).toList = Nat.toDigits 10 n := by
  have hrepr : toString (n : ℤ) = Nat.repr n := rfl
  rw [hrepr, Nat.repr_eq_ofList_toDigits, String.toList_ofList]

theorem digit_of_mem_toDigits {n : ℕ} {c : Char} (hc : c ∈ Nat.toDigits 10 n) : 48 ≤ c.toNat ∧ c.toNat ≤ 57 := by
  have hdigit := Nat.isDigit_of_mem_toDigits (by decide) (by decide) hc
  simpa [Char.isDigit, UInt32.le_iff_toNat_le] using hdigit

theorem byte_toNat {n : ℕ} {c : Char} (hc : c ∈ Nat.toDigits 10 n) : (UInt8.ofNat c.toNat).toNat = c.toNat := by
  have hrange := digit_of_mem_toDigits hc
  rw [UInt8.toNat_ofNat']
  omega

/-- The digits of an id. -/
def msgidText (n : ℕ) : List Byte := asciiBytes (toString (n : ℤ))

theorem msgidText_eq (n : ℕ) : msgidText n = (Nat.toDigits 10 n).map fun c => UInt8.ofNat c.toNat := by
  rw [msgidText, asciiBytes, toList_toString]

theorem digit_of_mem_msgidText {n : ℕ} {b : Byte} (hb : b ∈ msgidText n) : 48 ≤ b.toNat ∧ b.toNat ≤ 57 := by
  rw [msgidText_eq] at hb
  obtain ⟨c, hc, rfl⟩ := List.mem_map.1 hb
  rw [byte_toNat hc]
  exact digit_of_mem_toDigits hc

theorem msgidText_injective : Function.Injective msgidText := by
  intro n n' h
  have hchars (k : ℕ) : ((msgidText k).map fun b => Char.ofNat b.toNat) = Nat.toDigits 10 k := by
    rw [msgidText_eq, List.map_map]
    refine (List.map_congr_left fun c hc => ?_).trans (List.map_id _)
    show Char.ofNat (UInt8.ofNat c.toNat).toNat = c
    rw [byte_toNat hc, Char.ofNat_toNat]
  have hdigits : Nat.toDigits 10 n = Nat.toDigits 10 n' := by rw [← hchars n, ← hchars n', h]
  have hvalue := congrArg (fun cs => Nat.ofDigitChars 10 cs 0) hdigits
  simpa only [Nat.ofDigitChars_ten_toDigits] using hvalue

theorem length_msgidText {n : ℕ} (hn : n < maxMessageId) : (msgidText n).length ≤ 5 := by
  rw [msgidText_eq, List.length_map, Nat.length_toDigits_le_iff (by decide) (by decide)]
  exact hn.trans (by decide)

/-- What stands behind the last dot of a text. -/
theorem append_dot_inj {s s' d d' : List Byte} (hd : (46 : Byte) ∉ d) (hd' : (46 : Byte) ∉ d')
    (h : s ++ 46 :: d = s' ++ 46 :: d') : d = d' := by
  have htail (s d : List Byte) (hd : (46 : Byte) ∉ d) : ((s ++ 46 :: d).reverse.takeWhile (· ≠ 46)).reverse = d := by
    have hall : ∀ b ∈ d.reverse, (decide (b ≠ (46 : Byte))) = true := fun b hb =>
      decide_eq_true fun heq => hd (heq ▸ List.mem_reverse.1 hb)
    rw [List.reverse_append, List.reverse_cons, List.append_assoc, List.takeWhile_append_of_pos hall]
    simp
  rw [← htail s d hd, ← htail s' d' hd', h]

theorem zero_notMem_cstring (s : List Byte) : (0 : Byte) ∉ cstring s := fun hmem => by
  have hne := List.mem_takeWhile_imp hmem
  simp at hne

theorem notMem_msgidText {b : Byte} (hb : b.toNat < 48) (n : ℕ) : b ∉ msgidText n := fun hmem => by
  have hdigit := digit_of_mem_msgidText hmem
  omega

/-- The whole name, if it fits. -/
theorem refName_eq {b : Bind} (hvalid : b.Valid) (hfits : b.Fits) :
    SlamProtocol.refName b.msgid b.typename = cstring b.typename ++ 46 :: msgidText b.msgid.toNat := by
  have hid : (b.msgid.toNat : ℤ) = b.msgid := Int.toNat_of_nonneg hvalid.1.1
  have hlt : b.msgid.toNat < maxMessageId := by
    have := hvalid.1.2
    omega
  have hlength := length_msgidText hlt
  have hname : (cstring b.typename).length ≤ 4089 := hfits
  have hdot : asciiBytes "." = [46] := rfl
  rw [SlamProtocol.refName, hdot, ← hid, Int.toNat_natCast, List.append_assoc]
  show List.take 4095 (cstring b.typename ++ 46 :: msgidText b.msgid.toNat) = _
  refine List.take_of_length_le ?_
  simp only [List.length_append, List.length_cons]
  omega

/-- A type whose own name fills the buffer leaves no room for the id. -/
theorem refName_of_long {typename : List Byte} (h : 4095 ≤ (cstring typename).length) (msgid msgid' : ℤ) :
    SlamProtocol.refName msgid typename = SlamProtocol.refName msgid' typename := by
  simp only [SlamProtocol.refName, List.append_assoc, List.take_append_of_le_length h]

/-- A name is a C string. -/
theorem cstring_refName {b : Bind} (hvalid : b.Valid) (hfits : b.Fits) :
    cstring (SlamProtocol.refName b.msgid b.typename) = SlamProtocol.refName b.msgid b.typename := by
  rw [refName_eq hvalid hfits]
  refine cstring_of_nul_free fun hmem => ?_
  rcases List.mem_append.1 hmem with h | h
  · exact zero_notMem_cstring _ h
  · rcases List.mem_cons.1 h with h | h
    · exact absurd h (by decide)
    · exact notMem_msgidText (by decide) _ h

/-- **Names that fit tell the ids apart.** -/
theorem msgid_eq_of_refName {b b' : Bind} (hvalid : b.Valid) (hvalid' : b'.Valid) (hfits : b.Fits) (hfits' : b'.Fits)
    (h : SlamProtocol.refName b.msgid b.typename = SlamProtocol.refName b'.msgid b'.typename) : b.msgid = b'.msgid := by
  rw [refName_eq hvalid hfits, refName_eq hvalid' hfits'] at h
  have htext := append_dot_inj (notMem_msgidText (by decide) _) (notMem_msgidText (by decide) _) h
  have hnat := msgidText_injective htext
  have hlo := hvalid.1.1
  have hlo' := hvalid'.1.1
  omega

/-! ### What a script has bound -/

/-- The ids are bound as `bound` says. -/
structure Script.Bound (s : Script) (bound : ℤ → Option Bind) : Prop where
  name : ∀ msgid, s.protocol.regtable msgid = (bound msgid).map fun b => SlamProtocol.refName b.msgid b.typename
  type : ∀ msgid, s.protocol.messages msgid = (bound msgid).bind fun b => b.typeNamed (cstring b.typename)
  own : ∀ msgid b, bound msgid = some b → b.msgid = msgid ∧ b.Valid ∧ b.Fits
  handler : ∀ msgid b, bound msgid = some b → s.lua.registry (SlamProtocol.refName b.msgid b.typename) = b.handler

/-- One more binding is made, if it is valid and the first one of its id. -/
def bindAfter (bound : ℤ → Option Bind) (b : Bind) : ℤ → Option Bind :=
  if b.Valid ∧ bound b.msgid = none then Function.update bound b.msgid (some b) else bound

section Bound

variable {s s' : Script} {bound : ℤ → Option Bind} {b : Bind}

theorem Script.Bound.none_iff (h : s.Bound bound) (msgid : ℤ) :
    (s.protocol.regtable msgid = none ∧ s.protocol.messages msgid = none) ↔ bound msgid = none := by
  rw [h.name, h.type]
  cases bound msgid with
  | none => simp
  | some b => simp

/-- `slam_protocol_reg_message` accepts a valid binding of an id that is free. -/
theorem regMessage_of_free {P : SlamProtocol} (hvalid : b.Valid) (hfree : P.regtable b.msgid = none ∧ P.messages b.msgid = none) :
    ∃ P', P.regMessage b.typeNamed b.msgid b.typename = (some (SlamProtocol.refName b.msgid b.typename), P') ∧
      P'.regtable = Function.update P.regtable b.msgid (some (SlamProtocol.refName b.msgid b.typename)) ∧
      P'.messages = Function.update P.messages b.msgid (b.typeNamed (cstring b.typename)) := by
  obtain ⟨hrange, htype⟩ := hvalid
  obtain ⟨t, ht⟩ := Option.isSome_iff_exists.1 htype
  rw [SlamProtocol.regMessage, dif_pos hrange, if_pos hfree]
  split
  · next hnone =>
    rw [ht] at hnone
    cases hnone
  · next t' hsome => exact ⟨_, rfl, rfl, by rw [hsome]⟩

/-- Any other binding is refused. -/
theorem regMessage_of_not {P : SlamProtocol}
    (hnot : ¬ (b.Valid ∧ P.regtable b.msgid = none ∧ P.messages b.msgid = none)) :
    P.regMessage b.typeNamed b.msgid b.typename = (none, P) := by
  rw [SlamProtocol.regMessage]
  split_ifs with hrange hfree
  · split
    · rfl
    · next t hsome =>
      have hvalid : b.Valid := ⟨hrange, by rw [hsome]; rfl⟩
      exact absurd ⟨hvalid, hfree⟩ hnot
  · rfl
  · rfl

/-- One more name in the table of those that are bound. -/
theorem update_bindAfter {γ : Type} (f : Bind → Option γ) {g : ℤ → Option γ} (hg : ∀ msgid, g msgid = (bound msgid).bind f)
    (hnew : b.Valid ∧ bound b.msgid = none) {x : Option γ} (hx : f b = x) (msgid : ℤ) :
    Function.update g b.msgid x msgid = (bindAfter bound b msgid).bind f := by
  rw [bindAfter, if_pos hnew]
  by_cases heq : msgid = b.msgid
  · subst heq
    rw [Function.update_self, Function.update_self, Option.bind_some, hx]
  · rw [Function.update_of_ne heq, Function.update_of_ne heq, hg]

theorem run_ccBindmsg_of_some {P P' : SlamProtocol} {name : List Byte}
    (hreg : P.regMessage b.typeNamed b.msgid b.typename = (some name, P')) (L : LuaState) :
    (ccBindmsg P b).run L = (.ok P', { L with
      stack := .boolean true :: L.stack
      registry := Function.update L.registry (cstring name) b.handler }) := by
  simp only [ccBindmsg, hreg, LuaM.run_bind, run_luaPushstring, run_luaPush, run_luaSetregistry, run_luaPushboolean,
    LuaM.run_pure]

theorem run_ccBindmsg_of_none {P P' : SlamProtocol}
    (hreg : P.regMessage b.typeNamed b.msgid b.typename = (none, P')) (L : LuaState) :
    (ccBindmsg P b).run L = (.ok P', { L with stack := .boolean false :: L.stack }) := by
  simp only [ccBindmsg, hreg, LuaM.run_bind, run_luaPushboolean, LuaM.run_pure]

/-- **One binding.** A name that is bound anew is none of the names in use. -/
theorem scripting_bindmsg (h : s.Bound bound) (hfits : b.Fits) (hstep : scripting.step s (.bindmsg b) = some s') :
    s'.Bound (bindAfter bound b) := by
  by_cases hnew : b.Valid ∧ bound b.msgid = none
  · obtain ⟨P', hreg, hregtable, hmessages⟩ := regMessage_of_free hnew.1 ((h.none_iff b.msgid).2 hnew.2)
    simp only [scripting, run_ccBindmsg_of_some hreg, cstring_refName hnew.1 hfits] at hstep
    obtain rfl := Option.some.inj hstep
    have hbound : bindAfter bound b = Function.update bound b.msgid (some b) := if_pos hnew
    refine ⟨fun msgid => ?_, fun msgid => ?_, fun msgid c hc => ?_, fun msgid c hc => ?_⟩
    · show P'.regtable msgid = _
      have hname (id : ℤ) : s.protocol.regtable id =
          (bound id).bind (some ∘ fun b => SlamProtocol.refName b.msgid b.typename) := by
        rw [h.name, Option.map_eq_bind]
      rw [hregtable, Option.map_eq_bind]
      exact update_bindAfter _ hname hnew rfl msgid
    · show P'.messages msgid = _
      rw [hmessages]
      exact update_bindAfter _ h.type hnew rfl msgid
    all_goals
      rw [hbound] at hc
      by_cases heq : msgid = b.msgid
    · subst heq
      rw [Function.update_self] at hc
      obtain rfl := Option.some.inj hc
      exact ⟨rfl, hnew.1, hfits⟩
    · rw [Function.update_of_ne heq] at hc
      exact h.own msgid c hc
    · subst heq
      rw [Function.update_self] at hc
      obtain rfl := Option.some.inj hc
      exact Function.update_self _ _ _
    · rw [Function.update_of_ne heq] at hc
      obtain ⟨hid, hvalid, hfitsc⟩ := h.own msgid c hc
      have hne : SlamProtocol.refName c.msgid c.typename ≠ SlamProtocol.refName b.msgid b.typename := fun hname =>
        heq (hid ▸ msgid_eq_of_refName hvalid hnew.1 hfitsc hfits hname)
      show Function.update s.lua.registry _ b.handler _ = _
      rw [Function.update_of_ne hne]
      exact h.handler msgid c hc
  · have hreg := regMessage_of_not (P := s.protocol) fun hall => hnew ⟨hall.1, (h.none_iff b.msgid).1 hall.2⟩
    simp only [scripting, run_ccBindmsg_of_none hreg] at hstep
    obtain rfl := Option.some.inj hstep
    rw [bindAfter, if_neg hnew]
    exact ⟨h.name, h.type, h.own, h.handler⟩

/-- The first valid binding of an id, those made before first. -/
theorem or_firstBind (es : List ScriptEvent) (msgid : ℤ) :
    (bound msgid).or (firstBind msgid (.bindmsg b :: es)) = (bindAfter bound b msgid).or (firstBind msgid es) := by
  rw [firstBind, bindAfter]
  by_cases heq : b.msgid = msgid
  · subst heq
    cases hb : bound b.msgid with
    | some c => simp [hb]
    | none =>
      by_cases hvalid : b.Valid
      · simp [hvalid]
      · simp [hvalid, hb]
  · rw [if_neg fun hboth => heq hboth.1]
    split_ifs
    · rw [Function.update_of_ne (Ne.symm heq)]
    · rfl

/-- **A run.** -/
theorem Script.Bound.run {es : List ScriptEvent} (h : s.Bound bound) (hfits : ∀ b, .bindmsg b ∈ es → b.Fits)
    (hrun : scripting.run s es = some s') : s'.Bound fun msgid => (bound msgid).or (firstBind msgid es) := by
  induction es generalizing s bound with
  | nil =>
    obtain rfl := Option.some.inj hrun
    simpa [firstBind] using h
  | cons event es ih =>
    obtain ⟨t, hstep, hrest⟩ := Machine.run_cons_eq_some.1 hrun
    have hfits' : ∀ b, ScriptEvent.bindmsg b ∈ es → b.Fits := fun b hb => hfits b (List.mem_cons_of_mem _ hb)
    cases event with
    | bindmsg b =>
      have ht := scripting_bindmsg h (hfits b List.mem_cons_self) hstep
      simp only [or_firstBind]
      exact ih ht hfits' hrest
    | other stack globals =>
      obtain rfl := Option.some.inj hstep
      have ht : Script.Bound ⟨s.protocol, { s.lua with stack := stack, globals := globals }⟩ bound :=
        ⟨h.name, h.type, h.own, h.handler⟩
      exact ih ht hfits' hrest

end Bound

/-- **A message is given to the function that its id was bound to first**, and is decoded as the type named then. Later
bindings of the id, and bindings of other ids, change nothing about it. -/
theorem dispatch_first {L : LuaState} {es : List ScriptEvent} {s : Script} (hfits : ∀ b, .bindmsg b ∈ es → b.Fits)
    (hrun : scripting.run ⟨.new, L⟩ es = some s) (msgid : ℤ) :
    s.handler msgid = (firstBind msgid es).map Bind.handler ∧
      s.protocol.messages msgid = (firstBind msgid es).bind fun b => b.typeNamed (cstring b.typename) := by
  have hnew : Script.Bound ⟨.new, L⟩ fun _ => none :=
    ⟨fun _ => rfl, fun _ => rfl, fun _ _ hb => absurd hb (by simp), fun _ _ hb => absurd hb (by simp)⟩
  have hbound := hnew.run hfits hrun
  simp only [Option.none_or] at hbound
  refine ⟨?_, hbound.type msgid⟩
  have hname := hbound.name msgid
  rw [Script.handler, SlamProtocol.findName]
  cases hfirst : firstBind msgid es with
  | none =>
    rw [hfirst] at hname
    simp [hname]
  | some b =>
    obtain ⟨hid, hvalid, hfitsb⟩ := hbound.own msgid b hfirst
    rw [hfirst] at hname
    rw [if_pos (hid ▸ hvalid.1), hname, Option.map_some, Option.map_some, cstring_refName hvalid hfitsb,
      hbound.handler msgid b hfirst, Option.map_some]

/-- A binding to the type `Login`, the only one that is known. -/
def loginBind (msgid : ℤ) (function : ℕ) : Bind where
  typeNamed name := if name = asciiBytes "Login" then some 0 else none
  msgid := msgid
  typename := asciiBytes "Login"
  handler := .function function
  isFunction := rfl

/-- Two ids are bound to one type, and the first one again. -/
theorem dispatch_first_login : ∃ s, scripting.run ⟨.new, ⟨[], fun _ => .nil, fun _ => .nil⟩⟩
      [.bindmsg (loginBind 7 1), .bindmsg (loginBind 70 2), .bindmsg (loginBind 7 3)] = some s ∧
    s.handler 7 = (firstBind 7 [.bindmsg (loginBind 7 1), .bindmsg (loginBind 70 2), .bindmsg (loginBind 7 3)]).map Bind.handler ∧
      s.protocol.messages 7 = (firstBind 7 [.bindmsg (loginBind 7 1), .bindmsg (loginBind 70 2), .bindmsg (loginBind 7 3)]).bind
        fun b => b.typeNamed (cstring b.typename) := by
  have hrun : scripting.run ⟨.new, ⟨[], fun _ => .nil, fun _ => .nil⟩⟩
      [.bindmsg (loginBind 7 1), .bindmsg (loginBind 70 2), .bindmsg (loginBind 7 3)] = some _ := rfl
  refine ⟨_, hrun, dispatch_first (fun b hb => ?_) hrun 7⟩
  simp only [List.mem_cons, ScriptEvent.bindmsg.injEq, List.not_mem_nil, or_false] at hb
  rcases hb with rfl | rfl | rfl <;> decide

end Slam
