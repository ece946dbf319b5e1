import Slam.Game.Settle

/-!
# `buffscript.lua`: the scripts of buffs

A buff whose row enables it has its script called at every breakpoint of its entity, and the script
compares the breakpoint with the one that it is about. For most of them that is a local of
`buffscript.lua`; `multArmor` compares with the global `ENTITY_SUFFER_DAMAGE`, which is nil.

`hp_add`, `buff_add` and `buff_remove` pass globals of the same kind, so that all of them dispatch nil.
What a script does is a list of acts, since each of them reads what it needs before it acts. Several do
not get far: `addARMBuff`, `takeHeal`, `drawCard` and `addBuff` raise as they are called here.
-/

namespace Slam.Game

/-- The functions of `BuffScript`. -/
inductive BuffFunc
  | none | commonFlagBuff | roundEndReduce | roundBeginReduce | armor | multArmor | metallicize | rejuvenation
  | poison | kuangbao | handAddNewCardOnRoundBegin | brutality | gainMpOnRoundBegin | xingfenji
  | damageRandomEnemyOnRoundBegin | gainBuffOnRoundBegin | gainBuffOnRoundEnd
  deriving DecidableEq

/-- The buff that keeps the armor of an entity. -/
def Stats.keepAmr : ℤ := 3010

/-- `EntityExt.isKeepARM`. -/
def World.isKeepARM (w : World) (env : Env) (e : ℤ) : Bool := 0 < w.getBuffLayers env e Stats.keepAmr

/-- `EntityExt.loseHp`. -/
def loseHpActs (e amount : ℤ) : List Act := if 0 < amount then [.hpAdd e (-amount)] else []

/-- `EntityExt.addARMBuff`, which looks up `Stats.dunci`, and `EntityExt.takeHeal`, which looks up a buff
of nobody: both compare nil, if there is anything to add. -/
def raiseActs (amount : ℤ) : List Act := if 0 < amount then [.raise] else []

/-- `Actions.damageRandomEnemy`; `random` is `math.random`, which raises if there is nothing to choose from. -/
def damageRandomEnemyActs (env : Env) (random : World → ℕ → ℕ) (damage : Option ℤ) (w : World) : List Act :=
  match w.sceneMatch with
  | none => [.raise]
  | some m =>
    let enemies := env.pairs (w.sideMembers m .enemy)
    if enemies = [] then [.raise]
    else match enemies[random w enemies.length - 1]?, damage with
      | some target, some damage => [.damageOne target damage .physical]
      | _, _ => []

namespace BuffFunc

section Acts

variable (env : Env) (random : World → ℕ → ℕ) (e b : ℤ) (bp : Option BreakPoint) (w : World)

/-- What the script of the buff `b` on the entity `e` does at a breakpoint. -/
def acts : BuffFunc → List Act
  | none => []
  | commonFlagBuff => []
  | roundEndReduce => if bp = some .roundEndZ then [.modifyLayers b (-1)] else []
  | roundBeginReduce => if bp = some .roundBeginA then [.modifyLayers b (-1)] else []
  | armor => if bp = some .roundBeginZ then (if w.isKeepARM env e then [] else [.buffRemove e b]) else []
  | multArmor =>
    (if bp = some .roundBeginA then raiseActs (w.buffAt b).layers else []) ++
      if bp = Option.none then [.modifyLayers b (-1)] else []
  | metallicize => if bp = some .roundEndZ then raiseActs (w.buffAt b).layers else []
  | rejuvenation => if bp = some .roundEndA then raiseActs (w.buffAt b).layers else []
  | poison => if bp = some .roundBeginA then loseHpActs e (w.buffAt b).layers ++ [.modifyLayers b (-1)] else []
  -- It asks for the `categroy` of the card, which is nil.
  | kuangbao => []
  | handAddNewCardOnRoundBegin =>
    if bp = some .roundBeginZ then
      match (w.buffAt b).base.params.head? with
      | some baseid => [.stackHoldNewone e baseid]
      | Option.none => [.raise]
    else []
  | brutality => if bp = some .roundBeginZ then loseHpActs e (w.buffAt b).layers ++ [.raise] else []
  | gainMpOnRoundBegin =>
    if bp = some .roundBeginZ then (if 0 < (w.buffAt b).layers then [.mpAdd e (w.buffAt b).layers] else []) else []
  | xingfenji => if bp = some .roundEndA then [.buffAdd e Stats.str (w.buffAt b).layers, .buffRemove e b] else []
  | damageRandomEnemyOnRoundBegin =>
    if bp = some .roundBeginZ then damageRandomEnemyActs env random (w.buffAt b).base.params.head? w else []
  -- The amount is computed before the breakpoint is looked at.
  | gainBuffOnRoundBegin =>
    if (w.buffAt b).base.params.length < 2 then [.raise] else if bp = some .roundBeginZ then [.raise] else []
  | gainBuffOnRoundEnd =>
    if (w.buffAt b).base.params.length < 2 then [.raise] else if bp = some .roundEndA then [.raise] else []

end Acts

/-- The breakpoints that a script names. -/
def names : BuffFunc → List BreakPoint
  | none | commonFlagBuff => []
  | roundEndReduce | metallicize => [.roundEndZ]
  | roundBeginReduce | poison => [.roundBeginA]
  | armor | handAddNewCardOnRoundBegin | brutality | gainMpOnRoundBegin | damageRandomEnemyOnRoundBegin
  | gainBuffOnRoundBegin => [.roundBeginZ]
  | multArmor => [.roundBeginA, .entitySufferDamage]
  | rejuvenation | xingfenji | gainBuffOnRoundEnd => [.roundEndA]
  | kuangbao => [.cardPlayZ]

end BuffFunc

/-- What the scripts of buffs and of cards do. The functions of `CardScript` use their card, deal damage, add
and remove buffs, spend mp, or raise. -/
def Act.Shipped : Act → Prop
  | .hpAdd .. | .mpAdd .. | .buffAdd .. | .buffRemove .. | .modifyLayers .. | .stackHoldNewone .. | .damageOne ..
  | .useCard .. | .raise => True
  | _ => False

/-- The scripts are those of `BuffScript` and `CardScript`; `which` is the function behind an identifier. -/
structure Env.Ships (env : Env) (which : ScriptFunc → BuffFunc) (random : World → ℕ → ℕ) : Prop where
  buff : ∀ f call w b, call.buff = some b → env.script f call w = (which f).acts env random call.entity b call.bp w
  card : ∀ f call w, call.buff = none → ∀ a ∈ env.script f call w, a.Shipped

/-- What the script of a buff on the entity `i` does: new cards are for the entity. -/
def Act.Own (i : ℤ) : Act → Prop
  | .hpAdd .. | .mpAdd .. | .buffAdd .. | .buffRemove .. | .modifyLayers .. | .damageOne .. | .raise => True
  | .stackHoldNewone j _ => j = i
  | _ => False

theorem Act.Own.shipped {i : ℤ} {a : Act} (h : a.Own i) : a.Shipped := by
  cases a <;> trivial

/-- Every act of a buff's script is one of these. -/
theorem BuffFunc.own_acts {env : Env} {random : World → ℕ → ℕ} {e b : ℤ} {bp : Option BreakPoint} {w : World}
    (f : BuffFunc) {a : Act} (ha : a ∈ f.acts env random e b bp w) : a.Own e := by
  have hif {c : Prop} [Decidable c] {l : List Act} (h : a ∈ if c then l else []) : a ∈ l := by
    split_ifs at h
    · exact h
    · cases h
  have hone {x : Act} (h : a ∈ [x]) (hx : x.Own e) : a.Own e := List.mem_singleton.1 h ▸ hx
  have hlose {amount : ℤ} (h : a ∈ loseHpActs e amount) : a.Own e := hone (hif h) trivial
  have hraise {amount : ℤ} (h : a ∈ raiseActs amount) : a.Own e := hone (hif h) trivial
  cases f with
  | none | commonFlagBuff | kuangbao => cases ha
  | roundEndReduce | roundBeginReduce => exact hone (hif ha) trivial
  | armor =>
    have ha := hif ha
    split_ifs at ha
    · cases ha
    · exact hone ha trivial
  | multArmor => exact (List.mem_append.1 ha).elim (fun h => hraise (hif h)) fun h => hone (hif h) trivial
  | metallicize | rejuvenation => exact hraise (hif ha)
  | poison | brutality => exact (List.mem_append.1 (hif ha)).elim hlose fun h => hone h trivial
  | handAddNewCardOnRoundBegin =>
    have ha := hif ha
    split at ha
    · exact hone ha rfl
    · exact hone ha trivial
  | gainMpOnRoundBegin => exact hone (hif (hif ha)) trivial
  | xingfenji =>
    rcases List.mem_cons.1 (hif ha) with rfl | h
    · trivial
    · exact hone h trivial
  | damageRandomEnemyOnRoundBegin =>
    have ha := hif ha
    unfold damageRandomEnemyActs at ha
    split at ha
    · exact hone ha trivial
    · dsimp only at ha
      split_ifs at ha
      · exact hone ha trivial
      · split at ha
        · exact hone ha trivial
        · cases ha
  | gainBuffOnRoundBegin | gainBuffOnRoundEnd =>
    simp only [BuffFunc.acts] at ha
    split_ifs at ha
    · exact hone ha trivial
    · exact hone ha trivial
    · cases ha

/-! ### Calls that dispatch breakpoints -/

/-- Acts of scripts to a depth; `cut` stands for all that would be done deeper. -/
def performTo (env : Env) (cut : Act → Run Unit) : ℕ → Act → Run Unit
  | 0 => cut
  | n + 1 => performWith env (performTo env cut n) n

theorem perform_eq (env : Env) (n : ℕ) : perform env n = performTo env (fun _ => throw .timeout) n := by
  induction n with
  | zero => rfl
  | succ n ih => rw [perform, performTo, ih]

/-- The calls on an entity that dispatch breakpoints. -/
inductive DispatchCall
  | hpAdd (value : ℤ)
  | buffAdd (baseid layers : ℤ)
  | buffRemove (buff : ℤ)
  | breakpoint (card pick : Option ℤ) (bp : Option BreakPoint)

namespace DispatchCall

def run (env : Env) (act : Act → Run Unit) (fuel : ℕ) (e : ℤ) : DispatchCall → Run Unit
  | hpAdd value => Game.hpAdd env act fuel e value
  | buffAdd baseid layers => Game.buffAdd env act e baseid layers
  | buffRemove b => Game.buffRemove env act e b
  | breakpoint card pick bp => Game.breakpoint env act e card pick bp

/-- The breakpoints that a call dispatches, each with the value that it passes. -/
def dispatches : DispatchCall → List (BreakPoint × Option BreakPoint)
  | hpAdd value => if value < 0 then [(.entitySufferDamage, none)] else []
  | buffAdd _ _ => [(.buffAddA, none), (.buffAddZ, none)]
  | buffRemove _ => [(.buffRemoveA, none), (.buffRemoveZ, none)]
  | breakpoint _ _ none => []
  | breakpoint _ _ (some bp) => [(bp, some bp)]

/-- The scripts come to an end: from some depth on it makes no difference what would be done deeper. -/
def Terminates (env : Env) (e : ℤ) (w : World) (call : DispatchCall) : Prop :=
  ∃ n, ∀ cut cut', call.run env (performTo env cut n) n e w = call.run env (performTo env cut' n) n e w

/-- A script on the entity that does something at a breakpoint of the call names that breakpoint. -/
def Distinguished (env : Env) (which : ScriptFunc → BuffFunc) (random : World → ℕ → ℕ) (e : ℤ) (w : World)
    (call : DispatchCall) : Prop :=
  ∀ d ∈ call.dispatches, ∀ b ∈ (w.pack e).buffs, (w.buffAt b).base.enableScript = true →
    ∀ f, (w.buffAt b).base.scriptFunc = some f → (which f).acts env random e b d.2 w ≠ [] → d.1 ∈ (which f).names

end DispatchCall

end Slam.Game
