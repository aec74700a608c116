import ProxyForge.Proofs.Draft.Acceptance
import ProxyForge.Proxy.Boxing
/-!
# Ordinary instructions

Most of the code of a generated class neither jumps nor returns, and can always be written:
`Op.isOrdinary`. This holds whatever the types of parameters and results are, so it tells of which
kind the returns of a method are (`Body.Returns`), and that its labels can be resolved.
-/

namespace ProxyForge

namespace Code

variable {L : Type} {op : Op L}

/-- An instruction that neither jumps nor ends the method, leaves locals and monitors as they are,
and is no call through an interface. -/
def Op.isOrdinary : Op L → Bool
  | .ret _ | .throw | .jump _ _ | .lookupSwitch _ _ | .invoke .interface _ => false
  | .store _ _ | .monitorEnter | .monitorExit => false
  | _ => true

namespace Op

theorem targets_of_isOrdinary (h : op.isOrdinary) : op.targets = [] := by
  cases op <;> first | rfl | cases h

/-- Do the jumps of an instruction lead to the labels? -/
def leadsTo (labels : List L) [DecidableEq L] (op : Op L) : Bool :=
  op.targets.all fun label => label ∈ labels

theorem mem_of_leadsTo [DecidableEq L] {labels : List L} (h : op.leadsTo labels) {label : L}
    (hlabel : label ∈ op.targets) : label ∈ labels :=
  of_decide_eq_true (List.all_eq_true.1 h label hlabel)

theorem all_leadsTo [DecidableEq L] {labels : List L} {ops : List (Op L)}
    (h : ops.all isOrdinary) : ops.all (leadsTo labels) :=
  List.all_eq_true.2 fun op hop => by
    rw [leadsTo, targets_of_isOrdinary (List.all_eq_true.1 h op hop), List.all_nil]

/-- **No call through an interface, no switch, and no return but of one kind.** -/
def isRegular (result : Option Kind) : Op L → Bool
  | .ret kind => kind = result
  | .lookupSwitch _ _ | .invoke .interface _ => false
  | _ => true

variable {result : Option Kind}

theorem isRegular_of_isOrdinary (h : op.isOrdinary) : op.isRegular result := by
  cases op with
  | invoke kind method => cases kind <;> first | rfl | cases h
  | ret kind => cases h
  | _ => first | rfl | cases h

theorem all_isRegular {ops : List (Op L)} (h : ops.all isOrdinary) :
    ops.all (isRegular result) :=
  List.all_eq_true.2 fun op hop => isRegular_of_isOrdinary (List.all_eq_true.1 h op hop)

theorem writable_of_isRegular (h : op.isRegular result) : op.Writable := by
  cases op with
  | invoke kind method => cases kind <;> trivial
  | lookupSwitch fallback cases => cases h
  | _ => trivial

end Op

/-- **The returns of a body** are of one kind. -/
def Body.Returns (body : Body) (result : Option Kind) : Prop :=
  ∀ kind, Op.ret kind ∈ body.ops → kind = result

theorem Body.returns_of_all {body : Body} {result : Option Kind}
    (h : body.ops.all (Op.isRegular result)) : body.Returns result :=
  fun _ hop => of_decide_eq_true (List.all_eq_true.1 h _ hop)

end Code

namespace Proxy

namespace Boxing

open Code (Op Kind)

variable {L : Type} (t : JvmType) (params : List JvmType)

theorem isOrdinary_pushClass : (pushClass (L := L) t).isOrdinary := by
  unfold pushClass
  split <;> rfl

theorem all_pushClasses : (pushClasses (L := L) params).all Op.isOrdinary := by
  unfold pushClasses count
  rw [List.all_cons, List.all_cons, List.all_flatMap, Bool.and_eq_true_iff, Bool.and_eq_true_iff]
  refine ⟨rfl, rfl, List.all_eq_true.2 fun x _ => ?_⟩
  simp only [List.all_cons, List.all_nil, isOrdinary_pushClass]
  rfl

theorem all_boxValue : (boxValue (L := L) t).all Op.isOrdinary := by
  unfold boxValue
  split <;> rfl

theorem all_boxResult : (boxResult (L := L) t).all Op.isOrdinary := by
  unfold boxResult
  split
  · rfl
  · exact all_boxValue t

theorem all_unboxValue : (unboxValue (L := L) t).all Op.isOrdinary := by
  unfold unboxValue
  split
  · rfl
  · split
    · split <;> rfl
    · rfl

theorem all_unpackParams (array : UInt16) :
    (unpackParams (L := L) params array).all Op.isOrdinary := by
  unfold unpackParams
  rw [List.all_flatMap]
  refine List.all_eq_true.2 fun x _ => ?_
  rw [List.all_append, all_unboxValue]
  rfl

theorem all_packParams (first : UInt16) : (packParams (L := L) params first).all Op.isOrdinary := by
  have harg : ∀ t index slot, (packArg (L := L) t index slot).all Op.isOrdinary := by
    intro t index slot
    unfold packArg
    split
    · rw [List.all_append, List.all_append, all_boxValue]
      rfl
    · rfl
  unfold packParams
  rw [List.all_cons, List.all_cons, List.all_flatMap, Bool.and_eq_true_iff, Bool.and_eq_true_iff]
  exact ⟨rfl, rfl, List.all_eq_true.2 fun x _ => harg _ _ _⟩

theorem all_pushParams (first : UInt16) : (pushParams (L := L) params first).all Op.isOrdinary := by
  unfold pushParams
  rw [List.all_flatMap]
  refine List.all_eq_true.2 fun x _ => ?_
  dsimp only
  unfold loadParam
  split <;> rfl

end Boxing

end Proxy

end ProxyForge
