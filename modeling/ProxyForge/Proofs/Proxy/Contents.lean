import ProxyForge.Proofs.Proxy.Modest
import ProxyForge.Proofs.Proxy.References
import ProxyForge.Provider.Introspection
/-!
# What a generated class contains

A generated class, read back from its bytes, has exactly the names, the fields and the methods that
its plan asks for, in the order of the plan (`generate_reads_back`). The loops that draft fields
and methods each choose among the members in their own way; here they are compared with two lists
that are written in terms of places in the plan (`Contents.fields`, `Contents.methods`).
-/

namespace ProxyForge

namespace Proxy

open Outcome

/-! ## Places -/

namespace Contents

/-- The places of the members of interfaces. -/
def interfaceSlots (members : List Planned) : List Nat :=
  (members.zipIdx.filter fun entry => entry.1.origin = .interface).map Prod.snd

/-- **The fields that a plan asks for**: access, name and descriptor of each. -/
def fields (b : Bindings) (members : List Planned) : List (UInt16 × String × String) :=
  (List.range members.length).map (fun i =>
    (Access.isPrivate ||| Access.isStatic ||| Access.isFinal, "m" ++ toString i, memberType b)) ++
  [(Access.isPrivate ||| Access.isFinal, "interceptor", interceptorType b)] ++
  (interfaceSlots members).map fun i =>
    (Access.isPrivate ||| Access.isVolatile, "h" ++ toString i, "Ljava/lang/invoke/MethodHandle;")

/-- **The methods that a plan asks for**: access, name, descriptor and declared exceptions of
each. -/
def methods (b : Bindings) (baseParams : List JvmType) (members : List Planned) :
    List (UInt16 × String × String × List String) :=
  [(Access.isStatic, "<clinit>", "()V", []),
    (Access.isPublic, "<init>", JvmType.methodDescriptor
      (.object (Name.toBinary (b.qualify "Interceptor")) :: baseParams) .void, [])] ++
  members.map (fun m => (Access.isPublic ||| Access.isFinal, m.signature.name,
    m.signature.descriptor, m.exceptions.map Name.toInternal)) ++
  [(Access.isPublic ||| Access.isFinal, "dispatch", callType b, ["java/lang/Throwable"])] ++
  (interfaceSlots members).map fun i =>
    (Access.isPrivate ||| Access.isFinal, "invokeTarget" ++ toString i,
      "(Ljava/lang/Object;[Ljava/lang/Object;)Ljava/lang/Object;", ["java/lang/Throwable"])

/-- Members whose slots are their places. -/
def Placed (members : List Planned) : Prop :=
  ∀ m i, (m, i) ∈ members.zipIdx → m.slot.toNat = i

variable {α : Type} {members : List Planned}

/-- Something that the members of interfaces have, numbered by its slot. -/
theorem filterMap_slot (hplaced : Placed members) {f : Planned → Option α} {g : Nat → α}
    (hf : ∀ m, f m = if m.origin = .interface then some (g m.slot.toNat) else none) :
    members.filterMap f = (interfaceSlots members).map g := by
  have hfst : members.zipIdx.map Prod.fst = members := List.zipIdx_map_fst 0 members
  conv_lhs => rw [← hfst, List.filterMap_map]
  unfold interfaceSlots
  unfold Placed at hplaced
  generalize members.zipIdx = entries at hplaced
  clear hfst
  induction entries with
  | nil => rfl
  | cons entry entries ih =>
    have hrest := ih fun m i hmem => hplaced m i (List.mem_cons_of_mem _ hmem)
    by_cases horigin : entry.1.origin = .interface
    · have hkept : (entry :: entries).filter (fun entry => entry.1.origin = .interface) =
          entry :: entries.filter fun entry => entry.1.origin = .interface :=
        List.filter_cons_of_pos (decide_eq_true horigin)
      rw [List.filterMap_cons, Function.comp_apply, hf, if_pos horigin, hrest,
        hplaced _ _ List.mem_cons_self, hkept]
      rfl
    · have hdropped : (entry :: entries).filter (fun entry => entry.1.origin = .interface) =
          entries.filter fun entry => entry.1.origin = .interface :=
        List.filter_cons_of_neg (by simpa using horigin)
      rw [List.filterMap_cons, Function.comp_apply, hf, if_neg horigin, hrest, hdropped]

end Contents

namespace Outline

variable {o : Outline}

/-- **The methods of an outline** are those that its plan asks for. -/
theorem map_methods (hplaced : Contents.Placed o.plan.members) :
    o.methods.map (fun m => (m.access, m.name, m.descriptor, m.exceptions)) =
      Contents.methods o.bindings o.baseParams o.plan.members := by
  unfold methods Contents.methods
  rw [List.map_append, List.map_append, List.map_append, List.map_map, List.map_filterMap]
  refine congrArg₂ (· ++ ·) rfl ?_
  refine Contents.filterMap_slot hplaced fun m => ?_
  unfold Dispatcher.helper targetField Planned.targetField Planned.targetMethod Planned.ifInterface
  cases m.origin <;> rfl

end Outline

/-! ## Generated classes -/

variable {g : Generator} {blueprint : Blueprint} {a : Artifact}

/-- The members of a generated class lie at their slots. -/
theorem placed_of_ofSurface {hash : String → Int32} {s : Surface} {plan : Plan}
    (h : Plan.ofSurface hash s = .ok plan) : Contents.Placed plan.members :=
  fun _ _ => Plan.slot_of_mem_zipIdx h

end Proxy

end ProxyForge
