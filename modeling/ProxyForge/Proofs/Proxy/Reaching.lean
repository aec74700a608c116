import ProxyForge.Proofs.Arity
import ProxyForge.Proofs.Proxy.Dispatcher
import ProxyForge.Proofs.Run.Machine
/-!
# What the code for a member computes

The pieces of `dispatch`, run on terms. The arguments of a member are taken out of an array, each
as a value of its parameter's type (`Boxing.steps_unpackParams`), and its result is boxed
(`Boxing.steps_boxResult`). So the code for a member calls the member's helper or the
superclass's method, with the operands that belong to it (`Dispatcher.run_reach`).
-/

namespace ProxyForge

namespace Run

open Proxy.Boxing (constantName unwrapping wrapperClass wrapping)

/-! ## Conversions -/

/-- The call that takes a primitive out of the object that wraps it. -/
def unboxing (t : JvmType) (object : Value) : Option Call :=
  match t with
  | .primitive p => some ⟨.virtual, unwrapping p, [.cast (wrapperClass p) object]⟩
  | _ => none

/-- **An object as a value of a type**: a primitive is taken out of its wrapper, and a reference is
cast, unless any object will do. -/
def Value.as (t : JvmType) (object : Value) : Value :=
  match unboxing t object with
  | some c => c.result
  | none =>
    match constantName t with
    | some name => if name = "java/lang/Object" then object else .cast name object
    | none => object

/-- The call that wraps a primitive in an object. -/
def boxing (t : JvmType) (v : Value) : Option Call :=
  match t with
  | .primitive p => some ⟨.static, wrapping p, [v]⟩
  | _ => none

/-- **A result as an object**: a primitive is wrapped, and `null` stands for no result. -/
def Value.boxed (t : JvmType) (v : Value) : Value :=
  if t = .void then .null
  else match boxing t v with
    | some c => c.result
    | none => v

/-- An element of an array of arguments. -/
def argument (arguments : Value) (index : Nat) : Value :=
  .element arguments (.int (Int32.ofNat index))

/-- **The arguments of parameters**: the elements of an array in their order, each as a value of
its parameter's type. -/
def passed (params : List JvmType) (arguments : Value) : List Value :=
  params.zipIdx.map fun (t, i) => (argument arguments i).as t

/-- The calls that take primitives among the arguments out of their wrappers. -/
def unboxings (params : List JvmType) (arguments : Value) : List Call :=
  params.zipIdx.filterMap fun (t, i) => unboxing t (argument arguments i)

end Run

namespace Proxy

open Code (Op CallKind)
open Run (State Value Call Ending Steps argument passed unboxing unboxings boxing)

variable {locals stack : List Value} {calls : List Call} {v arguments : Value} {t : JvmType}
  {params : List JvmType}

/-! ## Boxing -/

namespace Boxing

/-- **An object becomes a value of a type.** -/
theorem steps_unboxValue (ht : t ≠ .void) : Steps locals (unboxValue t) ⟨v :: stack, calls⟩
    ⟨v.as t :: stack, calls ++ (unboxing t v).toList⟩ := by
  have hname : ∀ name, constantName t = some name → t.isReference →
      unboxing t v = none → Steps locals (unboxValue t) ⟨v :: stack, calls⟩
        ⟨v.as t :: stack, calls ++ (unboxing t v).toList⟩ := by
    intro name hname hreference hnone
    rw [unboxValue_reference hreference hname, Value.as, hnone, hname]
    dsimp only
    rw [Option.toList_none, List.append_nil]
    split
    · exact .nil _
    · exact .cast name
  cases t with
  | primitive p =>
    have hcall : Steps locals [.invoke .virtual (unwrapping p)]
        ⟨[Value.cast (wrapperClass p) v].reverse ++ stack, calls⟩ _ :=
      Steps.invoke nofun (parse_unwrapping p) rfl
    rw [if_neg nofun] at hcall
    rw [unboxValue_primitive]
    exact (Steps.cast _).front hcall
  | void => exact absurd rfl ht
  | object name => exact hname _ rfl rfl rfl
  | array element => exact hname _ rfl rfl rfl

/-- **Arguments are taken out of an array**, one after the other. -/
theorem steps_unpackParams (hparams : ∀ t ∈ params, t ≠ .void) {array : UInt16}
    (hlocal : locals[array.toNat]? = some arguments) :
    Steps locals (unpackParams params array) ⟨stack, calls⟩
      ⟨(passed params arguments).reverse ++ stack, calls ++ unboxings params arguments⟩ := by
  unfold unpackParams passed unboxings
  generalize 0 = k
  induction params generalizing k stack calls with
  | nil =>
    rw [List.zipIdx_nil, List.filterMap_nil, List.append_nil]
    exact .nil _
  | cons t params ih =>
    have hone : Steps locals ([.load .reference array, count k, .arrayLoad] ++ unboxValue t)
        ⟨stack, calls⟩ ⟨(argument arguments k).as t :: stack,
          calls ++ (unboxing t (argument arguments k)).toList⟩ :=
      (Steps.load hlocal).front <| (Steps.int _).front <| Steps.arrayLoad.front
        (steps_unboxValue (hparams t List.mem_cons_self))
    have hrest := hone.append (ih (fun t' ht' => hparams t' (List.mem_cons_of_mem t ht')) (k + 1))
    have hcalls : ((t, k) :: params.zipIdx (k + 1)).filterMap
        (fun (t, i) => unboxing t (argument arguments i)) =
        (unboxing t (argument arguments k)).toList ++ (params.zipIdx (k + 1)).filterMap
          (fun (t, i) => unboxing t (argument arguments i)) := by
      rw [List.filterMap_cons]
      dsimp only
      cases unboxing t (argument arguments k) <;> rfl
    rw [List.zipIdx_cons, List.flatMap_cons, List.map_cons, List.reverse_cons, hcalls,
      List.append_assoc _ [_], List.singleton_append, ← List.append_assoc calls]
    exact hrest

/-- **A result becomes an object**; there is none on the stack if it is `void`. -/
theorem steps_boxResult (t : JvmType) :
    Steps locals (boxResult t) ⟨if t = .void then stack else v :: stack, calls⟩
      ⟨v.boxed t :: stack, calls ++ (boxing t v).toList⟩ := by
  cases t with
  | void =>
    change Steps locals [.null] ⟨stack, calls⟩ ⟨.null :: stack, calls ++ []⟩
    rw [List.append_nil]
    exact .null
  | primitive p =>
    have hcall : Steps locals [.invoke .static (wrapping p)] ⟨[v].reverse ++ stack, calls⟩ _ :=
      Steps.invoke nofun (parse_wrapping p) rfl
    rw [if_neg nofun] at hcall
    rw [boxResult_primitive]
    exact hcall
  | object name | array element =>
    change Steps locals [] ⟨v :: stack, calls⟩ ⟨v :: stack, calls ++ []⟩
    rw [List.append_nil]
    exact .nil _

end Boxing

/-! ## Members -/

namespace Dispatcher

open Boxing (call)

variable {o : Outline} {m : Planned} {self receiver member : Value} {pool : Pool}
  {is rest : List Instruction}

/-- The call of a member's helper. -/
def helperCall (thisName : String) (m : Planned) (self receiver arguments : Value) : Call :=
  ⟨.special, helperMethod thisName m, [self, receiver, arguments]⟩

/-- The call of the superclass's method. -/
def superCall (superName : String) (m : Planned) (self arguments : Value) : Call :=
  ⟨.special, ⟨superName, m.signature.name, m.signature.descriptor, false⟩,
    self :: passed m.signature.params arguments⟩

/-- **What reaching a member comes to**: which methods are called, and what is returned. A member
of an interface is called through its helper, any other one on the superclass. -/
def reached (thisName superName : String) (m : Planned) (self receiver arguments : Value) :
    List Call × Ending :=
  match m.origin with
  | .interface =>
    let c := helperCall thisName m self receiver arguments
    ([c], .returned c.result)
  | _ =>
    let c := superCall superName m self arguments
    (unboxings m.signature.params arguments ++ [c] ++ (boxing m.signature.result c.result).toList,
      .returned (c.result.boxed m.signature.result))

/-- **Calls of a method find as many operands as it has parameters**, and leave a result unless it
has none. -/
def Callable (m : Planned) : Prop :=
  ∃ params result, JvmType.ofMethodDescriptor m.signature.descriptor = .ok (params, result) ∧
    params.length = m.signature.params.length ∧ (result = .void ↔ m.signature.result = .void)

variable (self receiver member arguments) in
/-- The arguments of a member are pushed behind the instance. -/
theorem steps_operands (hparams : ∀ t ∈ m.signature.params, t ≠ .void) :
    Steps [self, receiver, member, arguments]
      (.load .reference 0 :: Boxing.unpackParams m.signature.params 3) .start
      ⟨(passed m.signature.params arguments).reverse ++ [self],
        unboxings m.signature.params arguments⟩ :=
  (Steps.load rfl).front (Boxing.steps_unpackParams hparams rfl)

variable (o self receiver member arguments) in
/-- **The code for a member**, up to its return. -/
theorem steps_reach (hparams : ∀ t ∈ m.signature.params, t ≠ .void)
    (hcallable : m.origin ≠ .interface → Callable m) :
    ∃ ops s v, reach (L := Nat) o m = ops ++ [.ret (some .reference)] ∧
      Steps [self, receiver, member, arguments] ops .start s ∧ s.stack.head? = some v ∧
      reached o.thisName o.superName m self receiver arguments = (s.calls, .returned v) := by
  by_cases horigin : m.origin = .interface
  · have hcall : Steps [self, receiver, member, arguments]
        [.invoke .special (helperMethod o.thisName m)]
        ⟨[self, receiver, arguments].reverse ++ [], []⟩ _ :=
      Steps.invoke nofun parse_helperDescriptor rfl
    rw [if_neg nofun] at hcall
    have hself : Steps [self, receiver, member, arguments] [.load .reference 0] .start _ :=
      Steps.load rfl
    have hreceiver : Steps [self, receiver, member, arguments] [.load .reference 1]
        (State.start.push self) _ := Steps.load rfl
    have harguments : Steps [self, receiver, member, arguments] [.load .reference 3]
        ((State.start.push self).push receiver) _ := Steps.load rfl
    refine ⟨_, _, (helperCall o.thisName m self receiver arguments).result,
      reach_interface o horigin, hself.front <| hreceiver.front <| harguments.front hcall, rfl, ?_⟩
    unfold reached
    rw [horigin]
    rfl
  · obtain ⟨params, result, hparse, hlength, hvoid⟩ := hcallable horigin
    -- the instance and the arguments are exactly what the call takes
    have hcall : Steps [self, receiver, member, arguments]
        [call .special o.superName m.signature.name m.signature.descriptor]
        ⟨(self :: passed m.signature.params arguments).reverse ++ [],
          unboxings m.signature.params arguments⟩ _ :=
      Steps.invoke nofun hparse (by simp [passed, State.operandCount, hlength])
    simp only [List.reverse_cons, List.append_nil, hvoid] at hcall
    refine ⟨_, _, _, reach_inherited o horigin, ((steps_operands _ _ _ _ hparams).append
      hcall).append (Boxing.steps_boxResult m.signature.result), rfl, ?_⟩
    unfold reached
    cases hkind : m.origin with
    | interface => exact absurd hkind horigin
    | universal | base => rfl

/-- **The code for a member reaches it.** -/
theorem run_reach {place : Nat → Option Nat}
    (hwritten : List.Forall₂ (fun op i => op.WrittenAs pool place i) (reach o m) is)
    (hparams : ∀ t ∈ m.signature.params, t ≠ .void)
    (hcallable : m.origin ≠ .interface → Callable m) :
    Run.run pool [self, receiver, member, arguments] (is ++ rest) .start =
      some (reached o.thisName o.superName m self receiver arguments) := by
  obtain ⟨ops, s, v, hreach, hsteps, hv, hreached⟩ :=
    steps_reach arguments o self receiver member hparams hcallable
  rw [hreach] at hwritten
  obtain ⟨front, last, rfl, hfront, hlast⟩ := Run.exists_last hwritten
  rw [List.append_assoc, List.singleton_append, hreached]
  refine Run.run_ends hsteps hfront (Instruction.symbolic_eq rfl hlast) ?_
  rw [State.ending, hv]
  rfl

/-! ## Ids of no member -/

/-- **What an id of no member comes to**: an exception that is made at an offset. -/
def refused (offset : Nat) : List Call × Ending :=
  let e : Value := .created offset "java/lang/IllegalArgumentException"
  ([⟨.special, ⟨"java/lang/IllegalArgumentException", "<init>", "(Ljava/lang/String;)V", false⟩,
      [e, .string "unknown dispatch id"]⟩], .threw e)

/-- **The code for an id of no member throws.** -/
theorem run_unknown {place : Nat → Option Nat} {i : Instruction}
    (hwritten : List.Forall₂ (fun op i => op.WrittenAs pool place i) unknownBlock.ops (i :: is)) :
    Run.run pool locals (i :: is ++ rest) .start = some (refused i.offset) := by
  have hops : unknownBlock.ops = ([.new "java/lang/IllegalArgumentException", .dup,
      .string "unknown dispatch id",
      call .special "java/lang/IllegalArgumentException" "<init>" "(Ljava/lang/String;)V"] ++
        [.throw] : List (Op Nat)) := rfl
  rw [hops] at hwritten
  obtain ⟨front, last, his, hfront, hlast⟩ := Run.exists_last hwritten
  cases hfront with
  | @cons _ i' _ front hnew hfront =>
    obtain ⟨rfl, rfl⟩ := List.cons.inj his
    let e : Value := .created i.offset "java/lang/IllegalArgumentException"
    have hcall : Steps locals [call .special "java/lang/IllegalArgumentException" "<init>"
        "(Ljava/lang/String;)V"] ⟨[e, .string "unknown dispatch id"].reverse ++ [e], []⟩ _ :=
      Steps.invoke nofun parse_throwNew rfl
    rw [if_pos rfl] at hcall
    have hsteps : Steps locals [.dup, .string "unknown dispatch id",
        call .special "java/lang/IllegalArgumentException" "<init>" "(Ljava/lang/String;)V"]
        ⟨[e], []⟩ _ := Steps.dup.front <| (Steps.string _).front hcall
    change Run.run pool locals (i :: (front ++ [last] ++ rest)) _ = _
    rw [List.append_assoc, List.singleton_append,
      Run.run_cons (Instruction.symbolic_eq rfl hnew) rfl]
    exact Run.run_ends hsteps hfront (Instruction.symbolic_eq rfl hlast) rfl

end Dispatcher

end Proxy

end ProxyForge
