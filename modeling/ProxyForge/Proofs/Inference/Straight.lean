import ProxyForge.Proofs.Descriptor
import ProxyForge.Proofs.Inference.Stretches
/-!
# Straight code

Most instructions take values from the stack and put one there, whatever the offset is at which
they stand, and leave the locals alone. `Straight` says what a list of such instructions does to the
stack; it has a rule for each of them (`Straight.int` and so on) and for a call, and code that is
put together has the rules put together. A stretch is straight code and an end
(`Stretch.Flows.straight` and the rules behind it).
-/

namespace ProxyForge

namespace Code

open SlotType (top)
open Outcome

/-- An instruction that control always passes through. -/
def Op.isPlain {L : Type} (op : Op L) : Bool :=
  op.targets.isEmpty && !op.isUnconditional

variable {m : MethodHeader} {locals stack stack' stack'' : List SlotType} {v : SlotType}
  {op : Op Label} {ops ops' : List (Op Label)} {kind : Kind} {params : List JvmType}
  {result : JvmType}

/-- **What straight code does to the stack**, over locals that it leaves alone. -/
inductive Straight (m : MethodHeader) (locals : List SlotType) :
    List SlotType → List (Op Label) → List SlotType → Prop
  | nil (stack : List SlotType) : Straight m locals stack [] stack
  | cons {stack stack' stack'' : List SlotType} {op : Op Label} {ops : List (Op Label)}
      (hplain : op.isPlain = true)
      (hstep : ∀ offset, TypeState.step m offset ⟨locals, stack⟩ op = .ok ⟨locals, stack'⟩)
      (hops : Straight m locals stack' ops stack'') : Straight m locals stack (op :: ops) stack''

namespace Straight

theorem one (hplain : op.isPlain = true)
    (hstep : ∀ offset, TypeState.step m offset ⟨locals, stack⟩ op = .ok ⟨locals, stack'⟩) :
    Straight m locals stack [op] stack' :=
  .cons hplain hstep (.nil stack')

/-- **Straight code is put together.** -/
theorem append (h : Straight m locals stack ops stack')
    (h' : Straight m locals stack' ops' stack'') :
    Straight m locals stack (ops ++ ops') stack'' := by
  induction h with
  | nil => exact h'
  | cons hplain hstep _ ih => exact .cons hplain hstep (ih h')

/-- An instruction in front of straight code. -/
theorem front (h : Straight m locals stack [op] stack') (h' : Straight m locals stack' ops stack'') :
    Straight m locals stack (op :: ops) stack'' :=
  h.append h'

/-! ## Values -/

theorem null : Straight m locals stack [.null] (.null :: stack) :=
  one rfl fun _ => rfl

theorem int (n : Int32) : Straight m locals stack [.int n] (.int :: stack) :=
  one rfl fun _ => rfl

theorem string (text : String) :
    Straight m locals stack [.string text] (.object "java/lang/String" :: stack) :=
  one rfl fun _ => rfl

theorem classOf (name : String) :
    Straight m locals stack [.classOf name] (.object "java/lang/Class" :: stack) :=
  one rfl fun _ => rfl

theorem load {index : UInt16} (hlocal : locals[index.toNat]? = some v) (hfits : v.fits kind) :
    Straight m locals stack [.load kind index] (v :: stack) := by
  refine one rfl fun _ => ?_
  simp only [TypeState.step, hlocal, hfits, if_true]
  rfl

theorem dup (hv : v.isWide = false) :
    Straight m locals (v :: stack) [.dup] (v :: v :: stack) := by
  refine one rfl fun _ => ?_
  simp only [TypeState.step, hv]
  rfl

theorem pop (hv : v.isWide = false) : Straight m locals (v :: stack) [.pop] stack := by
  refine one rfl fun _ => bind_eq_ok.2 ⟨(v, ⟨locals, stack⟩), rfl, ?_⟩
  dsimp only
  rw [hv]
  rfl

/-! ## Objects -/

theorem drop {s : TypeState} {rest : List SlotType} (hs : s = ⟨locals, v :: rest⟩)
    (hfits : v.fits kind) : s.dropKind kind = .ok ⟨locals, rest⟩ :=
  TypeState.dropKind_eq_ok.2 ⟨v, hs, hfits⟩

theorem cast (name : String) (hv : v.fits .reference) :
    Straight m locals (v :: stack) [.cast name] (.object name :: stack) :=
  one rfl fun _ => bind_eq_ok.2 ⟨_, drop rfl hv, rfl⟩

theorem newArray (element : String) :
    Straight m locals (.int :: stack) [.newArray element] (TypeState.arrayOf element :: stack) :=
  one rfl fun _ => bind_eq_ok.2 ⟨_, drop (v := .int) rfl rfl, rfl⟩

theorem monitorEnter (hv : v.fits .reference) :
    Straight m locals (v :: stack) [.monitorEnter] stack :=
  one rfl fun _ => drop rfl hv

theorem monitorExit (hv : v.fits .reference) :
    Straight m locals (v :: stack) [.monitorExit] stack :=
  one rfl fun _ => drop rfl hv

/-- An element is taken out of an array. -/
theorem arrayLoad {array : SlotType} (harray : array.fits .reference)
    (helement : TypeState.elementOf array = .ok v) :
    Straight m locals (.int :: array :: stack) [.arrayLoad] (v :: stack) := by
  refine one rfl fun _ => bind_eq_ok.2 ⟨_, drop (v := .int) rfl rfl, ?_⟩
  refine bind_eq_ok.2 ⟨(array, ⟨locals, stack⟩), TypeState.popFitting_eq_ok.2 ⟨rfl, harray⟩, ?_⟩
  exact bind_eq_ok.2 ⟨v, helement, rfl⟩

/-- A value is put into an array. -/
theorem arrayStore {array : SlotType} (harray : array.fits .reference) (hv : v.fits .reference) :
    Straight m locals (v :: .int :: array :: stack) [.arrayStore] stack :=
  one rfl fun _ => bind_eq_ok.2 ⟨_, drop rfl hv,
    bind_eq_ok.2 ⟨_, drop (v := .int) rfl rfl, drop rfl harray⟩⟩

/-! ## Fields -/

theorem getStatic {field : FieldRef} (hfield : TypeState.fieldValue field = .ok v) :
    Straight m locals stack [.getStatic field] (v :: stack) :=
  one rfl fun _ => bind_eq_ok.2 ⟨v, hfield, rfl⟩

theorem getField {field : FieldRef} {owner : SlotType} (howner : owner.fits .reference)
    (hfield : TypeState.fieldValue field = .ok v) :
    Straight m locals (owner :: stack) [.getField field] (v :: stack) :=
  one rfl fun _ => bind_eq_ok.2 ⟨_, drop rfl howner, bind_eq_ok.2 ⟨v, hfield, rfl⟩⟩

theorem putStatic (field : FieldRef) :
    Straight m locals (v :: stack) [.putStatic field] stack :=
  one rfl fun _ => rfl

theorem putField (field : FieldRef) {owner : SlotType} (howner : owner.fits .reference) :
    Straight m locals (v :: owner :: stack) [.putField field] stack :=
  one rfl fun _ => bind_eq_ok.2 ⟨(v, ⟨locals, owner :: stack⟩), rfl, drop rfl howner⟩

/-! ## Calls -/

end Straight

/-- May the value be passed for a parameter of the type? -/
def SlotType.passes (v : SlotType) (t : JvmType) : Prop :=
  ∃ kind, Kind.ofType t = some kind ∧ v.fits kind

/-- The value of a result, if there is one. -/
def SlotType.ofResult (result : JvmType) : List SlotType :=
  (ofType result).toList

namespace TypeState

/-- Arguments that may be passed are taken. -/
theorem dropArguments_append {vs : List SlotType} (h : List.Forall₂ SlotType.passes vs params) :
    dropArguments ⟨locals, vs ++ stack⟩ params = .ok ⟨locals, stack⟩ := by
  induction h with
  | nil => rfl
  | cons hpass _ ih =>
    obtain ⟨kind, hkind, hfits⟩ := hpass
    unfold dropArguments
    rw [hkind]
    exact bind_eq_ok.2 ⟨_, Straight.drop rfl hfits, ih⟩

/-- What a call of a method without a receiver does. -/
theorem call_static {method : MethodRef} {vs : List SlotType}
    (hd : JvmType.ofMethodDescriptor method.descriptor = .ok (params, result))
    (hvs : List.Forall₂ SlotType.passes vs params) :
    call m .static method ⟨locals, vs.reverse ++ stack⟩ =
      .ok ⟨locals, SlotType.ofResult result ++ stack⟩ := by
  unfold call SlotType.ofResult
  rw [hd]
  refine bind_eq_ok.2 ⟨_, dropArguments_append (List.rel_reverse hvs), ?_⟩
  refine bind_eq_ok.2 ⟨⟨locals, stack⟩, rfl, ?_⟩
  cases SlotType.ofType result <;> rfl

/-- What a call on a receiver does, if it is no constructor. -/
theorem call_on {method : MethodRef} {kind : CallKind} {vs : List SlotType}
    (hkind : kind ≠ .static) (hname : kind = .special → method.name ≠ constructorName)
    (hd : JvmType.ofMethodDescriptor method.descriptor = .ok (params, result))
    (hvs : List.Forall₂ SlotType.passes vs params) (hv : v.fits .reference) :
    call m kind method ⟨locals, vs.reverse ++ v :: stack⟩ =
      .ok ⟨locals, SlotType.ofResult result ++ stack⟩ := by
  have hreceiver : dropReceiver m kind method ⟨locals, v :: stack⟩ = .ok ⟨locals, stack⟩ := by
    have hpop : popFitting .reference ⟨locals, v :: stack⟩ = .ok (v, ⟨locals, stack⟩) :=
      popFitting_eq_ok.2 ⟨rfl, hv⟩
    have hno : ¬ (kind = .special ∧ method.name = constructorName) := fun h => hname h.1 h.2
    cases kind with
    | static => exact absurd rfl hkind
    | _ =>
      refine bind_eq_ok.2 ⟨_, hpop, ?_⟩
      dsimp only
      rw [if_neg hno]
      rfl
  unfold call SlotType.ofResult
  rw [hd]
  refine bind_eq_ok.2 ⟨_, dropArguments_append (List.rel_reverse hvs), ?_⟩
  refine bind_eq_ok.2 ⟨_, hreceiver, ?_⟩
  cases SlotType.ofType result <;> rfl

/-- **What a constructor does**: its receiver becomes an object wherever it lies. -/
theorem call_constructor {method : MethodRef} {vs : List SlotType} {new : SlotType}
    (hname : method.name = constructorName)
    (hd : JvmType.ofMethodDescriptor method.descriptor = .ok (params, .void))
    (hvs : List.Forall₂ SlotType.passes vs params) (hv : v.fits .reference)
    (hnew : constructed m v = .ok new) :
    call m .special method ⟨locals, vs.reverse ++ v :: stack⟩ =
      .ok (replace v new ⟨locals, stack⟩) := by
  unfold call
  rw [hd]
  refine bind_eq_ok.2 ⟨_, dropArguments_append (List.rel_reverse hvs), ?_⟩
  have hpop : popFitting .reference ⟨locals, v :: stack⟩ = .ok (v, ⟨locals, stack⟩) :=
    popFitting_eq_ok.2 ⟨rfl, hv⟩
  refine bind_eq_ok.2 ⟨replace v new ⟨locals, stack⟩, bind_eq_ok.2 ⟨_, hpop, ?_⟩, rfl⟩
  dsimp only
  rw [if_pos ⟨rfl, hname⟩]
  exact bind_eq_ok.2 ⟨new, hnew, rfl⟩

/-- A local variable has the value that was put into it. -/
theorem getElem?_storeLocal {i : Nat} (hv : v.fits kind) :
    (storeLocal locals i kind v)[i]? = some v := by
  have hslot : slotAt (storeLocal locals i kind v) i = v := by
    rw [slotAt_storeLocal, if_pos rfl]
  have hknown := getElem?_of_slotAt (hslot.symm ▸ SlotType.ne_top_of_fits hv :
    slotAt (storeLocal locals i kind v) i ≠ top)
  rwa [hslot] at hknown

end TypeState

namespace Straight

variable {owner name descriptor : String} {inInterface : Bool} {vs : List SlotType}

/-- **A call without a receiver** takes its arguments and gives its result. -/
theorem callStatic (hd : JvmType.ofMethodDescriptor descriptor = .ok (params, result))
    (hvs : List.Forall₂ SlotType.passes vs params) :
    Straight m locals (vs.reverse ++ stack)
      [.invoke .static ⟨owner, name, descriptor, inInterface⟩]
      (SlotType.ofResult result ++ stack) :=
  one rfl fun _ => TypeState.call_static hd hvs

/-- **A call on a receiver** takes it with its arguments and gives its result. -/
theorem callOn (kind : CallKind) (hkind : kind ≠ .static)
    (hname : kind = .special → name ≠ constructorName)
    (hd : JvmType.ofMethodDescriptor descriptor = .ok (params, result))
    (hvs : List.Forall₂ SlotType.passes vs params) (hv : v.fits .reference) :
    Straight m locals (vs.reverse ++ v :: stack)
      [.invoke kind ⟨owner, name, descriptor, inInterface⟩]
      (SlotType.ofResult result ++ stack) :=
  one rfl fun _ => TypeState.call_on hkind hname hd hvs hv

/-- A call of a virtual method. -/
theorem callVirtual (hd : JvmType.ofMethodDescriptor descriptor = .ok (params, result))
    (hvs : List.Forall₂ SlotType.passes vs params) (hv : v.fits .reference) :
    Straight m locals (vs.reverse ++ v :: stack)
      [.invoke .virtual ⟨owner, name, descriptor, inInterface⟩]
      (SlotType.ofResult result ++ stack) :=
  callOn .virtual (by decide) (fun hkind => absurd hkind (by decide)) hd hvs hv

end Straight

namespace Stretch

variable {offset : Nat → Nat} {ss : List Stretch} {guards : List Label} {i : Nat} {s : TypeState}
  {next : Option TypeState} {label : Label}

/-! ## Stretches -/

/-- **Straight code in front of a stretch's rest.** -/
theorem Flows.straight (h : Straight m locals stack ops stack')
    (hguards : ∀ label ∈ guards, Accepts ss label (TypeState.raised ⟨locals, stack⟩))
    (hrest : Flows m offset ss guards (i + ops.length) ⟨locals, stack'⟩ ops' next) :
    Flows m offset ss guards i ⟨locals, stack⟩ (ops ++ ops') next := by
  induction h generalizing i with
  | nil => exact hrest
  | @cons stack₁ stack₂ stack₃ op ops hplain hstep hops ih =>
    simp only [Op.isPlain, Bool.and_eq_true, List.isEmpty_iff, Bool.not_eq_true'] at hplain
    refine .on ⟨hstep _, ?_, hguards, hguards⟩ hplain.2 (ih hguards ?_)
    · rw [hplain.1]
      exact List.forall_mem_nil _
    · rw [List.length_cons, ← Nat.add_assoc, Nat.add_right_comm] at hrest
      exact hrest

/-- A stretch of straight code passes on what lies on the stack. -/
theorem Flows.of_straight (h : Straight m locals stack ops stack')
    (hguards : ∀ label ∈ guards, Accepts ss label (TypeState.raised ⟨locals, stack⟩)) :
    Flows m offset ss guards i ⟨locals, stack⟩ ops (some ⟨locals, stack'⟩) := by
  have hflows : Flows m offset ss guards i ⟨locals, stack⟩ (ops ++ []) (some ⟨locals, stack'⟩) :=
    Flows.straight h hguards (.done _ _)
  rwa [List.append_nil] at hflows

/-- A stretch that returns nothing. -/
theorem Flows.ret (hguards : ∀ label ∈ guards, Accepts ss label s.raised) :
    Flows m offset ss guards i s [.ret none] none :=
  .stop ⟨rfl, List.forall_mem_nil _, hguards, hguards⟩ rfl

/-- A stretch that returns a value. -/
theorem Flows.retValue (hv : v.fits kind)
    (hguards : ∀ label ∈ guards, Accepts ss label (TypeState.raised ⟨locals, v :: stack⟩)) :
    Flows m offset ss guards i ⟨locals, v :: stack⟩ [.ret (some kind)] none :=
  .stop ⟨Straight.drop rfl hv, List.forall_mem_nil _, hguards, hguards⟩ rfl

/-- A stretch that throws. -/
theorem Flows.throw (hv : v.fits .reference)
    (hguards : ∀ label ∈ guards, Accepts ss label (TypeState.raised ⟨locals, v :: stack⟩)) :
    Flows m offset ss guards i ⟨locals, v :: stack⟩ [.throw] none :=
  .stop ⟨Straight.drop rfl hv, List.forall_mem_nil _, hguards, hguards⟩ rfl

/-- A stretch that jumps. -/
theorem Flows.goto (hlabel : Accepts ss label s)
    (hguards : ∀ label ∈ guards, Accepts ss label s.raised) :
    Flows m offset ss guards i s [.jump .always label] none := by
  refine .stop ⟨rfl, fun target htarget => ?_, hguards, hguards⟩ rfl
  rwa [List.mem_singleton.1 htarget]

/-- A jump that is taken if there is an object. -/
theorem Flows.ifNonNull (hv : v.fits .reference) (hlabel : Accepts ss label ⟨locals, stack⟩)
    (hguards : ∀ label ∈ guards, Accepts ss label (TypeState.raised ⟨locals, v :: stack⟩))
    (hrest : Flows m offset ss guards (i + 1) ⟨locals, stack⟩ ops next) :
    Flows m offset ss guards i ⟨locals, v :: stack⟩ (.jump .ifNonNull label :: ops) next := by
  refine .on ⟨Straight.drop rfl hv, fun target htarget => ?_, hguards, hguards⟩ rfl hrest
  rwa [List.mem_singleton.1 htarget]

/-- A value is put into a local variable. -/
theorem Flows.store {index : UInt16} (hv : v.fits kind)
    (hbefore : ∀ label ∈ guards, Accepts ss label (TypeState.raised ⟨locals, v :: stack⟩))
    (hafter : ∀ label ∈ guards, Accepts ss label
      (TypeState.raised ⟨TypeState.storeLocal locals index.toNat kind v, stack⟩))
    (hrest : Flows m offset ss guards (i + 1)
      ⟨TypeState.storeLocal locals index.toNat kind v, stack⟩ ops next) :
    Flows m offset ss guards i ⟨locals, v :: stack⟩ (.store kind index :: ops) next := by
  refine .on ⟨bind_eq_ok.2 ⟨(v, ⟨locals, stack⟩), ?_, rfl⟩, List.forall_mem_nil _, hbefore, hafter⟩ rfl
    hrest
  exact TypeState.popFitting_eq_ok.2 ⟨rfl, hv⟩

/-- A stretch that ends with a switch. -/
theorem Flows.lookupSwitch {fallback : Label} {cases : List (Int32 × Label)}
    (hfallback : Accepts ss fallback ⟨locals, stack⟩)
    (hcases : ∀ c ∈ cases, Accepts ss c.2 ⟨locals, stack⟩)
    (hguards : ∀ label ∈ guards, Accepts ss label (TypeState.raised ⟨locals, .int :: stack⟩)) :
    Flows m offset ss guards i ⟨locals, .int :: stack⟩ [.lookupSwitch fallback cases] none := by
  refine .stop ⟨Straight.drop rfl rfl, fun target htarget => ?_, hguards, hguards⟩ rfl
  rcases List.mem_cons.1 htarget with rfl | htarget
  · exact hfallback
  · obtain ⟨c, hc, rfl⟩ := List.mem_map.1 htarget
    exact hcases c hc

/-- **A stretch that throws a new object**, for which straight code pushes the arguments; no
handler watches. -/
theorem Flows.throwNew {name descriptor : String} {vs : List SlotType}
    (hargs : ∀ u, Straight m locals (u :: u :: stack) ops (vs.reverse ++ u :: u :: stack))
    (hd : JvmType.ofMethodDescriptor descriptor = .ok (params, .void))
    (hvs : List.Forall₂ SlotType.passes vs params) :
    Flows m offset ss [] i ⟨locals, stack⟩ (.new name :: .dup :: (ops ++
      [.invoke .special ⟨name, constructorName, descriptor, false⟩, .throw])) none := by
  refine .on (t := ⟨locals, .uninitialized (offset i) name :: stack⟩)
    ⟨rfl, List.forall_mem_nil _, List.forall_mem_nil _, List.forall_mem_nil _⟩ rfl ?_
  generalize hfresh : SlotType.uninitialized (offset i) name = u
  have hu : u.isWide = false := by rw [← hfresh]; rfl
  have hreference : u.fits .reference := by rw [← hfresh]; rfl
  have hnew : TypeState.constructed m u = .ok (.object name) := by rw [← hfresh]; rfl
  refine Flows.straight (Straight.dup hu) (List.forall_mem_nil _)
    (Flows.straight (hargs u) (List.forall_mem_nil _) ?_)
  refine .on ⟨TypeState.call_constructor rfl hd hvs hreference hnew, List.forall_mem_nil _,
    List.forall_mem_nil _, List.forall_mem_nil _⟩ rfl ?_
  have htop : TypeState.replace u (.object name) ⟨locals, u :: stack⟩ =
      ⟨(TypeState.replace u (.object name) ⟨locals, stack⟩).locals,
        .object name :: (TypeState.replace u (.object name) ⟨locals, stack⟩).stack⟩ := by
    simp [TypeState.replace]
  exact .stop ⟨Straight.drop htop rfl, List.forall_mem_nil _, List.forall_mem_nil _,
    List.forall_mem_nil _⟩ rfl

end Stretch

end Code

end ProxyForge
