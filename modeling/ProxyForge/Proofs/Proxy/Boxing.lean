import ProxyForge.Proofs.Proxy.References
/-!
# Boxing is well typed

What the pieces of code that box, unbox, push and pack values do to the stack, for any list of
parameters: a value becomes an object (`Boxing.straight_boxValue`), an object a value of its type
(`Boxing.straight_unboxValue`), and arguments are taken out of an array one by one
(`Boxing.straight_unpackParams`). Parameters that lie in the locals are pushed or packed
(`Boxing.straight_pushParams`, `Boxing.straight_packParams`).
-/

namespace ProxyForge

namespace Code

namespace SlotType

variable {v : SlotType} {t : JvmType}

/-- **What is known of a value fits the kind of its type.** -/
theorem exists_ofType (h : t ≠ .void) : ∃ v kind, ofType t = some v ∧
    Kind.ofType t = some kind ∧ v.fits kind ∧ v.slots = t.slots.toNat := by
  cases t with
  | primitive p => cases p <;> exact ⟨_, _, rfl, rfl, rfl, rfl⟩
  | void => exact absurd rfl h
  | object name => exact ⟨_, _, rfl, rfl, rfl, rfl⟩
  | array element => exact ⟨_, _, rfl, rfl, rfl, rfl⟩

/-- A reference passes as a value of any reference type. -/
theorem passes_reference (ht : t.isReference) (hv : v.fits .reference) : v.passes t := by
  cases t with
  | primitive p | void => cases ht
  | object _ | array _ => exact ⟨.reference, rfl, hv⟩

theorem passes_ofType (h : ofType t = some v) : v.passes t := by
  have ht : t ≠ .void := by
    rintro rfl
    cases h
  obtain ⟨v', kind, hv', hkind, hfits, -⟩ := exists_ofType ht
  cases h.symm.trans hv'
  exact ⟨kind, hkind, hfits⟩

end SlotType

end Code

namespace Proxy

namespace Boxing

open Code (Op Kind Label FieldRef MethodHeader SlotType Straight TypeState)
open Code.SlotType (passes ofResult)

variable {m : MethodHeader} {locals stack : List SlotType} {v r : SlotType} {t : JvmType}
  {params : List JvmType}

/-- What is known of any object. -/
theorem ofResult_anyObject : ofResult .anyObject = [.object Code.objectClass] := by
  cbv

/-! ## Classes -/

/-- The fields with the classes of primitives are read. -/
theorem straight_pushClass (t : JvmType) :
    Straight m locals stack [pushClass t] (.object classClass :: stack) := by
  unfold pushClass
  split
  · exact .classOf _
  · refine .getStatic ?_
    unfold TypeState.fieldValue
    have hd : JvmType.ofDescriptor "Ljava/lang/Class;" = .ok (.object "java.lang.Class") := by
      have hclass : "Ljava/lang/Class;" = (JvmType.object "java.lang.Class").descriptor := by
        cbv
      rw [hclass]
      exact JvmType.ofDescriptor_descriptor (by cbv)
    dsimp only
    rw [hd]
    have hname : Name.toInternal "java.lang.Class" = classClass := by cbv
    change Except.ok (SlotType.object (Name.toInternal "java.lang.Class")) = _
    rw [hname]

/-- **An array of classes is pushed.** -/
theorem straight_pushClasses (types : List JvmType) :
    Straight m locals stack (pushClasses types) (TypeState.arrayOf classClass :: stack) := by
  have helements : ∀ k, Straight m locals (TypeState.arrayOf classClass :: stack)
      ((types.zipIdx k).flatMap fun p => [.dup, count p.2, pushClass p.1, .arrayStore])
      (TypeState.arrayOf classClass :: stack) := by
    induction types with
    | nil => exact fun _ => .nil _
    | cons t types ih =>
      intro k
      rw [List.zipIdx_cons, List.flatMap_cons]
      refine Straight.append ?_ (ih (k + 1))
      exact (Straight.dup rfl).front <| (Straight.int _).front <|
        (straight_pushClass t).front <| .arrayStore rfl rfl
  exact (Straight.int _).front <| (Straight.newArray _).front (helements 0)

/-! ## Values -/

/-- **A value is boxed**: it becomes an object. -/
theorem straight_boxValue (m : MethodHeader) (locals : List SlotType)
    (hv : SlotType.ofType t = some v) : ∃ r, r.fits .reference ∧
    ∀ stack, Straight m locals (v :: stack) (boxValue t) (r :: stack) := by
  cases t with
  | primitive p =>
    refine ⟨.object (Name.toInternal (Name.toBinary (wrapperClass p))), rfl, fun stack => ?_⟩
    rw [boxValue_primitive]
    exact Straight.callStatic (parse_wrapping p) (.cons (SlotType.passes_ofType hv) .nil)
  | void => cases hv
  | object name =>
    cases hv
    exact ⟨_, rfl, fun stack => .nil _⟩
  | array element =>
    cases hv
    exact ⟨_, rfl, fun stack => .nil _⟩

/-- **A result is boxed**; there is `null` where there is none. -/
theorem straight_boxResult (m : MethodHeader) (locals : List SlotType) (t : JvmType) :
    ∃ r, r.fits .reference ∧
      ∀ stack, Straight m locals (ofResult t ++ stack) (boxResult t) (r :: stack) := by
  unfold boxResult
  split
  · rename_i hvoid
    rw [hvoid]
    exact ⟨.null, rfl, fun stack => .null⟩
  · rename_i hvoid
    obtain ⟨v, -, hv, -⟩ := SlotType.exists_ofType hvoid
    obtain ⟨r, hr, hstraight⟩ := straight_boxValue m locals hv
    refine ⟨r, hr, fun stack => ?_⟩
    rw [ofResult, hv]
    exact hstraight stack

/-- **An object is unboxed**: it becomes a value of the type. -/
theorem straight_unboxValue (m : MethodHeader) (locals : List SlotType) (ht : t ≠ .void)
    (hr : r.fits .reference) : ∃ v, passes v t ∧
      ∀ stack, Straight m locals (r :: stack) (unboxValue t) (v :: stack) := by
  cases t with
  | primitive p =>
    obtain ⟨v, -, hv, -⟩ := SlotType.exists_ofType ht
    refine ⟨v, SlotType.passes_ofType hv, fun stack => ?_⟩
    have hcall : Straight m locals (.object (wrapperClass p) :: stack)
        [.invoke .virtual (unwrapping p)] (ofResult (.primitive p) ++ stack) :=
      Straight.callVirtual (parse_unwrapping p) .nil rfl
    rw [ofResult, hv] at hcall
    rw [unboxValue_primitive]
    exact (Straight.cast _ hr).front hcall
  | void => exact absurd rfl ht
  | object name | array element =>
    rw [unboxValue_reference rfl rfl]
    split
    · exact ⟨r, SlotType.passes_reference rfl hr, fun stack => .nil _⟩
    · exact ⟨_, SlotType.passes_reference rfl rfl, fun stack => .cast _ hr⟩

/-! ## Arrays of arguments -/

/-- What is known of an array of objects. -/
def objectArray : SlotType := .object "[Ljava/lang/Object;"

theorem arrayOf_objectClass : TypeState.arrayOf objectClass = objectArray := by
  decide +kernel

theorem fits_objectArray : objectArray.fits .reference := rfl

theorem fits_object : (SlotType.object objectClass).fits .reference := rfl

theorem elementOf_objectArray : TypeState.elementOf objectArray = .ok (.object objectClass) := by
  cbv

/-- **The arguments in an array are pushed**, each as a value of its parameter's type. -/
theorem straight_unpackParams (m : MethodHeader) (hparams : ∀ t ∈ params, t ≠ .void)
    (array : UInt16) (hlocal : locals[array.toNat]? = some objectArray) :
    ∃ vs, List.Forall₂ passes vs params ∧
      ∀ stack, Straight m locals stack (unpackParams params array) (vs.reverse ++ stack) := by
  have hall : ∀ k, ∃ vs, List.Forall₂ passes vs params ∧ ∀ stack, Straight m locals stack
      ((params.zipIdx k).flatMap fun p =>
        [.load .reference array, count p.2, .arrayLoad] ++ unboxValue p.1)
        (vs.reverse ++ stack) := by
    induction params with
    | nil => exact fun _ => ⟨[], .nil, fun stack => .nil _⟩
    | cons t params ih =>
      intro k
      obtain ⟨vs, hvs, hrest⟩ := ih (fun t' ht' => hparams t' (List.mem_cons_of_mem t ht')) (k + 1)
      obtain ⟨v, hv, hunbox⟩ := straight_unboxValue m locals
        (hparams t List.mem_cons_self) fits_object
      refine ⟨v :: vs, .cons hv hvs, fun stack => ?_⟩
      rw [List.zipIdx_cons, List.flatMap_cons, List.reverse_cons, List.append_assoc vs.reverse]
      refine Straight.append ?_ (hrest _)
      exact (Straight.load hlocal rfl).front <| (Straight.int _).front <|
        (Straight.arrayLoad fits_objectArray elementOf_objectArray).front (hunbox stack)
  exact hall 0

/-! ## Parameters in the locals -/

/-- The slots of parameters, as many as there are. -/
def slotsOf (params : List JvmType) : List SlotType :=
  params.flatMap TypeState.parameterSlots

theorem parameterSlots_eq (hv : SlotType.ofType t = some v) :
    TypeState.parameterSlots t = v.expand := by
  rw [TypeState.parameterSlots, hv]

theorem length_parameterSlots (t : JvmType) :
    (TypeState.parameterSlots t).length = t.slots.toNat := by
  cases t with
  | primitive p => cases p <;> rfl
  | void => rfl
  | object name => rfl
  | array element => rfl

theorem slotsOf_cons (t : JvmType) (params : List JvmType) :
    slotsOf (t :: params) = TypeState.parameterSlots t ++ slotsOf params := rfl

/-- **Where the parameters lie**: behind `front`, and within sixteen bits. -/
structure LieAt (locals : List SlotType) (first : UInt16) (params : List JvmType) : Prop where
  slots : ∃ front back, locals = front ++ (slotsOf params ++ back) ∧ front.length = first.toNat
  bound : first.toNat + (slotsOf params).length < 65536

/-- The first of several parameters, and the others behind it. -/
theorem LieAt.cons {first : UInt16} (h : LieAt locals first (t :: params))
    (hv : SlotType.ofType t = some v) :
    locals[first.toNat]? = some v ∧ LieAt locals (first + t.slots) params := by
  obtain ⟨⟨front, back, rfl, hfront⟩, hbound⟩ := h
  rw [slotsOf_cons, List.length_append, length_parameterSlots] at hbound
  have hnext : (first + t.slots).toNat = first.toNat + t.slots.toNat := by
    rw [UInt16.toNat_add]
    omega
  refine ⟨?_, ⟨front ++ TypeState.parameterSlots t, back, ?_, ?_⟩, by omega⟩
  · rw [List.getElem?_append_right (by omega), hfront, Nat.sub_self, slotsOf_cons,
      parameterSlots_eq hv, SlotType.expand]
    split <;> rfl
  · rw [slotsOf_cons]
    simp only [List.append_assoc]
  · rw [List.length_append, length_parameterSlots, hfront, hnext]

/-- **Parameters are pushed.** -/
theorem straight_pushParams (hparams : ∀ t ∈ params, t ≠ .void) {first : UInt16}
    (hlocals : LieAt locals first params) : ∃ vs, List.Forall₂ passes vs params ∧
      ∀ stack, Straight m locals stack (pushParams params first) (vs.reverse ++ stack) := by
  have hall : ∀ k, ∃ vs, List.Forall₂ passes vs params ∧ ∀ stack, Straight m locals stack
      ((placed first k params).flatMap fun p => loadParam p.1 p.2.2)
      (vs.reverse ++ stack) := by
    induction params generalizing first with
    | nil => exact fun _ => ⟨[], .nil, fun stack => .nil _⟩
    | cons t params ih =>
      intro k
      obtain ⟨v, kind, hv, hkind, hfits, -⟩ :=
        SlotType.exists_ofType (hparams t List.mem_cons_self)
      obtain ⟨hlocal, hbehind⟩ := hlocals.cons hv
      obtain ⟨vs, hvs, hrest⟩ :=
        ih (fun t' ht' => hparams t' (List.mem_cons_of_mem t ht')) hbehind (k + 1)
      refine ⟨v :: vs, .cons (SlotType.passes_ofType hv) hvs, fun stack => ?_⟩
      rw [placed, List.flatMap_cons, List.reverse_cons, List.append_assoc vs.reverse]
      refine Straight.append ?_ (hrest _)
      simp only [loadParam, hkind]
      exact .load hlocal hfits
  exact hall 0

/-- **Parameters are packed into an array of objects.** -/
theorem straight_packParams (hparams : ∀ t ∈ params, t ≠ .void) {first : UInt16}
    (hlocals : LieAt locals first params) :
    Straight m locals stack (packParams params first) (objectArray :: stack) := by
  have hall : ∀ k, Straight m locals (objectArray :: stack)
      ((placed first k params).flatMap fun p => packArg p.1 p.2.1 p.2.2)
      (objectArray :: stack) := by
    induction params generalizing first with
    | nil => exact fun _ => .nil _
    | cons t params ih =>
      intro k
      obtain ⟨v, kind, hv, hkind, hfits, -⟩ :=
        SlotType.exists_ofType (hparams t List.mem_cons_self)
      obtain ⟨hlocal, hbehind⟩ := hlocals.cons hv
      obtain ⟨r, hr, hbox⟩ := straight_boxValue m locals hv
      rw [placed, List.flatMap_cons]
      refine Straight.append ?_
        (ih (fun t' ht' => hparams t' (List.mem_cons_of_mem t ht')) hbehind (k + 1))
      simp only [packArg, hkind]
      refine Straight.append (Straight.append ?_ (hbox _))
        (.arrayStore fits_objectArray hr)
      exact (Straight.dup rfl).front <| (Straight.int _).front <| .load hlocal hfits
  have harray : Straight m locals (.int :: stack) [.newArray objectClass] _ := .newArray objectClass
  rw [arrayOf_objectClass] at harray
  exact (Straight.int _).front <| harray.front (hall 0)

end Boxing

end Proxy

end ProxyForge
