import ProxyForge.Proofs.Exec.Pieces
import ProxyForge.Proofs.Proxy.Boxing
import ProxyForge.Proxy.Initializer
/-!
# Values in transit

The pieces of code that carry values between the locals of a method, its stack and arrays of
objects, run on the machine. Arguments that lie in the locals are packed into an array
(`Boxing.exists_packParams`) and pushed (`Boxing.runs_pushParams`); what was packed is unpacked
again, if the accessors of wrappers invert `valueOf` (`Boxing.exists_unpackParams`).
-/

namespace ProxyForge

namespace Proxy

namespace Boxing

open Code (Kind MethodRef Op)
open Exec (Event Gathers Pushes State Thing Value World runOps runOps_of_append runOps_of_cons)

variable {w : World} {locals : Nat → Option Value} {stack args items monitors : List Value}
  {things : List Thing} {events done : List Event} {t : JvmType} {params : List JvmType}
  {v item : Value} {first : UInt16}

/-! ## Wrappers -/

/-- **A value becomes an object**: a primitive is wrapped. -/
inductive Wraps : JvmType → Value → Value → List Event → Prop
  | primitive {p : Primitive} {v item : Value} {things : List Thing} :
    Wraps (.primitive p) v item [.called ⟨.static, wrapping p, [v], things⟩ (some item)]
  | reference {t : JvmType} {v : Value} (ht : t.isReference) : Wraps t v v []

/-- **An object becomes a value of a type**: a primitive is taken out of its wrapper, and a
reference is cast, unless any object will do. -/
inductive Unwraps : JvmType → Value → Value → List Event → Prop
  | primitive {p : Primitive} {item v : Value} {things : List Thing} :
    Unwraps (.primitive p) item v
      [.cast (wrapperClass p) item, .called ⟨.virtual, unwrapping p, [item], things⟩ (some v)]
  | cast {t : JvmType} {item : Value} {name : String} (hname : constantName t = some name)
    (hne : name ≠ "java/lang/Object") : Unwraps t item item [.cast name item]
  | any {t : JvmType} {item : Value} (hname : constantName t = some "java/lang/Object") :
    Unwraps t item item []

/-- A result as an object: `null` stands for none. -/
inductive WrapsResult : JvmType → Option Value → Value → List Event → Prop
  | void : WrapsResult .void none .null []
  | value {t : JvmType} {v item : Value} {done : List Event} (h : Wraps t v item done) :
    WrapsResult t (some v) item done

/-- **Arguments become objects**, one after the other. -/
def Packs (params : List JvmType) (args items : List Value) (done : List Event) : Prop :=
  Gathers (fun x : JvmType × Value => Wraps x.1 x.2) (params.zip args) items done

/-- **Objects become arguments**, one after the other. -/
def Unpacks (params : List JvmType) (items args : List Value) (done : List Event) : Prop :=
  Gathers (fun x : JvmType × Value => Unwraps x.1 x.2) (params.zip items) args done

/-- **Accessors invert `valueOf`** on what was wrapped. -/
def Inverts (w : World) (done : List Event) : Prop :=
  ∀ (p : Primitive) (v item : Value) (things : List Thing),
    Event.called ⟨.static, wrapping p, [v], things⟩ (some item) ∈ done →
      ∀ events things', w.returns events ⟨.virtual, unwrapping p, [item], things'⟩ = v

/-! ## One value -/

/-- **A value is boxed.** -/
theorem pushes_boxed (hkind : Kind.ofType t = some v.kind) (ops : List (Op Nat))
    (hops : ∀ stack things events, runOps w ops ⟨locals, stack, things, monitors, events⟩ =
      some ⟨locals, v :: stack, things, monitors, events⟩) :
    Pushes w locals monitors (ops ++ boxValue t) (Wraps t v) := by
  intro stack things events
  cases t with
  | void => cases hkind
  | primitive p =>
    rw [boxValue_primitive]
    exact ⟨_, _, .primitive, runOps_of_append (hops _ _ _) (runOps_of_cons
      (Exec.advance_invoke [v] (parse_wrapping p) nofun rfl) rfl)⟩
  | object name | array element =>
    refine ⟨v, [], .reference rfl, ?_⟩
    rw [List.append_nil]
    exact runOps_of_append (hops _ _ _) rfl

/-- An object that wraps a value is a reference. -/
theorem kind_boxed {events : List Event} {things : List Thing} (p : Primitive) (v : Value) :
    (w.returns events ⟨.static, wrapping p, [v], things⟩).kind = .reference :=
  Exec.kind_returns (parse_wrapping p) rfl

/-- **A result is boxed**; there is none on the stack if it is `void`. -/
theorem exists_boxResult (result : Option Value) (stack : List Value) (things : List Thing)
    (monitors : List Value) (events : List Event)
    (hkind : Kind.ofType t = result.map Value.kind) :
    ∃ item done, WrapsResult t result item done ∧ item.kind = .reference ∧
      runOps w (boxResult t) ⟨locals, result.toList ++ stack, things, monitors, events⟩ =
        some ⟨locals, item :: stack, things, monitors, events ++ done⟩ := by
  cases t with
  | void =>
    cases result with
    | some v => cases hkind
    | none =>
      refine ⟨.null, [], .void, rfl, ?_⟩
      rw [List.append_nil]
      rfl
  | primitive p =>
    cases result with
    | none => cases p <;> cases hkind
    | some v =>
      rw [boxResult_primitive]
      exact ⟨_, _, .value .primitive, kind_boxed p v, runOps_of_cons
        (Exec.advance_invoke [v] (parse_wrapping p) nofun rfl) rfl⟩
  | object name | array element =>
    cases result with
    | none => cases hkind
    | some v =>
      refine ⟨v, [], .value (.reference rfl), (Option.some.inj hkind).symm, ?_⟩
      rw [List.append_nil]
      rfl

/-- What an object is as a value of a type: a primitive is what its accessor gives. -/
def unwrapped (w : World) (t : JvmType) (item : Value) (things : List Thing) (events : List Event) :
    Value :=
  match t with
  | .primitive p => w.returns (events ++ [.cast (wrapperClass p) item])
      ⟨.virtual, unwrapping p, [item], things⟩
  | _ => item

/-- **An object is unboxed.** -/
theorem exists_unboxValue (w : World) (locals : Nat → Option Value) (item : Value)
    (stack : List Value) (things : List Thing) (monitors : List Value) (events : List Event)
    (ht : t ≠ .void) : ∃ done, Unwraps t item (unwrapped w t item things events) done ∧
    runOps w (unboxValue t) ⟨locals, item :: stack, things, monitors, events⟩ =
      some ⟨locals, unwrapped w t item things events :: stack, things, monitors,
        events ++ done⟩ := by
  have hreference : ∀ name, constantName t = some name → t.isReference →
      unwrapped w t item things events = item → ∃ done,
        Unwraps t item (unwrapped w t item things events) done ∧
          runOps w (unboxValue t) ⟨locals, item :: stack, things, monitors, events⟩ =
            some ⟨locals, unwrapped w t item things events :: stack, things, monitors,
              events ++ done⟩ := by
    intro name hname href hitem
    rw [hitem, unboxValue_reference href hname]
    by_cases hobject : name = "java/lang/Object"
    · subst hobject
      refine ⟨[], .any hname, ?_⟩
      rw [if_pos rfl, List.append_nil]
      rfl
    · rw [if_neg hobject]
      exact ⟨_, .cast hname hobject, rfl⟩
  cases t with
  | void => exact absurd rfl ht
  | primitive p =>
    have hcast : (⟨locals, item :: stack, things, monitors, events⟩ : State).advance w
        (.cast (wrapperClass p)) = some ⟨locals, item :: stack, things, monitors,
          events ++ [.cast (wrapperClass p) item]⟩ := rfl
    have hcall : (⟨locals, [item].reverse ++ stack, things, monitors,
        events ++ [.cast (wrapperClass p) item]⟩ : State).advance w
        (.invoke .virtual (unwrapping p)) = _ :=
      Exec.advance_invoke [item] (parse_unwrapping p) nofun rfl
    have hunwraps : Unwraps (.primitive p) item (unwrapped w (.primitive p) item things events)
        [.cast (wrapperClass p) item, .called ⟨.virtual, unwrapping p, [item], things⟩
          (some (unwrapped w (.primitive p) item things events))] := .primitive
    rw [unboxValue_primitive]
    refine ⟨_, hunwraps, (runOps_of_cons hcast (runOps_of_cons hcall rfl)).trans ?_⟩
    rw [List.append_assoc]
    rfl
  | object name => exact hreference _ rfl rfl rfl
  | array element => exact hreference _ rfl rfl rfl

/-- An object that is unboxed is of the kind of the type. -/
theorem kind_unwrapped (w : World) (things : List Thing) (events : List Event) (ht : t ≠ .void)
    (hitem : item.kind = .reference) :
    Kind.ofType t = some (unwrapped w t item things events).kind := by
  cases t with
  | void => exact absurd rfl ht
  | primitive p =>
    have hkind : ∃ kind, Kind.ofType (.primitive p) = some kind := by cases p <;> exact ⟨_, rfl⟩
    obtain ⟨kind, hkind⟩ := hkind
    rw [hkind]
    exact congrArg some (Exec.kind_returns (parse_unwrapping p) hkind).symm
  | object name | array element => exact congrArg some hitem.symm

/-! ## Parameters in the locals -/

/-- Each parameter with its first slot, from a slot on. -/
def located (first : UInt16) : List JvmType → List (JvmType × UInt16)
  | [] => []
  | t :: rest => (t, first) :: located (first + t.slots) rest

/-- **Arguments lie in the locals** from a slot on, as values of their parameters' types. -/
def Lies (locals : Nat → Option Value) (first : UInt16) (params : List JvmType)
    (args : List Value) : Prop :=
  List.Forall₂ (fun x v => locals x.2.toNat = some v ∧ Kind.ofType x.1 = some v.kind)
    (located first params) args

theorem map_fst_located (first : UInt16) (params : List JvmType) :
    (located first params).map Prod.fst = params := by
  induction params generalizing first with
  | nil => rfl
  | cons t params ih => rw [located, List.map_cons, ih]

/-- Places are counted along with slots. -/
theorem flatMap_placed {β : Type} (f : JvmType → Nat → UInt16 → List β) (first : UInt16) (k : Nat)
    (params : List JvmType) : ((placed first k params).flatMap fun (t, i, slot) => f t i slot) =
      ((located first params).zipIdx k).flatMap fun (x, i) => f x.1 i x.2 := by
  induction params generalizing first k with
  | nil => rfl
  | cons t params ih =>
    rw [placed, located, List.zipIdx_cons, List.flatMap_cons, List.flatMap_cons, ih]

/-- What lies in slots is pushed, wherever the counting starts. -/
theorem runs_pushFrom {xs : List (JvmType × UInt16)} {vs : List Value}
    (h : List.Forall₂ (fun x v => locals x.2.toNat = some v ∧ Kind.ofType x.1 = some v.kind) xs vs)
    (k : Nat) (stack : List Value) :
    runOps w ((xs.zipIdx k).flatMap fun (x, _) => loadParam x.1 x.2)
        ⟨locals, stack, things, monitors, events⟩ =
      some ⟨locals, vs.reverse ++ stack, things, monitors, events⟩ := by
  induction h generalizing k stack with
  | nil => rfl
  | @cons x v xs vs hx _ ih =>
    rw [List.zipIdx_cons, List.flatMap_cons, List.reverse_cons, List.append_assoc]
    refine runOps_of_append ?_ (ih (k + 1) (v :: stack))
    simp only [loadParam, hx.2]
    exact runOps_of_cons (Exec.advance_load hx.1 rfl) rfl

/-- **Parameters are pushed.** -/
theorem runs_pushParams (h : Lies locals first params args) :
    runOps w (pushParams params first) ⟨locals, stack, things, monitors, events⟩ =
      some ⟨locals, args.reverse ++ stack, things, monitors, events⟩ := by
  have hplaced := flatMap_placed (fun t _ slot => loadParam (L := Nat) t slot) first 0 params
  unfold pushParams
  exact (congrArg (runOps w · _) hplaced).trans (runs_pushFrom h 0 stack)

/-- A parameter is loaded, boxed and put into the array. -/
theorem packArg_eq {kind : Kind} (hkind : Kind.ofType t = some kind) (i : Nat) (slot : UInt16) :
    packArg (L := Nat) t i slot =
      [.dup, count i] ++ (loadParam t slot ++ boxValue t) ++ [.arrayStore] := by
  simp [packArg, loadParam, hkind]

/-- Each parameter lies in its slot, as a value of its kind. -/
theorem Lies.of_mem_zip (h : Lies locals first params args) :
    ∀ x ∈ (located first params).zip args,
      locals x.1.2.toNat = some x.2 ∧ Kind.ofType x.1.1 = some x.2.kind :=
  fun _ hx => (List.forall₂_iff_zip.1 h).2 hx

/-- **What packs the parameters** fills an array with a piece for each of them. -/
theorem packParams_eq (h : Lies locals first params args) : packParams (L := Nat) params first =
    count ((located first params).zip args).length :: .newArray objectClass ::
      ((located first params).zip args).zipIdx.flatMap fun (x, i) =>
        [.dup, count i] ++ (loadParam x.1.1 x.1.2 ++ boxValue x.1.1) ++ [.arrayStore] := by
  have hfst : ((located first params).zip args).map Prod.fst = located first params :=
    List.map_fst_zip (Nat.le_of_eq h.length_eq)
  have hcount : ((located first params).zip args).length = params.length := by
    rw [← List.length_map Prod.fst, hfst, ← List.length_map Prod.fst, map_fst_located]
  rw [hcount, packParams]
  refine congrArg (count params.length :: .newArray objectClass :: ·) ?_
  refine (flatMap_placed (fun t i slot => packArg (L := Nat) t i slot) first 0 params).trans ?_
  conv => lhs; rw [← hfst]
  rw [List.zipIdx_map, List.flatMap_map]
  refine List.flatMap_congr fun x hx => ?_
  exact packArg_eq (h.of_mem_zip _ (List.fst_mem_of_mem_zipIdx hx)).2 _ _

/-- **Arguments in the locals are packed** into an array of their own. -/
theorem exists_packParams (stack : List Value) (things : List Thing) (monitors : List Value)
    (events : List Event) (hsmall : params.length < 2 ^ 31) (h : Lies locals first params args) :
    ∃ items done, Packs params args items done ∧
      runOps w (packParams params first) ⟨locals, stack, things, monitors, events⟩ =
        some ⟨locals, .made things.length :: stack, things ++ [.array objectClass items], monitors,
          events ++ done⟩ := by
  have hlength : (located first params).length = params.length := by
    rw [← List.length_map Prod.fst, map_fst_located]
  -- the pieces of the array, each with the argument that it packs
  have hpieces : ∀ x ∈ (located first params).zip args, Pushes w locals monitors
      (loadParam x.1.1 x.1.2 ++ boxValue x.1.1) (Wraps x.1.1 x.2) := by
    intro x hx
    obtain ⟨hlocal, hkind⟩ := h.of_mem_zip x hx
    refine pushes_boxed hkind _ fun stack things events => ?_
    simp only [loadParam, hkind]
    exact runOps_of_cons (Exec.advance_load hlocal rfl) rfl
  have hcount : ((located first params).zip args).length ≤ params.length := by
    rw [List.length_zip]
    omega
  obtain ⟨items, done, hitems, hrun⟩ := Exec.exists_fill hpieces
    (by omega) objectClass stack things events
  have hparams : ((located first params).zip args).map (fun x => (x.1.1, x.2)) =
      params.zip args := by
    conv => rhs; rw [← map_fst_located first params]
    rw [List.zip_map_left]
    rfl
  refine ⟨items, done, ?_, packParams_eq h ▸ hrun⟩
  rw [Packs, ← hparams]
  exact hitems.map

/-! ## Arguments in an array -/

/-- What was wrapped is unwrapped again. -/
theorem unwrapped_of_wraps (h : Wraps t v item done) (hinverts : Inverts w done) :
    unwrapped w t item things events = v := by
  cases h with
  | primitive => exact hinverts _ _ _ _ List.mem_cons_self _ _
  | reference ht =>
    cases t with
    | primitive p => cases ht
    | void | object _ | array _ => rfl

/-- Parameters from a place on are unpacked, if their items lie there. -/
theorem exists_unpackFrom {k a : Nat} {element : String} {rest : List Value} {array : UInt16}
    (hlocal : locals array.toNat = some (.made a))
    (hthing : things[a]? = some (.array element items)) (stack monitors : List Value)
    (events : List Event) (hparams : ∀ t ∈ params, t ≠ .void)
    (hlength : args.length = params.length) (hpacks : Packs params args rest done)
    (hinverts : Inverts w done)
    (hitems : ∀ (j : Nat) (u : Value), rest[j]? = some u → items[k + j]? = some u)
    (hsmall : k + params.length < 2 ^ 31) : ∃ more, Unpacks params rest args more ∧
      runOps w ((params.zipIdx k).flatMap fun (t, i) =>
          [.load .reference array, count i, .arrayLoad] ++ unboxValue t)
          ⟨locals, stack, things, monitors, events⟩ =
        some ⟨locals, args.reverse ++ stack, things, monitors, events ++ more⟩ := by
  induction params generalizing k args rest done stack events with
  | nil =>
    obtain rfl := List.length_eq_zero_iff.1 hlength
    cases hpacks
    refine ⟨[], .nil, ?_⟩
    rw [List.append_nil]
    rfl
  | cons t params ih =>
    obtain ⟨v, args, rfl⟩ := List.exists_cons_of_length_eq_add_one hlength
    rw [List.length_cons] at hsmall
    cases hpacks with
    | @cons _ item _ rest d d' hwraps hpacks =>
      have hd : Inverts w d := fun p v item things hmem =>
        hinverts p v item things (List.mem_append_left _ hmem)
      have hd' : Inverts w d' := fun p v item things hmem =>
        hinverts p v item things (List.mem_append_right _ hmem)
      obtain ⟨one, hone, hunbox⟩ := exists_unboxValue w locals item stack things monitors events
        (hparams t List.mem_cons_self)
      rw [unwrapped_of_wraps hwraps hd] at hone hunbox
      obtain ⟨more, hmore, hrest⟩ := ih (k := k + 1) (v :: stack) (events ++ one)
        (fun t' ht' => hparams t' (List.mem_cons_of_mem t ht')) (Nat.succ.inj hlength) hpacks hd'
        (fun j u hj => by
          rw [show k + 1 + j = k + (j + 1) by omega]
          exact hitems (j + 1) u hj) (by omega)
      refine ⟨one ++ more, .cons hone hmore, ?_⟩
      have hload : (⟨locals, .int (Int32.ofNat k) :: .made a :: stack, things, monitors, events⟩ :
          State).advance w .arrayLoad = some ⟨locals, item :: stack, things, monitors, events⟩ :=
        Exec.advance_arrayLoad (by omega) hthing (hitems 0 item rfl)
      rw [List.zipIdx_cons, List.flatMap_cons, List.reverse_cons, List.append_assoc args.reverse,
        ← List.append_assoc events]
      exact runOps_of_append (runOps_of_cons (Exec.advance_load hlocal rfl) <|
        runOps_of_cons rfl <| runOps_of_cons hload hunbox) hrest

/-- **What was packed is unpacked again**: the arguments are pushed in their order. -/
theorem exists_unpackParams (stack monitors : List Value) (events : List Event)
    (hparams : ∀ t ∈ params, t ≠ .void)
    (hlength : args.length = params.length) (hpacks : Packs params args items done)
    (hinverts : Inverts w done) {a : Nat} {element : String} (array : UInt16)
    (hlocal : locals array.toNat = some (.made a))
    (hthing : things[a]? = some (.array element items)) (hsmall : params.length < 2 ^ 31) :
    ∃ more, Unpacks params items args more ∧
      runOps w (unpackParams params array) ⟨locals, stack, things, monitors, events⟩ =
        some ⟨locals, args.reverse ++ stack, things, monitors, events ++ more⟩ :=
  exists_unpackFrom hlocal hthing stack monitors events hparams hlength hpacks hinverts
    (fun j u hj => by rwa [Nat.zero_add]) (by omega)

/-! ## Classes -/

/-- **A value stands for the class of a type**: a constant for a reference, and what the wrapper
holds for any other. -/
inductive Denotes : JvmType → Value → List Event → Prop
  | reference {t : JvmType} {name : String} (hname : constantName t = some name) :
    Denotes t (.classOf name) []
  | primitive {p : Primitive} {v : Value} :
    Denotes (.primitive p) v [.readStatic (primitiveClass p) v]
  | void {v : Value} :
    Denotes .void v [.readStatic ⟨"java/lang/Void", "TYPE", "Ljava/lang/Class;"⟩ v]

theorem pushes_pushClass (t : JvmType) : Pushes w locals monitors [pushClass t] (Denotes t) := by
  intro stack things events
  cases t with
  | void => exact ⟨_, _, .void, rfl⟩
  | primitive p =>
    rw [pushClass_primitive]
    exact ⟨_, _, .primitive, rfl⟩
  | object name | array element =>
    refine ⟨_, [], .reference rfl, ?_⟩
    rw [List.append_nil]
    rfl

/-- **An array with the classes of types is pushed.** -/
theorem exists_pushClasses (locals : Nat → Option Value) (stack : List Value)
    (things : List Thing) (monitors : List Value) (events : List Event)
    (hsmall : params.length < 2 ^ 31) :
    ∃ classes done, Gathers Denotes params classes done ∧
      runOps w (pushClasses params) ⟨locals, stack, things, monitors, events⟩ =
        some ⟨locals, .made things.length :: stack, things ++ [.array classClass classes], monitors,
          events ++ done⟩ :=
  Exec.exists_fill (fun t _ => pushes_pushClass t) hsmall classClass stack things events

/-- There is an instruction for each type. -/
theorem length_le_pushClasses (params : List JvmType) :
    params.length ≤ (pushClasses (L := Code.Label) params).length := by
  rw [pushClasses, List.length_cons, List.length_cons, List.length_flatMap]
  simp only [List.length_cons, List.length_nil, List.map_const', List.sum_replicate_nat,
    List.length_zipIdx]
  omega

end Boxing

namespace Initializer

open Code (MethodRef)
open Exec (Event State Thing Value World runOps runOps_of_cons)

/-- What loads a class. -/
def loading : MethodRef :=
  ⟨"java/lang/Class", "forName", "(Ljava/lang/String;)Ljava/lang/Class;", false⟩

theorem parse_loading : JvmType.ofMethodDescriptor loading.descriptor =
    .ok ([.object "java.lang.String"], .object "java.lang.Class") :=
  JvmType.ofMethodDescriptor_of_eq (by decide +kernel) (by decide +kernel) (by decide +kernel)

/-- **A class is loaded** by its name. -/
theorem exists_pushLoadedClass {w : World} (name : String) (locals : Nat → Option Value)
    (stack : List Value) (things : List Thing) (monitors : List Value) (events : List Event) :
    ∃ loaded, loaded.kind = .reference ∧
      runOps w (pushLoadedClass name) ⟨locals, stack, things, monitors, events⟩ =
        some ⟨locals, loaded :: stack, things, monitors,
          events ++ [.called ⟨.static, loading, [.string name], things⟩ (some loaded)]⟩ := by
  obtain ⟨loaded, hkind, hload⟩ := Exec.exists_result (w := w) .static loading locals
    [.string name] stack things monitors events parse_loading rfl rfl
  exact ⟨loaded, hkind, runOps_of_cons rfl (runOps_of_cons hload rfl)⟩

end Initializer

end Proxy

end ProxyForge
