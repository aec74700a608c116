import ProxyForge.Code.Op
import ProxyForge.Proofs.Arity
import ProxyForge.Proxy.Bindings
/-!
# The kinds of values that a descriptor names

Whatever the names of its classes are, a type is read from a descriptor as one of the same kind:
if a method descriptor is read with as many parameters as it was written for, those are of the
kinds of its parameters (`JvmType.kinds_of_methodDescriptor`), and its result is of the kind of its
result (`JvmType.kind_of_methodDescriptor`). The call descriptor of a runtime library has at least
three parameters, whatever its package is (`Bindings.arity_of_callDescriptor`).
-/

namespace ProxyForge

open Code (Kind)

namespace JvmType

variable {text front tail rest : List Char} {t u result : JvmType} {params ps acc : List JvmType}
  {whole : String}

/-- **A type is read as one of its kind.** -/
theorem Takes.kind (h : Takes (t.descriptorChars ++ tail) u rest) :
    Kind.ofType u = Kind.ofType t := by
  cases t with
  | primitive p => rw [(h.unique (.primitive p tail)).1]
  | void => rw [(h.unique (.void tail)).1]
  | object name =>
    obtain ⟨name', rfl⟩ := h.of_name
    rfl
  | array element =>
    obtain ⟨inner, -, rfl, -⟩ := h.of_bracket
    rfl

/-- A result is read as one of its kind. -/
theorem Takes.kind_result (h : Takes result.descriptorChars t []) :
    Kind.ofType t = Kind.ofType result := by
  rw [← List.append_nil result.descriptorChars] at h
  exact h.kind

/-- **More types than parameters are read** in front of them, unless the list ends early. -/
theorem TakesParams.lt {c : Char} (h : TakesParams
      (c :: front ++ (params.flatMap descriptorChars ++ ')' :: tail)) ps rest)
    (hparams : ∀ t ∈ params, t ≠ .void) (hf : Closed (c :: front)) :
    params.length < ps.length ∨ Unfinished tail rest := by
  cases h with
  | nil => exact .inr ⟨front, params, hf.of_cons, hparams, rfl⟩
  | cons hvoid h hs =>
    obtain ⟨front', hfront', rfl⟩ := h.of_closed hf (List.cons_ne_nil _ _)
    exact (hs.arity hparams hfront').imp_left fun ⟨_, hle⟩ => Nat.lt_succ_of_le hle

/-- **Parameters are read as parameters of their kinds**, if there are as many of them. -/
theorem TakesParams.kinds
    (h : TakesParams (params.flatMap descriptorChars ++ ')' :: tail) ps rest)
    (hparams : ∀ t ∈ params, t ≠ .void) (hresult : Takes rest result [])
    (hlength : ps.length = params.length) : ps.map Kind.ofType = params.map Kind.ofType := by
  induction params generalizing ps with
  | nil => rw [List.length_eq_zero_iff.1 hlength, List.map_nil]
  | cons t params ih =>
    have hmore := fun t' ht' => hparams t' (List.mem_cons_of_mem t ht')
    obtain ⟨c, cs, hcs, hne⟩ := exists_descriptorChars t
    rw [List.flatMap_cons, List.append_assoc, hcs, List.cons_append] at h
    obtain ⟨u, after, us, rfl, hone, hs⟩ := h.of_cons hne
    have hlength' : us.length = params.length := Nat.succ.inj hlength
    rw [← List.cons_append, ← hcs] at hone
    obtain ⟨-, front, hfront, rfl⟩ := hone.of_value (hparams t List.mem_cons_self)
    -- nothing is left of the parameter, or there would be more types than parameters
    cases front with
    | nil => rw [List.map_cons, List.map_cons, hone.kind, ih hs hmore hlength']
    | cons d front =>
      rcases hs.lt hmore hfront with hlt | hearly
      · omega
      · exact absurd hresult hearly.not_takes

/-- No parameter is read as `void`. -/
theorem TakesParams.ne_void (h : TakesParams text ps rest) : ∀ t ∈ ps, t ≠ .void := by
  induction h with
  | nil => exact List.forall_mem_nil _
  | cons hvoid _ _ ih => exact List.forall_mem_cons.2 ⟨hvoid, ih⟩

/-- No parameter of a method descriptor is read as `void`. -/
theorem ne_void_of_ofMethodDescriptor {text : String}
    (h : ofMethodDescriptor text = .ok (ps, t)) : ∀ p ∈ ps, p ≠ .void := by
  obtain ⟨tail, rest, -, htakes, -⟩ := ofMethodDescriptor_eq_ok.1 h
  exact htakes.ne_void

/-- **Parameters of a method descriptor** are read as parameters of their kinds, if there are as
many of them. -/
theorem kinds_of_methodDescriptor (hparams : ∀ t ∈ params, t ≠ .void)
    (h : ofMethodDescriptor (methodDescriptor params result) = .ok (ps, t))
    (hlength : ps.length = params.length) : ps.map Kind.ofType = params.map Kind.ofType := by
  obtain ⟨rest, htakes, hresult⟩ := ofMethodDescriptor_parts h
  exact htakes.kinds hparams hresult hlength

/-- **The result of a method descriptor** is read as one of its kind. -/
theorem kind_of_methodDescriptor (hparams : ∀ t ∈ params, t ≠ .void)
    (h : ofMethodDescriptor (methodDescriptor params result) = .ok (ps, t)) :
    Kind.ofType t = Kind.ofType result := by
  obtain ⟨rest, htakes, hresult⟩ := ofMethodDescriptor_parts h
  change TakesParams ([] ++ (params.flatMap descriptorChars ++ ')' :: _)) _ _ at htakes
  rcases htakes.arity hparams closed_nil with ⟨rfl, -⟩ | hearly
  · exact hresult.kind_result
  · exact absurd hresult hearly.not_takes

end JvmType

/-! ## The runtime library -/

namespace Proxy.Bindings

open JvmType

variable {b : Bindings} {ps : List JvmType} {t : JvmType}

/-- **The call descriptor** has three parameters at least, and its result is an object. -/
theorem arity_of_callDescriptor (h : ofMethodDescriptor b.callDescriptor = .ok (ps, t)) :
    3 ≤ ps.length ∧ Kind.ofType t = some .reference := by
  have hobject : anyObject.descriptorChars = "Ljava/lang/Object;".toList := by cbv
  have harray : (array anyObject).descriptorChars = "[Ljava/lang/Object;".toList := by cbv
  have htext : b.callDescriptor.toList = '(' :: (anyObject.descriptorChars ++
      ('L' :: (b.memberDescriptor.toList ++ [';']) ++
        ([array anyObject].flatMap descriptorChars ++ ')' :: anyObject.descriptorChars))) := by
    unfold Bindings.callDescriptor classDescriptor
    simp only [String.toList_append, List.flatMap_cons, List.flatMap_nil, hobject, harray]
    simp
  obtain ⟨tail, rest, htail, htakes, hresult⟩ := ofMethodDescriptor_eq_ok.1 h
  cases htext.symm.trans htail
  -- the first parameter is read as it was written
  obtain ⟨u, after, us, rfl, hfirst, hmore⟩ := TakesParams.of_cons (hobject ▸ htakes) (by decide)
  change Takes ("Ljava/lang/Object;".toList ++ _) _ _ at hfirst
  rw [← hobject] at hfirst
  obtain ⟨rfl, rfl⟩ := hfirst.unique (takes_descriptorChars (by cbv) _)
  -- the second one takes a type at least, and so does the third one
  obtain ⟨v, after, vs, rfl, hsecond, hlast⟩ := hmore.of_cons (by decide)
  have hclosed : Closed ('L' :: (b.memberDescriptor.toList ++ [';'])) :=
    .inr ⟨'L' :: b.memberDescriptor.toList, rfl⟩
  obtain ⟨front, hfront, rfl⟩ := Takes.of_closed hsecond hclosed (List.cons_ne_nil _ _)
  rcases hlast.arity (by decide) hfront with ⟨rfl, hle⟩ | hearly
  · exact ⟨by simpa using hle, hresult.kind_result⟩
  · exact absurd hresult hearly.not_takes

/-- **The factory's descriptor** has two parameters, and its result is an object. -/
theorem arity_of_factoryDescriptor (h : ofMethodDescriptor b.factoryDescriptor = .ok (ps, t)) :
    ps = [.object "java.lang.reflect.Method", .primitive .int] ∧
      Kind.ofType t = some .reference := by
  have hparams : [JvmType.object "java.lang.reflect.Method", .primitive .int].flatMap
      descriptorChars = "Ljava/lang/reflect/Method;I".toList := by cbv
  have htext : b.factoryDescriptor.toList =
      '(' :: ([JvmType.object "java.lang.reflect.Method", .primitive .int].flatMap
        descriptorChars ++ ')' :: 'L' :: (b.memberDescriptor.toList ++ [';'])) := by
    unfold Bindings.factoryDescriptor classDescriptor
    simp only [String.toList_append, hparams]
    simp
  obtain ⟨tail, rest, htail, htakes, hresult⟩ := ofMethodDescriptor_eq_ok.1 h
  cases htext.symm.trans htail
  obtain ⟨rfl, rfl⟩ := htakes.unique (takesParams_flatMap (by decide +kernel) _)
  obtain ⟨name, rfl⟩ := hresult.of_name
  exact ⟨rfl, rfl⟩

end Proxy.Bindings

end ProxyForge
