import ProxyForge.Proofs.Run.Symbolic
/-!
# Running code on terms

A machine that runs decoded instructions one behind the other and says what they compute, as terms
over the values that it starts from, and which methods they call (`Run.run`). It follows no jump: a
run ends with a return, with an exception, or at a switch, of which it says what it switches on.

`Run.Steps` says what symbolic instructions do, piece by piece, and `Run.run_ends` carries that
over to the instructions that are read back as them.
-/

namespace ProxyForge

namespace Run

open Code (Op CallKind MethodRef)

/-! ## The machine -/

/-- **A value**, as a term: how it came about. -/
inductive Value
  /-- What is there before the code runs, by number. -/
  | given (number : Nat)
  | null
  | int (value : Int32)
  | string (text : String)
  /-- The object that is made at an offset. -/
  | created (offset : Nat) (name : String)
  /-- An element of an array. -/
  | element (array index : Value)
  /-- An object that is checked to be of a class. -/
  | cast (name : String) (object : Value)
  /-- What a method returns. -/
  | result (kind : CallKind) (method : MethodRef) (operands : List Value)

/-- A call, with the receiver in front of the arguments. -/
structure Call where
  kind : CallKind
  method : MethodRef
  operands : List Value

/-- What the call returns. -/
def Call.result (c : Call) : Value :=
  .result c.kind c.method c.operands

/-- The stack, the top first, and the calls that were made, in their order. -/
structure State where
  stack : List Value
  calls : List Call

/-- **How a run ends.** -/
inductive Ending
  | returned (value : Value)
  | threw (exception : Value)
  | switched (on : Value) (fallback : Nat) (cases : List (Int32 × Nat))

namespace State

/-- The state before any instruction. -/
def start : State :=
  ⟨[], []⟩

/-- One more value on the stack. -/
def push (v : Value) (s : State) : State :=
  { s with stack := v :: s.stack }

/-- The number of operands of a call. -/
def operandCount (kind : CallKind) (params : List JvmType) : Nat :=
  params.length + if kind = .static then 0 else 1

/-- A method is called: its operands are taken from the stack, and its result is put there. -/
def call (kind : CallKind) (method : MethodRef) (s : State) : Option State :=
  match JvmType.ofMethodDescriptor method.descriptor with
  | .error _ => none
  | .ok (params, result) =>
    let count := operandCount kind params
    if s.stack.length < count then none
    else
      let c : Call := ⟨kind, method, (s.stack.take count).reverse⟩
      let rest := s.stack.drop count
      some ⟨if result = .void then rest else c.result :: rest, s.calls ++ [c]⟩

/-- An instruction at an offset that passes control on. -/
def advance (locals : List Value) (offset : Nat) (s : State) : Op Nat → Option State
  | .null => some (s.push .null)
  | .int value => some (s.push (.int value))
  | .string text => some (s.push (.string text))
  | .load .reference index => (locals[index.toNat]?).map s.push
  | .arrayLoad =>
    match s.stack with
    | index :: array :: rest => some { s with stack := .element array index :: rest }
    | _ => none
  | .dup =>
    match s.stack with
    | v :: rest => some { s with stack := v :: v :: rest }
    | [] => none
  | .new name => some (s.push (.created offset name))
  | .cast name =>
    match s.stack with
    | v :: rest => some { s with stack := .cast name v :: rest }
    | [] => none
  | .invoke .interface _ => none
  | .invoke kind method => s.call kind method
  | _ => none

/-- An instruction that ends the run. -/
def ending (s : State) : Op Nat → Option Ending
  | .ret (some _) => s.stack.head?.map .returned
  | .throw => s.stack.head?.map .threw
  | .lookupSwitch fallback cases => s.stack.head?.map fun v => .switched v fallback cases
  | _ => none

end State

/-- **Run instructions**, one behind the other: the calls that they make, and how that ends. There
is no result if an instruction cannot be read, or finds too little on the stack. -/
def run (pool : Pool) (locals : List Value) : List Instruction → State → Option (List Call × Ending)
  | [], _ => none
  | i :: rest, s => do
    let op ← i.symbolic pool
    match s.ending op with
    | some ending => some (s.calls, ending)
    | none => run pool locals rest (← s.advance locals i.offset op)

/-- Where a switch leads for a key. -/
def select (fallback : Nat) (cases : List (Int32 × Nat)) (key : Int32) : Nat :=
  (cases.lookup key).getD fallback

/-- Where a switch with ascending keys leads. -/
theorem select_of_mem {fallback : Nat} {cases : List (Int32 × Nat)}
    (hcases : cases.Pairwise fun a b => a.1 < b.1) {key : Int32} {target : Nat}
    (hmem : (key, target) ∈ cases) : select fallback cases key = target := by
  unfold select
  induction cases with
  | nil => cases hmem
  | cons head cases ih =>
    obtain ⟨hhead, hrest⟩ := List.pairwise_cons.1 hcases
    rcases List.mem_cons.1 hmem with rfl | hmem
    · rw [List.lookup_cons_self]
      rfl
    · have hne : (key == head.1) = false :=
        beq_false_of_ne fun heq => Int32.lt_irrefl (heq ▸ hhead _ hmem)
      rw [List.lookup_cons, hne]
      exact ih hrest hmem

/-- A key that a switch does not have leads to its fallback. -/
theorem select_of_not_mem {fallback : Nat} {cases : List (Int32 × Nat)} {key : Int32}
    (h : key ∉ cases.map Prod.fst) : select fallback cases key = fallback := by
  have hnone : cases.lookup key = none := List.lookup_eq_none_iff.2 fun entry hentry =>
    bne_iff_ne.2 fun heq => h (List.mem_map.2 ⟨entry, hentry, heq.symm⟩)
  rw [select, hnone]
  rfl

/-- The instructions from an offset on. -/
def codeFrom (offset : Nat) (is : List Instruction) : List Instruction :=
  is.dropWhile fun i => i.offset ≠ offset

/-! ## Pieces of code -/

variable {pool : Pool} {locals : List Value} {ops ops' : List (Op Nat)} {op : Op Nat}
  {s s' s'' : State} {kind : CallKind} {m : MethodRef} {v : Value} {vs stack : List Value}
  {calls : List Call} {params : List JvmType} {result : JvmType} {is rest : List Instruction}

theorem State.advance_invoke {offset : Nat} (h : kind ≠ .interface) :
    s.advance locals offset (.invoke kind m) = s.call kind m := by
  cases kind with
  | interface => exact absurd rfl h
  | _ => rfl

/-- **What instructions do**, wherever they stand. -/
inductive Steps (locals : List Value) : List (Op Nat) → State → State → Prop
  | nil (s : State) : Steps locals [] s s
  | cons {op : Op Nat} {ops : List (Op Nat)} {s s' s'' : State}
      (hstep : ∀ offset, s.advance locals offset op = some s') (hrest : Steps locals ops s' s'') :
      Steps locals (op :: ops) s s''

namespace Steps

/-- One piece behind the other. -/
theorem append (h : Steps locals ops s s') (h' : Steps locals ops' s' s'') :
    Steps locals (ops ++ ops') s s'' := by
  induction h with
  | nil => exact h'
  | cons hstep _ ih => exact .cons hstep (ih h')

theorem one (h : ∀ offset, s.advance locals offset op = some s') : Steps locals [op] s s' :=
  .cons h (.nil s')

/-- One instruction in front of a piece. -/
theorem front (h : Steps locals [op] s s') (h' : Steps locals ops s' s'') :
    Steps locals (op :: ops) s s'' :=
  h.append h'

theorem null : Steps locals [.null] s (s.push .null) :=
  one fun _ => rfl

theorem int (value : Int32) : Steps locals [.int value] s (s.push (.int value)) :=
  one fun _ => rfl

theorem string (text : String) : Steps locals [.string text] s (s.push (.string text)) :=
  one fun _ => rfl

theorem load {index : UInt16} (h : locals[index.toNat]? = some v) :
    Steps locals [.load .reference index] s (s.push v) :=
  one fun _ => congrArg (Option.map s.push) h

theorem arrayLoad {array index : Value} :
    Steps locals [.arrayLoad] ⟨index :: array :: stack, calls⟩
      ⟨.element array index :: stack, calls⟩ :=
  one fun _ => rfl

theorem cast (name : String) :
    Steps locals [.cast name] ⟨v :: stack, calls⟩ ⟨.cast name v :: stack, calls⟩ :=
  one fun _ => rfl

theorem dup : Steps locals [.dup] ⟨v :: stack, calls⟩ ⟨v :: v :: stack, calls⟩ :=
  one fun _ => rfl

/-- **A call takes its operands**, the last of which lies on top. -/
theorem invoke (hkind : kind ≠ .interface)
    (hparse : JvmType.ofMethodDescriptor m.descriptor = .ok (params, result))
    (hlength : vs.length = State.operandCount kind params) :
    Steps locals [.invoke kind m] ⟨vs.reverse ++ stack, calls⟩
      ⟨if result = .void then stack else (⟨kind, m, vs⟩ : Call).result :: stack,
        calls ++ [⟨kind, m, vs⟩]⟩ := by
  refine one fun _ => ?_
  have hcount : State.operandCount kind params = vs.reverse.length := by
    rw [List.length_reverse, hlength]
  rw [State.advance_invoke hkind, State.call, hparse]
  dsimp only
  rw [hcount, if_neg (by rw [List.length_append]; omega), List.take_left, List.drop_left,
    List.reverse_reverse]

end Steps

/-! ## Runs -/

/-- An instruction that passes control on does not end the run. -/
theorem State.ending_of_advance {offset : Nat} (h : s.advance locals offset op = some s') :
    s.ending op = none := by
  cases op with
  | ret kind | throw | lookupSwitch fallback cases => cases h
  | _ => rfl

/-- An instruction that passes control on can be read back. -/
theorem State.isLinear_of_advance {offset : Nat} (h : s.advance locals offset op = some s') :
    op.isLinear := by
  cases op with
  | load kind index => cases kind <;> first | rfl | cases h
  | invoke kind method => cases kind <;> first | rfl | cases h
  | ret kind | throw | lookupSwitch fallback cases => cases h
  | _ => first | rfl | cases h

theorem run_cons {i : Instruction} (hop : i.symbolic pool = some op)
    (h : s.advance locals i.offset op = some s') :
    run pool locals (i :: rest) s = run pool locals rest s' := by
  rw [run, hop, Option.bind_eq_bind, Option.bind_some, State.ending_of_advance h]
  dsimp only
  rw [h, Option.bind_eq_bind, Option.bind_some]

/-- **A run ends** at the instruction behind a piece of code. -/
theorem run_ends {place : Nat → Option Nat} {last : Instruction} {ending : Ending}
    (h : Steps locals ops s s')
    (hwritten : List.Forall₂ (fun op i => op.WrittenAs pool place i) ops is)
    (hlast : last.symbolic pool = some op) (hend : s'.ending op = some ending) :
    run pool locals (is ++ last :: rest) s = some (s'.calls, ending) := by
  induction h generalizing is with
  | nil s =>
    cases hwritten
    rw [List.nil_append, run, hlast, Option.bind_eq_bind, Option.bind_some, hend]
  | cons hstep _ ih =>
    cases hwritten with
    | cons hop hwritten =>
      have hread := Instruction.symbolic_eq (State.isLinear_of_advance (hstep 0)) hop
      rw [List.cons_append, run_cons hread (hstep _)]
      exact ih hwritten hend

/-- Code in front of an instruction, and the instruction. -/
theorem exists_last {α β : Type} {R : α → β → Prop} {xs : List α} {x : α} {ys : List β}
    (h : List.Forall₂ R (xs ++ [x]) ys) :
    ∃ front last, ys = front ++ [last] ∧ List.Forall₂ R xs front ∧ R x last := by
  obtain ⟨front, back, rfl, hfront, hback⟩ := Outcome.exists_append_of_forall₂ h
  cases hback with
  | cons hx hnil =>
    cases hnil
    exact ⟨front, _, rfl, hfront, hx⟩

end Run

end ProxyForge
