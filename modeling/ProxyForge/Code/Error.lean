import ProxyForge.JvmType.Descriptor
/-!
# Errors of emitting code

What is wrong with a symbolic method body, and which limit of the class file format a class
exceeds.
-/

namespace ProxyForge

/-- Why an instruction cannot run on a stack and locals of given types. -/
inductive StepFault
  | underflow
  | operandType
  | undefinedLocal
  | loadType
  | primitiveArray
  | noArray
  | popOfWide
  | dupOfWide
  | fieldDescriptor
  | methodDescriptor
  | voidParameter
  /-- A constructor call on a value that is already constructed. -/
  | initialized
  deriving DecidableEq, Repr

/-- The message of the fault. -/
def StepFault.message : StepFault → String
  | underflow => "operand stack underflow"
  | operandType => "operand type mismatch"
  | undefinedLocal => "load from undefined local"
  | loadType => "load type mismatch"
  | primitiveArray => "aaload on a primitive array"
  | noArray => "aaload on a non-array"
  | popOfWide => "pop of a two-slot value"
  | dupOfWide => "dup of a two-slot value"
  | fieldDescriptor => "bad field descriptor"
  | methodDescriptor => "bad method descriptor"
  | voidParameter => "void parameter"
  | initialized => "constructor call on an initialized value"

/-- What is wrong with a method body. -/
inductive CodeDefect
  /-- The instruction with this index jumps behind the last one. -/
  | jumpToEnd (index : Nat)
  | jumpUnbound (index : Nat)
  | handlerUnbound
  | handlerRange
  | descriptor (error : TypeError)
  | tooManyArguments
  | duplicateKey (offset : Nat)
  | stackHeight (offset : Nat)
  | stackValues (offset : Nat)
  | step (fault : StepFault) (offset : Nat)
  | emptyBody
  | fallsOff
  | unreachable (offset : Nat)
  deriving DecidableEq, Repr

/-- The message of the defect. -/
def CodeDefect.message : CodeDefect → String
  | jumpToEnd index => s!"jump at {index} targets the end of code"
  | jumpUnbound index => s!"jump at {index} targets an unbound label"
  | handlerUnbound => "exception handler uses an unbound label"
  | handlerRange => "empty or dangling exception handler range"
  | descriptor error => error.message
  | tooManyArguments => "too many interface call arguments"
  | duplicateKey offset => s!"duplicate switch key at offset {offset}"
  | stackHeight offset => s!"stack height mismatch at offset {offset}"
  | stackValues offset => s!"incompatible stack values at offset {offset}"
  | step fault offset =>
    let fault := fault.message
    s!"{fault} at offset {offset}"
  | emptyBody => "empty method body"
  | fallsOff => "control falls off the end of the code"
  | unreachable offset => s!"unreachable instruction at offset {offset}"

/-- What is counted in sixteen bits. -/
inductive Counted
  | declaredExceptions
  | exceptionHandlers
  | stackMapFrames
  | interfaces
  | fields
  | methods
  deriving DecidableEq, Repr

/-- The word for what is counted. -/
def Counted.word : Counted → String
  | declaredExceptions => "declared exceptions"
  | exceptionHandlers => "exception handlers"
  | stackMapFrames => "stack map frames"
  | interfaces => "interfaces"
  | fields => "fields"
  | methods => "methods"

/-- Why a class is not emitted. -/
inductive EmissionError
  | tooManyConstants (count : Nat)
  | tooMany (what : Counted) (count : Nat)
  | codeTooLarge (method : String) (size : Nat)
  | branchOutOfRange (method : String) (offset : Nat)
  | invalidCode (method : String) (defect : CodeDefect)
  deriving DecidableEq, Repr

/-- The message of the error. -/
def EmissionError.message : EmissionError → String
  | tooManyConstants count => s!"too many constant pool entries: {count} (max 65535)"
  | tooMany what count =>
    let what := what.word
    s!"too many {what}: {count} (max 65535)"
  | codeTooLarge method size => s!"code of {method} is {size} bytes (max 65535)"
  | branchOutOfRange method offset =>
    s!"branch in {method} at offset {offset} does not fit in 16 bits"
  | invalidCode method defect =>
    let defect := defect.message
    s!"invalid code in {method}: {defect}"

end ProxyForge
