import ProxyForge.Text.Hex
/-!
# Errors of the class file format

Why bytes are no class file, or an index in one is of no use.
-/

namespace ProxyForge

/-- What is wrong in a class file. -/
inductive FormatError
  | wrongMagic (found : UInt32)
  /-- The bytes end at `offset` plus what is left there; `needed` more were asked for. -/
  | truncated (offset needed : Nat)
  | trailing (count : Nat)
  | unknownTag (tag : UInt8) (index : UInt16)
  | noConstant (index : UInt16)
  | wrongKind (index : UInt16) (expected : String)
  | malformedText
  | unknownVerificationType (tag : UInt8)
  | reservedFrame (tag : UInt8)
  | unknownOpcode (opcode : UInt8) (offset : Nat)
  | malformedAttribute (name : String)
  deriving DecidableEq, Repr, Inhabited

namespace FormatError

/-- The message of the error. -/
def message : FormatError → String
  | wrongMagic found =>
    let found := Text.hex 8 true found.toNat
    s!"invalid magic: expected 0xCAFEBABE, found {found}"
  | truncated offset needed =>
    s!"unexpected end of input at offset {offset} (needed {needed} more bytes)"
  | trailing count => s!"{count} trailing bytes after class file"
  | unknownTag tag index => s!"unknown constant pool tag {tag} at index {index}"
  | noConstant index => s!"invalid constant pool index {index}"
  | wrongKind index expected => s!"constant pool index {index} is not a {expected}"
  | malformedText => "malformed modified UTF-8 string"
  | unknownVerificationType tag => s!"unknown verification type tag {tag}"
  | reservedFrame tag => s!"reserved stack map frame type {tag}"
  | unknownOpcode opcode offset =>
    let opcode := Text.hex 2 false opcode.toNat
    s!"unknown opcode {opcode} at offset {offset}"
  | malformedAttribute name => s!"malformed {name} attribute"

end FormatError

end ProxyForge
