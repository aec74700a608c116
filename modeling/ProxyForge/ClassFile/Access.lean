/-!
# Access flags

Sixteen bits that say how a class, a field or a method may be used. The same bit can mean
different things for different owners.
-/

namespace ProxyForge

namespace Access

/-- Usable from everywhere. -/
def isPublic : UInt16 := 0x0001

/-- Usable in its class only. -/
def isPrivate : UInt16 := 0x0002

/-- Usable in its package and in subclasses. -/
def isProtected : UInt16 := 0x0004

/-- Without an instance. -/
def isStatic : UInt16 := 0x0008

/-- Not to be extended, assigned or overridden. -/
def isFinal : UInt16 := 0x0010

/-- Of classes: calls of superclass methods are resolved as they should be. -/
def isSuper : UInt16 := 0x0020

/-- Of methods: holds the monitor. -/
def isSynchronized : UInt16 := 0x0020

/-- Of fields: read and written in order by all threads. -/
def isVolatile : UInt16 := 0x0040

/-- Of fields: not part of the stored state. -/
def isTransient : UInt16 := 0x0080

/-- Of methods: without bytecode. -/
def isNative : UInt16 := 0x0100

/-- Of classes: an interface. -/
def isInterface : UInt16 := 0x0200

/-- Without an implementation. -/
def isAbstract : UInt16 := 0x0400

/-- Not in the source. -/
def isSynthetic : UInt16 := 0x1000

/-- Are all bits of `flag` set? -/
def has (flags flag : UInt16) : Bool :=
  flags &&& flag ≠ 0

/-- What carries the flags. -/
inductive Owner
  | type
  | field
  | method
  deriving DecidableEq, Repr

/-- The flags with a keyword, in the order in which the keywords are written. -/
def table (owner : Owner) : List (UInt16 × String) :=
  [(isPublic, "public"), (isPrivate, "private"), (isProtected, "protected"),
    (isStatic, "static"), (isFinal, "final")] ++
  match owner with
  | .type => [(isAbstract, "abstract"), (isInterface, "interface")]
  | .field => [(isVolatile, "volatile"), (isTransient, "transient")]
  | .method =>
    [(isSynchronized, "synchronized"), (isNative, "native"), (isAbstract, "abstract")]

/-- The keywords of the flags. -/
def keywords (flags : UInt16) (owner : Owner) : List String :=
  ((table owner).filter fun entry => has flags entry.1).map (·.2)

end Access

end ProxyForge
