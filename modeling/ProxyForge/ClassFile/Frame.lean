import ProxyForge.Bytes.Decoder
/-!
# Stack map frames

What the verifier expects at a place of the code: the types of the local variables and of the
operand stack. A frame is stored as the difference to the one before it. The first frame's delta
is its offset; a later one stands one behind the frame before it plus its delta.
-/

namespace ProxyForge

/-- The type of a local variable or of a stack entry. A long or a double stands for both of its
slots. -/
inductive VerificationType
  | top
  | integer
  | float
  | double
  | long
  | null
  | uninitializedThis
  /-- An object, by the index of its class constant. -/
  | object (constant : UInt16)
  /-- A fresh object, by the offset of the instruction that made it. -/
  | uninitialized (offset : UInt16)
  deriving DecidableEq, Repr, Inhabited

namespace VerificationType

/-- Two slots? -/
def isWide : VerificationType → Bool
  | long => true
  | double => true
  | _ => false

/-- A reference? -/
def isReference : VerificationType → Bool
  | null => true
  | object _ => true
  | uninitializedThis => true
  | uninitialized _ => true
  | _ => false

/-- The bytes of the type. -/
def encode : VerificationType → Bytes
  | top => [0]
  | integer => [1]
  | float => [2]
  | double => [3]
  | long => [4]
  | null => [5]
  | uninitializedThis => [6]
  | object constant => 7 :: Bytes.be16 constant
  | uninitialized offset => 8 :: Bytes.be16 offset

/-- A type. -/
def decode : Decoder VerificationType := do
  let tag ← Decoder.u8
  match tag with
  | 0 => return top
  | 1 => return integer
  | 2 => return float
  | 3 => return double
  | 4 => return long
  | 5 => return null
  | 6 => return uninitializedThis
  | 7 => return object (← Decoder.u16)
  | 8 => return uninitialized (← Decoder.u16)
  | _ => Decoder.fail (.unknownVerificationType tag)

/-- One entry for each value: what lies in the second slot of a wide one is passed over. -/
def entries : List VerificationType → List VerificationType
  | [] => []
  | t :: rest =>
    if t.isWide then
      match rest with
      | [] => [t]
      | _ :: rest => t :: entries rest
    else t :: entries rest

/-- A list without the `top`s at its end. -/
def dropTops (types : List VerificationType) : List VerificationType :=
  (types.reverse.dropWhile (· = top)).reverse

/-- Local variables, one entry a slot, in the form they have in a frame. -/
def compactLocals (slots : List VerificationType) : List VerificationType :=
  dropTops (entries slots)

end VerificationType

/-- A stack map frame. -/
inductive Frame
  /-- The locals of the frame before it, and an empty stack. -/
  | same (delta : UInt16)
  /-- The locals of the frame before it, and one stack entry. -/
  | sameWithItem (delta : UInt16) (item : VerificationType)
  /-- The last one, two or three locals are gone. -/
  | chop (delta : UInt16) (count : UInt8)
  /-- One, two or three more locals. -/
  | append (delta : UInt16) (locals : List VerificationType)
  | full (delta : UInt16) (locals stack : List VerificationType)
  deriving DecidableEq, Repr, Inhabited

namespace Frame

/-- The distance to the frame before it. -/
def delta : Frame → UInt16
  | same delta => delta
  | sameWithItem delta _ => delta
  | chop delta _ => delta
  | append delta _ => delta
  | full delta _ _ => delta

/-- The frame with these locals and this stack, behind a frame with the locals `before`, in as few
bytes as may be. -/
def compress (before locals stack : List VerificationType) (delta : UInt16) : Frame :=
  match decide (locals = before), stack with
  | true, [] => same delta
  | true, [item] => sameWithItem delta item
  | _, _ =>
    if stack.isEmpty && locals.length < before.length && before.length - locals.length ≤ 3
        && locals.isPrefixOf before then
      chop delta (UInt8.ofNat (before.length - locals.length))
    else if stack.isEmpty && before.length < locals.length && locals.length - before.length ≤ 3
        && before.isPrefixOf locals then
      append delta (locals.drop before.length)
    else full delta locals stack

/-! ## Bytes -/

/-- The bytes of several types. -/
def encodeTypes (types : List VerificationType) : Bytes :=
  types.flatMap VerificationType.encode

/-- The bytes of the frame. -/
def encode : Frame → Bytes
  | same delta =>
    if delta ≤ 63 then [delta.toUInt8] else 251 :: Bytes.be16 delta
  | sameWithItem delta item =>
    (if delta ≤ 63 then [64 + delta.toUInt8] else 247 :: Bytes.be16 delta) ++ item.encode
  | chop delta count => (251 - count) :: Bytes.be16 delta
  | append delta locals =>
    (251 + UInt8.ofNat locals.length) :: Bytes.be16 delta ++ encodeTypes locals
  | full delta locals stack =>
    255 :: Bytes.be16 delta ++ Bytes.be16 (Bytes.length16 locals) ++ encodeTypes locals ++
      Bytes.be16 (Bytes.length16 stack) ++ encodeTypes stack

/-- A frame. -/
def decode : Decoder Frame := do
  let tag ← Decoder.u8
  if tag ≤ 63 then return same tag.toUInt16
  else if tag ≤ 127 then return sameWithItem (tag - 64).toUInt16 (← VerificationType.decode)
  else if tag < 247 then Decoder.fail (.reservedFrame tag)
  else
    let delta ← Decoder.u16
    if tag = 247 then return sameWithItem delta (← VerificationType.decode)
    else if tag ≤ 250 then return chop delta (251 - tag)
    else if tag = 251 then return same delta
    else if tag ≤ 254 then
      return append delta (← Decoder.times (tag - 251).toNat VerificationType.decode)
    else
      let locals ← Decoder.counted VerificationType.decode
      return full delta locals (← Decoder.counted VerificationType.decode)

/-- The body of a stack map attribute. -/
def encodeTable (frames : List Frame) : Bytes :=
  Bytes.be16 (Bytes.length16 frames) ++ frames.flatMap encode

/-- The frames of a stack map attribute. -/
def decodeTable (body : Bytes) : Except FormatError (List Frame) :=
  ((Decoder.counted decode).whole fun _ => .malformedAttribute "StackMapTable").run body

/-- The offset of a frame behind one at an offset. -/
def offsetAfter (before : Option UInt32) (f : Frame) : UInt32 :=
  match before with
  | none => f.delta.toUInt32
  | some offset => offset + f.delta.toUInt32 + 1

/-- The offsets of frames behind one at an offset. -/
def offsetsAfter (before : Option UInt32) : List Frame → List UInt32
  | [] => []
  | f :: rest =>
    let offset := offsetAfter before f
    offset :: offsetsAfter (some offset) rest

/-- The offsets of a method's frames. -/
def offsets (frames : List Frame) : List UInt32 :=
  offsetsAfter none frames

end Frame

end ProxyForge
