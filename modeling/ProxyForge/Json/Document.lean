import ProxyForge.Json.Numeral
/-!
# Documents

A JSON text read as far as it goes. `Document.read` never fails: where the text stops making
sense the tree has a broken place, and whoever reads the tree in document order meets that place
when it is its turn. So a wrong value that stands before a syntax error is found first, as in a
reader that works along the text.

A value that is skipped is read less strictly than one that is used (`Break`): unpaired
surrogates and numbers out of range do not matter then.
-/

namespace ProxyForge

namespace Json

/-- Why a text cannot be read on. -/
inductive Fault
  /-- The text ends too early. -/
  | ended
  /-- A character cannot stand where it stands. -/
  | misplaced
  deriving DecidableEq, Repr

/-- A place where reading stops, for a reader that uses the value, for one that skips it, and for
one that chooses by a name, which refuses any other value at its first character. -/
structure Break where
  used : Fault
  skipped : Fault
  chosen : Fault
  deriving DecidableEq, Repr

/-- A place that is wrong for every reader in the same way. -/
def Break.forAll (fault : Fault) : Break := ⟨fault, fault, fault⟩

/-- A place inside a word or a number. -/
def Break.inside (used skipped : Fault) : Break := ⟨used, skipped, .misplaced⟩

/-- A character of a string, or the code unit of a `u` escape. -/
inductive Piece
  | char (c : Char)
  | unit (u : UInt16)
  deriving DecidableEq, Repr

/-- How the items between brackets end. -/
inductive Ending
  | closed
  | broken (afterComma : Bool) (place : Break)
  deriving DecidableEq, Repr

/-- A value as far as it can be read. -/
inductive Node
  | null
  | bool (value : Bool)
  | number (numeral : Numeral)
  | text (pieces : List Piece)
  | list (items : List Node) (ending : Ending)
  | record (entries : List (List Piece × Node)) (ending : Ending)
  | broken (place : Break)
  deriving Inhabited

/-! ## Strings -/

/-- The character of a pair of surrogates. -/
def pairedChar (high low : UInt16) : Char :=
  Char.ofNat (0x10000 + (high.toNat - 0xd800) * 0x400 + (low.toNat - 0xdc00))

/-- The text of pieces, or nothing if a surrogate is alone. -/
def textOf (acc : List Char) : List Piece → Option String
  | [] => some (String.ofList acc.reverse)
  | .char c :: rest => textOf (c :: acc) rest
  | .unit u :: rest =>
    if u < 0xd800 || 0xdfff < u then textOf (Char.ofNat u.toNat :: acc) rest
    else match rest with
      | .unit low :: rest =>
        if u < 0xdc00 && 0xdc00 ≤ low && low ≤ 0xdfff then textOf (pairedChar u low :: acc) rest
        else none
      | _ => none

/-- Does an unpaired surrogate show before the end of the pieces? A leading one at the very end
may still be completed. -/
def showsLoneSurrogate : List Piece → Bool
  | [] => false
  | .char _ :: rest => showsLoneSurrogate rest
  | .unit u :: rest =>
    if u < 0xd800 || 0xdfff < u then showsLoneSurrogate rest
    else match rest with
      | [] => 0xdc00 ≤ u
      | .unit low :: rest =>
        if u < 0xdc00 && 0xdc00 ≤ low && low ≤ 0xdfff then showsLoneSurrogate rest else true
      | _ => true

/-- The value of a hexadecimal digit. -/
def hexValue (c : Char) : Option Nat :=
  if '0' ≤ c && c ≤ '9' then some (c.toNat - 48)
  else if 'a' ≤ c && c ≤ 'f' then some (c.toNat - 87)
  else if 'A' ≤ c && c ≤ 'F' then some (c.toNat - 55)
  else none

/-- The character that a letter after a backslash stands for. -/
def escaped (c : Char) : Option Char :=
  if c = '"' ∨ c = '\\' ∨ c = '/' then some c
  else if c = 'b' then some '\x08'
  else if c = 'f' then some '\x0c'
  else if c = 'n' then some '\n'
  else if c = 'r' then some '\r'
  else if c = 't' then some '\t'
  else none

/-- The code unit of four hexadecimal digits. -/
def hexUnit (a b c d : Char) : Option UInt16 := do
  let a ← hexValue a
  let b ← hexValue b
  let c ← hexValue c
  let d ← hexValue d
  return UInt16.ofNat (((a * 16 + b) * 16 + c) * 16 + d)

/-- The text behind an opening quote: its pieces, and what follows the closing quote. -/
def scanText (acc : List Piece) : List Char → List Piece × Except Fault (List Char)
  | [] => (acc.reverse, .error .ended)
  | '"' :: rest => (acc.reverse, .ok rest)
  | '\\' :: 'u' :: a :: b :: c :: d :: rest =>
    match hexUnit a b c d with
    | some u => scanText (.unit u :: acc) rest
    | none => (acc.reverse, .error .misplaced)
  | '\\' :: 'u' :: rest =>
    -- four bytes are looked at together, however few characters they are
    (acc.reverse, .error (if (String.ofList rest).utf8ByteSize < 4 then .ended else .misplaced))
  | '\\' :: c :: rest =>
    match escaped c with
    | some e => scanText (.char e :: acc) rest
    | none => (acc.reverse, .error .misplaced)
  | ['\\'] => (acc.reverse, .error .ended)
  | c :: rest =>
    if c.toNat < 0x20 then (acc.reverse, .error .misplaced) else scanText (.char c :: acc) rest

/-- Where a string that is not closed breaks. -/
def textBreak (pieces : List Piece) (fault : Fault) : Break :=
  let used := if showsLoneSurrogate pieces then .misplaced else fault
  ⟨used, fault, used⟩

/-! ## Numbers -/

/-- A decimal digit's value. -/
def digitValue (c : Char) : Option Nat :=
  if '0' ≤ c && c ≤ '9' then some (c.toNat - 48) else none

/-- The digits at the start of a text. -/
def scanDigits (acc : List Nat) : List Char → List Nat × List Char
  | [] => (acc.reverse, [])
  | c :: rest =>
    match digitValue c with
    | some d => scanDigits (d :: acc) rest
    | none => (acc.reverse, c :: rest)

/-- A digit is missing: at the end of the text only a reader that uses the number asks for more. -/
def digitBreak : List Char → Break
  | [] => .inside .ended .misplaced
  | _ => .inside .misplaced .misplaced

/-- The exponent behind a number, if there is one. -/
def scanExponent (n : Numeral) : List Char → Node × Option (List Char)
  | c :: rest =>
    if c = 'e' ∨ c = 'E' then
      let (down, rest) := match rest with
        | '-' :: rest => (true, rest)
        | '+' :: rest => (false, rest)
        | rest => (false, rest)
      match scanDigits [] rest with
      | ([], rest) => (.broken (digitBreak rest), none)
      | (digits, rest) => (.number { n with exponent := some (down, digits) }, some rest)
    else (.number n, some (c :: rest))
  | [] => (.number n, some [])

/-- The fraction behind a whole part, if there is one, and the exponent. -/
def scanFraction (n : Numeral) : List Char → Node × Option (List Char)
  | '.' :: rest =>
    match scanDigits [] rest with
    | ([], rest) => (.broken (digitBreak rest), none)
    | (digits, rest) => scanExponent { n with fraction := digits, pointed := true } rest
  | rest => scanExponent n rest

/-- A number without its sign. -/
def scanNumber (negative : Bool) (text : List Char) : Node × Option (List Char) :=
  match scanDigits [] text with
  | ([], rest) => (.broken (digitBreak rest), none)
  | (0 :: _ :: _, _) => (.broken (.forAll .misplaced), none)
  | (digits, rest) => scanFraction ⟨negative, digits, [], none, false⟩ rest

/-! ## Values -/

/-- The characters between values. -/
def isSpace (c : Char) : Bool :=
  c = ' ' || c = '\n' || c = '\t' || c = '\r'

/-- The text from its first character that is no space. -/
def skipSpace (text : List Char) : List Char :=
  text.dropWhile isSpace

/-- The rest of a word. -/
def scanWord (node : Node) : (word text : List Char) → Node × Option (List Char)
  | [], rest => (node, some rest)
  | _ :: _, [] => (.broken (.inside .ended .ended), none)
  | w :: word, c :: rest =>
    if w = c then scanWord node word rest else (.broken (.forAll .misplaced), none)

mutual
/-- One value, and what follows it unless reading stopped inside. `fuel` exceeds twice the number
of characters left, as a bracket takes two steps. -/
def scanNode : (fuel : Nat) → List Char → Node × Option (List Char)
  | 0, _ => (.broken (.forAll .ended), none)
  | fuel + 1, text =>
    match skipSpace text with
    | [] => (.broken (.forAll .ended), none)
    | c :: rest =>
      if c = 'n' then scanWord .null ['u', 'l', 'l'] rest
      else if c = 't' then scanWord (.bool true) ['r', 'u', 'e'] rest
      else if c = 'f' then scanWord (.bool false) ['a', 'l', 's', 'e'] rest
      else if c = '"' then
        match scanText [] rest with
        | (pieces, .ok rest) => (.text pieces, some rest)
        | (pieces, .error fault) => (.broken (textBreak pieces fault), none)
      else if c = '[' then
        let (items, ending, rest) := scanItems fuel [] rest
        (.list items ending, rest)
      else if c = '\x7b' then
        let (entries, ending, rest) := scanEntries fuel [] rest
        (.record entries ending, rest)
      else if c = '-' then scanNumber true rest
      else if (digitValue c).isSome then scanNumber false (c :: rest)
      else (.broken (.forAll .misplaced), none)

/-- The items behind an opening bracket, after those in `acc`. -/
def scanItems : (fuel : Nat) → (acc : List Node) → List Char →
    List Node × Ending × Option (List Char)
  | 0, acc, _ => (acc.reverse, .broken false (.forAll .ended), none)
  | fuel + 1, acc, text =>
    let item (text : List Char) : List Node × Ending × Option (List Char) :=
      match scanNode fuel text with
      | (node, some rest) => scanItems fuel (node :: acc) rest
      | (node, none) => ((node :: acc).reverse, .closed, none)
    match skipSpace text with
    | [] => (acc.reverse, .broken false (.forAll .ended), none)
    | ']' :: rest => (acc.reverse, .closed, some rest)
    | c :: rest =>
      if acc.isEmpty then item (c :: rest)
      else if c = ',' then
        match skipSpace rest with
        | [] => (acc.reverse, .broken true (.forAll .ended), none)
        | ']' :: _ => (acc.reverse, .broken true (.forAll .misplaced), none)
        | rest => item rest
      else (acc.reverse, .broken false (.forAll .misplaced), none)

/-- The entries behind an opening brace, after those in `acc`. -/
def scanEntries : (fuel : Nat) → (acc : List (List Piece × Node)) → List Char →
    List (List Piece × Node) × Ending × Option (List Char)
  | 0, acc, _ => (acc.reverse, .broken false (.forAll .ended), none)
  | fuel + 1, acc, text =>
    let entry (text : List Char) : List (List Piece × Node) × Ending × Option (List Char) :=
      match scanText [] text with
      | (pieces, .error fault) =>
        (acc.reverse, .broken (!acc.isEmpty) (textBreak pieces fault), none)
      | (key, .ok rest) =>
        match skipSpace rest with
        | [] => (((key, .broken (.forAll .ended)) :: acc).reverse, .closed, none)
        | ':' :: rest =>
          match scanNode fuel rest with
          | (node, some rest) => scanEntries fuel ((key, node) :: acc) rest
          | (node, none) => (((key, node) :: acc).reverse, .closed, none)
        | _ => (((key, .broken (.forAll .misplaced)) :: acc).reverse, .closed, none)
    match skipSpace text with
    | [] => (acc.reverse, .broken false (.forAll .ended), none)
    | '\x7d' :: rest => (acc.reverse, .closed, some rest)
    | c :: rest =>
      if acc.isEmpty then
        if c = '"' then entry rest else (acc.reverse, .broken false (.forAll .misplaced), none)
      else if c = ',' then
        match skipSpace rest with
        | [] => (acc.reverse, .broken true (.forAll .ended), none)
        | '"' :: rest => entry rest
        | _ => (acc.reverse, .broken true (.forAll .misplaced), none)
      else (acc.reverse, .broken false (.forAll .misplaced), none)
end

/-- A text: its value, and whether anything but space follows it. -/
structure Document where
  root : Node
  trailing : Bool

/-- Read a text as far as it goes. -/
def Document.read (text : String) : Document :=
  let chars := text.toList
  let (root, rest) := scanNode (2 * chars.length + 1) chars
  ⟨root, match rest with
    | none => false
    | some rest => !(skipSpace rest).isEmpty⟩

end Json

end ProxyForge
