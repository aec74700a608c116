/-!
# Hexadecimal numerals

Numbers written in base sixteen, zero-filled to a least width and marked by `0x`.
-/

namespace ProxyForge

namespace Text

/-- The digit of a value below sixteen. -/
def hexDigit (upper : Bool) (n : Nat) : Char :=
  if n < 10 then Char.ofNat (48 + n) else Char.ofNat ((if upper then 55 else 87) + n)

/-- `0x` and at least `width` digits. -/
def hex (width : Nat) (upper : Bool) (n : Nat) : String :=
  let digits := (Nat.toDigits 16 n).map fun d =>
    if d.isDigit then d else hexDigit upper (d.toNat - 87)
  "0x" ++ String.ofList (List.replicate (width - digits.length) '0' ++ digits)

end Text

end ProxyForge
