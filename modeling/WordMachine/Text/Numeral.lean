namespace WordMachine

/-- The text, filled up on the left with `fill` to at least `width` characters. -/
def padLeft (fill : Char) (width : Nat) (text : String) : String :=
  String.ofList (List.replicate (width - text.length) fill) ++ text

/-- Lower-case hexadecimal digits without leading zeros. -/
def hexText (n : Nat) : String :=
  String.ofList (Nat.toDigits 16 n)

/-- A byte as two hexadecimal digits. -/
def byteText (byte : UInt8) : String :=
  padLeft '0' 2 (hexText byte.toNat)

/-- An instruction index as it is shown in listings and messages: at least four digits. -/
def indexText (ip : Nat) : String :=
  padLeft '0' 4 (toString ip)

/-- The digits without the zeros at their end. -/
def trimZeros (digits : List Char) : List Char :=
  (digits.reverse.dropWhile (· == '0')).reverse

end WordMachine
