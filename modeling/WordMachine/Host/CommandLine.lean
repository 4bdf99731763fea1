import WordMachine.Host.Benchmark

namespace WordMachine

/-- The options that a command line can set. -/
inductive Flag
  | iterations
  | workers
  | a
  | b
  | stackDepth
  | maxFrames
  | dump
deriving DecidableEq

namespace Flag

def ofShort? : Char → Option Flag
  | 'i' => some iterations
  | 't' => some workers
  | 'a' => some a
  | 'b' => some b
  | _ => none

def ofLong? (name : String) : Option Flag :=
  [("iterations", iterations), ("threads", workers), ("a", a), ("b", b), ("stack-depth", stackDepth),
    ("max-frames", maxFrames), ("dump", dump)].lookup name

/-- A flag with the value that is written together with it, if one is. A value follows a long name after an equals
sign and a short name with or without one. -/
def ofArgument? (argument : String) : Option (Flag × Option String) :=
  match argument.toList with
  | '-' :: '-' :: rest =>
    let name := String.ofList (rest.takeWhile (· != '='))
    let value :=
      match rest.dropWhile (· != '=') with
      | [] => none
      | _ :: value => some (String.ofList value)
    (ofLong? name).map (·, value)
  | '-' :: short :: rest =>
    let value :=
      match rest with
      | [] => none
      | '=' :: value => some (String.ofList value)
      | value => some (String.ofList value)
    (ofShort? short).map (·, value)
  | _ => none

end Flag

/-- A number written in decimal digits. -/
def digitsValue? (digits : List Char) : Option Nat :=
  if digits.isEmpty then none
  else if digits.all Char.isDigit then some (digits.foldl (fun n c => 10 * n + (c.toNat - '0'.toNat)) 0)
  else none

/-- A whole number with an optional sign. -/
def signedValue? (text : String) : Option Int :=
  match text.toList with
  | '-' :: digits => (digitsValue? digits).map fun n => -(n : Int)
  | '+' :: digits => (digitsValue? digits).map Int.ofNat
  | digits => (digitsValue? digits).map Int.ofNat

/-- A whole number that is not negative, with an optional plus sign. -/
def unsignedValue? (text : String) : Option Nat :=
  match text.toList with
  | '+' :: digits => digitsValue? digits
  | digits => digitsValue? digits

namespace Options

/-- A size that fits in 64 bits. -/
def sizeValue? (text : String) : Option Nat :=
  (unsignedValue? text).filter (· < 2 ^ 64)

/-- A count that fits in 32 bits. -/
def countValue? (text : String) : Option Nat :=
  ((signedValue? text).filter fun n => 0 ≤ n && n < 2 ^ 32).map Int.toNat

/-- A signed number that fits in 32 bits. -/
def intValue? (text : String) : Option Int32 :=
  ((signedValue? text).filter fun n => -(2 ^ 31) ≤ n && n < 2 ^ 31).map Int32.ofInt

/-- Sets an option that takes a value. -/
def set? (options : Options) (flag : Flag) (value : String) : Option Options :=
  match flag with
  | .iterations => (countValue? value).map fun n => { options with iterations := n }
  | .workers => (sizeValue? value).map fun n => { options with workers := n }
  | .a => (intValue? value).map fun n => { options with a := n }
  | .b => (intValue? value).map fun n => { options with b := n }
  | .stackDepth => (sizeValue? value).map fun n => { options with stackDepth := n }
  | .maxFrames => (sizeValue? value).map fun n => { options with maxFrames := n }
  | .dump => none

/-- Whether an argument cannot be the value of the flag before it. -/
def looksLikeFlag (argument : String) : Bool :=
  argument.startsWith "-" && argument != "-"

/-- Reads the arguments after the flags in `seen`. No flag may occur twice, and there are no other arguments. -/
def readFrom (options : Options) (seen : List Flag) : List String → Option Options
  | [] => some options
  | argument :: rest =>
    if argument = "--" then
      if rest.isEmpty then some options else none
    else
      match Flag.ofArgument? argument with
      | none => none
      | some (flag, attached) =>
        if flag ∈ seen then
          none
        else
          match flag, attached, rest with
          | .dump, none, rest => readFrom { options with dump := true } (flag :: seen) rest
          | .dump, some _, _ => none
          | flag, some value, rest =>
            (options.set? flag value).bind fun options => readFrom options (flag :: seen) rest
          | flag, none, value :: rest =>
            if looksLikeFlag value then none
            else (options.set? flag value).bind fun options => readFrom options (flag :: seen) rest
          | _, none, [] => none

/-- The options that a command line asks for, or none if it cannot be understood. -/
def read? (arguments : List String) : Option Options :=
  readFrom {} [] arguments

end Options

end WordMachine
