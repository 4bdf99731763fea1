import WordMachine.Host.VM
import WordMachine.Program.Assembler

namespace WordMachine

/-- What the command line asks for. -/
structure Options where
  /-- Calls of each worker. -/
  iterations : Nat := 1000000
  workers : Nat := 1
  a : Int32 := 1
  b : Int32 := 2
  stackDepth : Nat := 1024
  maxFrames : Nat := 512
  /-- Whether the compiled routine is shown first. -/
  dump : Bool := false

namespace Benchmark

/-- Two integers in, one integer out. -/
def sumSignature : Signature where
  name := "Sum"
  result := some Scalar.int
  parameters := [⟨"a", Scalar.int⟩, ⟨"b", Scalar.int⟩]

/-- The local offset of a parameter of the sum. -/
def localOffset (name : String) : UInt8 :=
  UInt8.ofNat ((sumSignature.wordIndexOf name).getD 0)

def sumBody : AssemblerM (Object Empty) Unit := do
  Assembler.setLine 1
  let _ ← Assembler.getLocal Scalar.int (localOffset "a")
  let _ ← Assembler.getLocal Scalar.int (localOffset "b")
  let _ ← Assembler.add Scalar.int
  let _ ← Assembler.ret

/-- A routine that adds its two arguments. -/
def sum : Routine (Object Empty) where
  signature := sumSignature
  chunk :=
    match assemble sumBody with
    | .ok _ assembler => assembler.chunk
    | .error _ assembler => assembler.chunk

/-- The host of the benchmark offers nothing to call. -/
def noLinkage : Linkage Empty := fun value => value.elim

/-- Calls the sum a number of times and gives the last result, which is zero if there was no call. -/
def repeatSum (a b : Int32) : Nat → Int32 → VM Empty → Except Fault Int32 × VM Empty
  | 0, last, vm => (.ok last, vm)
  | count + 1, _, vm =>
    match vm.callUnchecked noLinkage sum [⟨Scalar.int, a⟩, ⟨Scalar.int, b⟩] (some Scalar.int) with
    | (.ok value, vm) => repeatSum a b count value vm
    | (.error fault, vm) => (.error fault, vm)

/-- Lets the workers do their calls one after the other. -/
def runWorkers (options : Options) : Nat → VM Empty → List (Except Fault Int32) × VM Empty
  | 0, vm => ([], vm)
  | count + 1, vm =>
    let (outcome, vm) := repeatSum options.a options.b options.iterations 0 vm
    let (outcomes, vm) := runWorkers options count vm
    (outcome :: outcomes, vm)

/-- What a benchmark found out. -/
structure Report where
  options : Options
  outcomes : List (Except Fault Int32)
  stackStats : PoolStats
  frameStats : PoolStats

def run (options : Options) : Report :=
  let config : Config := { stackDepth := options.stackDepth, maxFrames := options.maxFrames }
  let (outcomes, vm) := runWorkers options options.workers (VM.create config Journal.silent)
  ⟨options, outcomes, vm.stackPool.stats, vm.framePool.stats⟩

/-- A time in its largest whole unit, with the digits after the point that it needs. -/
def durationText (nanoseconds : Nat) : String :=
  let (unit, places, name) :=
    if 1000000000 ≤ nanoseconds then (1000000000, 9, "s")
    else if 1000000 ≤ nanoseconds then (1000000, 6, "ms")
    else if 1000 ≤ nanoseconds then (1000, 3, "µs")
    else (1, 0, "ns")
  let fraction := trimZeros (padLeft '0' places (toString (nanoseconds % unit))).toList
  let point := if fraction.isEmpty then "" else "." ++ String.ofList fraction
  toString (nanoseconds / unit) ++ point ++ name

namespace Report

/-- The results up to the first failed worker, and its fault. -/
def results (options : Options) : List (Except Fault Int32) → List String × Option Fault
  | [] => ([], none)
  | .error fault :: _ => ([], some fault)
  | .ok value :: rest =>
    let (lines, fault) := results options rest
    (s!"{options.a.toInt} + {options.b.toInt} = {value.toInt}" :: lines, fault)

def calls (report : Report) : Nat :=
  report.options.iterations * report.options.workers

/-- The fault that ended the benchmark, if one did. -/
def fault? (report : Report) : Option Fault :=
  (results report.options report.outcomes).2

/-- The lines at the end of a benchmark without a fault. -/
def summary (report : Report) (nanoseconds : Nat) : List String :=
  let rate := if 0 < report.calls then [s!"{nanoseconds / report.calls} ns per call"] else []
  [s!"{report.calls} calls in {durationText nanoseconds}"] ++ rate ++
    [s!"stack pool: {report.stackStats.record}", s!"frame pool: {report.frameStats.record}"]

/-- Everything that is printed, if the calls took so long. -/
def lines (report : Report) (nanoseconds : Nat) : List String :=
  let dump := if report.options.dump then sum.signature.text :: sum.chunk.listing else []
  let (results, fault) := results report.options report.outcomes
  dump ++ results ++ if fault.isSome then [] else report.summary nanoseconds

end Report

end Benchmark

end WordMachine
