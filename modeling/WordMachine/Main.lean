import WordMachine.Host.CommandLine

open WordMachine

/-- Runs the benchmark that the command line asks for. -/
def main (arguments : List String) : IO UInt32 := do
  match Options.read? arguments with
  | none =>
    IO.eprintln "usage: [-i N] [-t N] [-a N] [-b N] [--stack-depth N] [--max-frames N] [--dump]"
    return 2
  | some options =>
    let start ← IO.monoNanosNow
    let report ← IO.lazyPure fun _ => Benchmark.run options
    let stop ← IO.monoNanosNow
    for line in report.lines (stop - start) do
      IO.println line
    match report.fault? with
    | some fault =>
      IO.eprintln ("Error: " ++ fault.record)
      return 1
    | none => return 0
