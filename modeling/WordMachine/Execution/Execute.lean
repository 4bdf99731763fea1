import WordMachine.Execution.Run

namespace WordMachine

namespace Machine

variable {H : Type}

/-- Does something, and drops all frames if it fails. -/
def clearingFrames {α : Type} (step : MachineM H α) : MachineM H α := fun m =>
  match step m with
  | .ok value m => .ok value m
  | .error fault ⟨frames, stack, journal⟩ => .error fault ⟨frames.clear, stack, journal⟩

/-- Fails unless the arguments pushed since `start` are as many words as the signature declares. -/
def checkPushed (signature : Signature) (start : Nat) : StackM (Object H) Unit := fun stack =>
  if stack.offset - start = signature.argumentWords then
    .ok () stack
  else
    .error (.argumentCountMismatch signature.argumentWords (stack.offset - start)) stack

/-- Fails unless exactly the declared result lies above `start`. -/
def checkLeft (signature : Signature) (start : Nat) : StackM (Object H) Unit := fun stack =>
  if stack.offset < start then
    .error .stackUnderflow stack
  else if stack.offset - start = signature.returnWords then
    .ok () stack
  else
    .error (.returnCountMismatch signature.name signature.returnWords (stack.offset - start)) stack

/-- Pushes arguments, runs a routine to its end and takes its result from the stack. The types of the arguments and the
result are not compared with the signature. A run that fails drops the frames and leaves the stack as it was then. -/
def execute (link : Linkage H) (routine : Routine (Object H)) (arguments : List (Argument (Object H)))
    (result : Option Ty) : MachineM H (Result (Object H) result) := do
  let start ← onStack StackM.offset
  onStack (StackM.pushAll arguments)
  onStack (checkPushed routine.signature start)
  clearingFrames do
    enter routine
    run link
  onStack (checkLeft routine.signature start)
  onStack (StackM.popResult result)

end Machine

end WordMachine
