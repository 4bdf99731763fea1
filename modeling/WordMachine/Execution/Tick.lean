import WordMachine.Execution.Machine

namespace WordMachine

/-- Where a run stands after an instruction. -/
inductive Progress (H : Type)
  | running (m : Machine H)
  | halted (m : Machine H)
  | faulted (fault : Fault) (m : Machine H)

namespace Machine

variable {H : Type}

/-- Writes an instruction down and carries it out. -/
def dispatch (link : Linkage H) (frame : Frame H) (ip : Nat) (instruction : Instruction) : MachineM H Flow := do
  note .trace fun _ => .dispatched frame.routine.signature.name ip instruction
  perform link frame instruction

/-- Fetches the next instruction of the current frame and carries it out. The frame is moved on first. -/
def tick (link : Linkage H) : Machine H → Progress H
  | ⟨⟨[], limit⟩, stack, journal⟩ => .halted ⟨⟨[], limit⟩, stack, journal⟩
  | ⟨⟨frame :: below, limit⟩, stack, journal⟩ =>
    let advanced := { frame with ip := frame.ip + 1 }
    let m : Machine H := ⟨⟨advanced :: below, limit⟩, stack, journal⟩
    match frame.routine.chunk.fetch frame.ip with
    | .error error => .faulted error (report frame.ip error m)
    | .ok instruction =>
      match dispatch link advanced frame.ip instruction m with
      | .ok .proceed m => .running m
      | .ok .halt m => .halted m
      | .error fault m => .faulted fault (report frame.ip fault m)

end Machine

end WordMachine
