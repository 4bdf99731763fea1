import WordMachine.Program.Chunk
import WordMachine.Program.Signature

namespace WordMachine

/-- A compiled routine: its declaration and its body. -/
structure Routine (ω : Type) where
  signature : Signature
  chunk : Chunk ω

/-- What references refer to: routines, whose constants hold further objects, and values of the host. -/
inductive Object (H : Type)
  | routine (routine : Routine (Object H))
  | host (value : H)

namespace Object

variable {H : Type}

def asRoutine? : Object H → Option (Routine (Object H))
  | routine r => some r
  | host _ => none

def asHost? : Object H → Option H
  | routine _ => none
  | host value => some value

/-- What error messages call a routine. -/
def routineKind : String := "slate::function::Function"

/-- What error messages call host code. -/
def externalKind : String := "slate::native::ExternalFunction"

end Object

/-- The routine that a position refers to. -/
def ConstantPool.readRoutine {H : Type} (pool : ConstantPool (Object H)) (position : Position) :
    Except ProgramError (Routine (Object H)) :=
  pool.readAs Object.asRoutine? Object.routineKind position

/-- What is read as an object is one of the objects of the pool. -/
theorem ConstantPool.mem_of_readObject {ω : Type} {pool : ConstantPool ω} {position : Position} {object : ω}
    (read : pool.readObject position = .ok (some object)) : object ∈ pool.objects := by
  unfold ConstantPool.readObject at read
  split at read
  · cases read
  · split at read
    · cases read
    · rename_i index _
      split at read
      · rename_i found at_index
        cases read
        exact Array.mem_of_getElem? at_index
      · cases read

/-- A routine is larger than the routines that its constants refer to. -/
theorem ConstantPool.sizeOf_readRoutine {H : Type} {caller callee : Routine (Object H)} {position : Position}
    (read : caller.chunk.constants.readRoutine position = .ok callee) : sizeOf callee < sizeOf caller := by
  unfold ConstantPool.readRoutine ConstantPool.readAs at read
  split at read
  · cases read
  · rename_i object found
    split at read
    · rename_i view_eq
      cases read
      obtain ⟨inner, rfl, is_routine⟩ := Option.bind_eq_some_iff.mp view_eq
      cases inner with
      | host value => cases is_routine
      | routine r =>
        cases is_routine
        have bound := Array.sizeOf_lt_of_mem (ConstantPool.mem_of_readObject found)
        obtain ⟨signature, ⟨code, ⟨bytes, objects, positions⟩, lines⟩⟩ := caller
        simp only [Object.routine.sizeOf_spec, Routine.mk.sizeOf_spec, Chunk.mk.sizeOf_spec,
          ConstantPool.mk.sizeOf_spec] at bound ⊢
        omega
    · cases read

end WordMachine
