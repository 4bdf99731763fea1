import WordMachine.Proofs.Effect

namespace WordMachine

/-- How much of a stack is in use. -/
structure Usage where
  offset : Nat
  capacity : Nat
  live : Nat

/-- The elementary operations on a stack. Whatever touches its memory, its tags or its handles is made of them. -/
inductive Access (ω : Type)
  | push (ty : Ty) (cell : Cell ty)
  | pop (ty : Ty)
  | read (ty : Ty) (slot : Nat)
  | write (ty : Ty) (slot : Nat) (cell : Cell ty)
  /-- Reads a value only to show it in a log message. -/
  | describe (ty : Ty) (slot : Nat)
  | needRoom (words : Nat)
  | alloc (object : ω)
  | duplicate (handle : Handle)
  | resolve (handle : Handle)
  | release (handle : Handle)
  | moveDown (src dst words : Nat)
  | setOffset (offset : Nat)
  | usage

namespace Access

variable {ω : Type}

/-- What an operation gives back. -/
def Reply : Access ω → Type
  | push _ _ => Unit
  | pop ty => Cell ty
  | read ty _ => Cell ty
  | write _ _ _ => Unit
  | describe _ _ => String
  | needRoom _ => Unit
  | alloc _ => Handle
  | duplicate _ => Handle
  | resolve _ => Option ω
  | release _ => Option ω
  | moveDown _ _ _ => Unit
  | setOffset _ => Unit
  | usage => Usage

def perform : (access : Access ω) → StackM ω access.Reply
  | push ty cell => StackM.pushCell ty cell
  | pop ty => StackM.popCell ty
  | read ty slot => StackM.readCell ty slot
  | write ty slot cell => StackM.writeCell ty slot cell
  | describe ty slot => fun stack => .ok (stack.describe slot ty) stack
  | needRoom words => StackM.needRoom words
  | alloc object => StackM.alloc object
  | duplicate handle => StackM.duplicate handle
  | resolve handle => fun stack =>
    match stack.handles.get handle with
    | .ok object => .ok object stack
    | .error fault => .error fault stack
  | release handle => StackM.release handle
  | moveDown src dst words => StackM.moveDown src dst words
  | setOffset offset => StackM.setOffset offset
  | usage => fun stack => .ok ⟨stack.offset, stack.capacity, stack.liveHandles⟩ stack

end Access

/-- A step of a stack, taken apart into elementary operations. What comes next depends on what the last one gave back,
also if it failed. -/
inductive Script (ω α : Type)
  | done (value : α)
  | fail (fault : Fault)
  | act (access : Access ω) (next : Except Fault access.Reply → Script ω α)

namespace Script

variable {ω α β : Type}

/-- What a script does to a stack. -/
def run : Script ω α → StackM ω α
  | done value => fun stack => .ok value stack
  | fail fault => fun stack => .error fault stack
  | act access next => fun stack =>
    match access.perform stack with
    | .ok reply stack => (next (.ok reply)).run stack
    | .error fault stack => (next (.error fault)).run stack

/-- The operations that a script carries out, each with the stack that it finds. -/
def trace : Script ω α → OperandStack ω → List (Access ω × OperandStack ω)
  | done _, _ => []
  | fail _, _ => []
  | act access next, stack =>
    (access, stack) ::
      match access.perform stack with
      | .ok reply stack => (next (.ok reply)).trace stack
      | .error fault stack => (next (.error fault)).trace stack

/-- Goes on with the outcome of a script, be it a value or a fault. -/
def resume (script : Script ω α) (next : Except Fault α → Script ω β) : Script ω β :=
  match script with
  | done value => next (.ok value)
  | fail fault => next (.error fault)
  | act access rest => act access fun reply => (rest reply).resume next

/-- Goes on with the value of a script; a fault ends both. -/
def bind (script : Script ω α) (next : α → Script ω β) : Script ω β :=
  script.resume fun
    | .ok value => next value
    | .error fault => fail fault

instance : Monad (Script ω) where
  pure := done
  bind := bind

/-- A single operation, whose fault is passed on. -/
def call (access : Access ω) : Script ω access.Reply :=
  act access fun
    | .ok reply => done reply
    | .error fault => fail fault

theorem run_resume (script : Script ω α) (next : Except Fault α → Script ω β) (stack : OperandStack ω) :
    (script.resume next).run stack =
      match script.run stack with
      | .ok value stack => (next (.ok value)).run stack
      | .error fault stack => (next (.error fault)).run stack := by
  induction script generalizing stack with
  | done value => rfl
  | fail fault => rfl
  | act access rest ih =>
    simp only [resume, run]
    cases access.perform stack with
    | ok reply final => exact ih (.ok reply) final
    | error fault final => exact ih (.error fault) final

@[simp]
theorem run_bind (script : Script ω α) (next : α → Script ω β) :
    (script >>= next).run = script.run >>= fun value => (next value).run := by
  funext stack
  change (script.resume _).run stack = EStateM.bind script.run _ stack
  rw [run_resume]
  unfold EStateM.bind
  cases script.run stack <;> rfl

@[simp]
theorem run_call (access : Access ω) : (call access).run = access.perform := by
  funext stack
  simp only [call, run]
  cases access.perform stack <;> rfl

@[simp]
theorem run_pure (value : α) : (pure value : Script ω α).run = pure value :=
  rfl

@[simp]
theorem run_fail (fault : Fault) : (fail fault : Script ω α).run = StackM.fail fault :=
  rfl

/-- Every operation is allowed where it is carried out, and the outcome is as expected. -/
def Meets (allowed : Access ω → OperandStack ω → Prop) :
    Script ω α → OperandStack ω → (EStateM.Result Fault (OperandStack ω) α → Prop) → Prop
  | done value, stack, post => post (.ok value stack)
  | fail fault, stack, post => post (.error fault stack)
  | act access next, stack, post =>
    allowed access stack ∧
      match access.perform stack with
      | .ok reply stack => (next (.ok reply)).Meets allowed stack post
      | .error fault stack => (next (.error fault)).Meets allowed stack post

variable {allowed : Access ω → OperandStack ω → Prop} {stack : OperandStack ω}

theorem meets_iff {script : Script ω α} {post : EStateM.Result Fault (OperandStack ω) α → Prop} :
    script.Meets allowed stack post ↔
      (∀ entry ∈ script.trace stack, allowed entry.1 entry.2) ∧ post (script.run stack) := by
  induction script generalizing stack with
  | done value => simp [Meets, trace, run]
  | fail fault => simp [Meets, trace, run]
  | act access next ih =>
    simp only [Meets, trace, run, List.forall_mem_cons]
    cases access.perform stack with
    | ok reply final => exact (and_congr_right fun _ => ih (.ok reply)).trans and_assoc.symm
    | error fault final => exact (and_congr_right fun _ => ih (.error fault)).trans and_assoc.symm

theorem Meets.mono {script : Script ω α} {post wanted : EStateM.Result Fault (OperandStack ω) α → Prop}
    (meets : script.Meets allowed stack post) (weaker : ∀ outcome, post outcome → wanted outcome) :
    script.Meets allowed stack wanted := by
  obtain ⟨all, outcome⟩ := meets_iff.mp meets
  exact meets_iff.mpr ⟨all, weaker _ outcome⟩

theorem Meets.resume {script : Script ω α} {next : Except Fault α → Script ω β}
    {post : EStateM.Result Fault (OperandStack ω) β → Prop}
    (meets : script.Meets allowed stack fun
      | .ok value stack => (next (.ok value)).Meets allowed stack post
      | .error fault stack => (next (.error fault)).Meets allowed stack post) :
    (script.resume next).Meets allowed stack post := by
  induction script generalizing stack with
  | done value => exact meets
  | fail fault => exact meets
  | act access rest ih =>
    simp only [Meets, Script.resume] at meets ⊢
    refine ⟨meets.1, ?_⟩
    have later := meets.2
    cases ran : access.perform stack with
    | ok reply final =>
      rw [ran] at later
      exact ih (.ok reply) later
    | error fault final =>
      rw [ran] at later
      exact ih (.error fault) later

theorem Meets.bind {script : Script ω α} {next : α → Script ω β}
    {post : EStateM.Result Fault (OperandStack ω) β → Prop}
    (meets : script.Meets allowed stack fun
      | .ok value stack => (next value).Meets allowed stack post
      | .error fault stack => post (.error fault stack)) :
    (script >>= next).Meets allowed stack post := by
  refine Meets.resume (meets.mono fun outcome expected => ?_)
  cases outcome with
  | ok value final => exact expected
  | error fault final => exact expected

theorem meets_call {access : Access ω} {post : EStateM.Result Fault (OperandStack ω) access.Reply → Prop}
    (safe : allowed access stack) (outcome : post (access.perform stack)) :
    (call access).Meets allowed stack post := by
  simp only [call, Meets]
  refine ⟨safe, ?_⟩
  cases ran : access.perform stack with
  | ok reply final =>
    rw [ran] at outcome
    exact outcome
  | error fault final =>
    rw [ran] at outcome
    exact outcome

def push (ty : Ty) (cell : Cell ty) : Script ω Unit := call (.push ty cell)

def pop (ty : Ty) : Script ω (Cell ty) := call (.pop ty)

def read (ty : Ty) (slot : Nat) : Script ω (Cell ty) := call (.read ty slot)

def write (ty : Ty) (slot : Nat) (cell : Cell ty) : Script ω Unit := call (.write ty slot cell)

def describe (ty : Ty) (slot : Nat) : Script ω String := call (.describe ty slot)

def needRoom (words : Nat) : Script ω Unit := call (.needRoom words)

def alloc (object : ω) : Script ω Handle := call (.alloc object)

def duplicate (handle : Handle) : Script ω Handle := call (.duplicate handle)

def resolve (handle : Handle) : Script ω (Option ω) := call (.resolve handle)

def release (handle : Handle) : Script ω (Option ω) := call (.release handle)

def moveDown (src dst words : Nat) : Script ω Unit := call (.moveDown src dst words)

def setOffset (offset : Nat) : Script ω Unit := call (.setOffset offset)

def usage : Script ω Usage := call .usage

@[simp]
theorem run_push (ty : Ty) (cell : Cell ty) : (push ty cell : Script ω Unit).run = StackM.pushCell ty cell :=
  run_call _

@[simp]
theorem run_pop (ty : Ty) : (pop ty : Script ω _).run = StackM.popCell ty :=
  run_call _

@[simp]
theorem run_read (ty : Ty) (slot : Nat) : (read ty slot : Script ω _).run = StackM.readCell ty slot :=
  run_call _

@[simp]
theorem run_write (ty : Ty) (slot : Nat) (cell : Cell ty) :
    (write ty slot cell : Script ω Unit).run = StackM.writeCell ty slot cell :=
  run_call _

@[simp]
theorem run_needRoom (words : Nat) : (needRoom words : Script ω Unit).run = StackM.needRoom words :=
  run_call _

@[simp]
theorem run_alloc (object : ω) : (alloc object).run = StackM.alloc object :=
  run_call _

@[simp]
theorem run_duplicate (handle : Handle) : (duplicate handle : Script ω _).run = StackM.duplicate handle :=
  run_call _

@[simp]
theorem run_release (handle : Handle) : (release handle : Script ω _).run = StackM.release handle :=
  run_call _

@[simp]
theorem run_moveDown (src dst words : Nat) :
    (moveDown src dst words : Script ω Unit).run = StackM.moveDown src dst words :=
  run_call _

@[simp]
theorem run_setOffset (offset : Nat) : (setOffset offset : Script ω Unit).run = StackM.setOffset offset :=
  run_call _

def handleFor : Option ω → Script ω Handle
  | some object => alloc object
  | none => pure Handle.null

def pushObject (object : Option ω) : Script ω Unit := do
  needRoom OperandStack.handleWords
  let handle ← handleFor object
  push .object handle

def popObject : Script ω (Option ω) := do
  let handle ← pop .object
  release handle

def peekObject : Script ω (Option ω) := do
  let used ← usage
  if used.offset < OperandStack.handleWords then
    fail .stackUnderflow
  else
    let handle ← read .object (used.offset - OperandStack.handleWords)
    resolve handle

def pushOperand : (ty : Ty) → Operand ω ty → Script ω Unit
  | .scalar kind, value => push kind value
  | .object, object => pushObject object

def popOperand : (ty : Ty) → Script ω (Operand ω ty)
  | .scalar kind => pop kind
  | .object => popObject

def pushResult : (result : Option Ty) → Result ω result → Script ω Unit
  | some ty, value => pushOperand ty value
  | none, _ => pure ()

def popResult : (result : Option Ty) → Script ω (Result ω result)
  | some ty => popOperand ty
  | none => pure ()

def pushAll : List (Argument ω) → Script ω Unit
  | [] => pure ()
  | argument :: rest => do
    pushOperand argument.ty argument.value
    pushAll rest

@[simp]
theorem run_handleFor (object : Option ω) : (handleFor object).run = StackM.handleFor object := by
  cases object with
  | none => rfl
  | some object => exact run_alloc object

@[simp]
theorem run_pushObject (object : Option ω) : (pushObject object).run = StackM.pushObject object := by
  simp only [pushObject, StackM.pushObject, run_bind, run_needRoom, run_handleFor]
  exact congrArg _ (funext fun _ => congrArg _ (funext fun handle => run_push .object handle))

@[simp]
theorem run_popObject : (popObject : Script ω _).run = StackM.popObject := by
  simp only [popObject, StackM.popObject, run_bind, run_pop]
  exact congrArg _ (funext fun handle => run_release handle)

@[simp]
theorem run_peekObject : (peekObject : Script ω _).run = StackM.peekObject := by
  funext stack
  simp only [peekObject, run_bind]
  change (if stack.offset < OperandStack.handleWords then fail Fault.stackUnderflow else _).run stack = _
  unfold StackM.peekObject OperandStack.topObject
  split
  · rfl
  · change ((read .object _).bind _).run stack = _
    unfold bind
    rw [run_resume, run_read, StackM.readCell]
    cases stack.cellAt .object (stack.offset - OperandStack.handleWords) with
    | error fault => rfl
    | ok handle =>
      change (call (.resolve handle)).run stack = _
      rw [run_call]
      simp only [Access.perform]
      cases stack.handles.get handle <;> rfl

@[simp]
theorem run_pushOperand (ty : Ty) (value : Operand ω ty) :
    (pushOperand ty value).run = StackM.pushOperand ty value := by
  cases ty with
  | scalar kind => exact run_push _ _
  | object => exact run_pushObject value

@[simp]
theorem run_popOperand (ty : Ty) : (popOperand ty : Script ω _).run = StackM.popOperand ty := by
  cases ty with
  | scalar kind => exact run_pop _
  | object => exact run_popObject

@[simp]
theorem run_pushResult (result : Option Ty) (value : Result ω result) :
    (pushResult result value).run = StackM.pushResult result value := by
  cases result with
  | none => rfl
  | some ty => exact run_pushOperand ty value

@[simp]
theorem run_popResult (result : Option Ty) : (popResult result : Script ω _).run = StackM.popResult result := by
  cases result with
  | none => rfl
  | some ty => exact run_popOperand ty

@[simp]
theorem run_pushAll (arguments : List (Argument ω)) : (pushAll arguments).run = StackM.pushAll arguments := by
  induction arguments with
  | nil => rfl
  | cons argument rest ih => simp only [pushAll, StackM.pushAll, run_bind, run_pushOperand, ih]

end Script

end WordMachine
