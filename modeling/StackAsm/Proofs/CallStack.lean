import StackAsm.Proofs.Execution

/-!
# Calls are well bracketed

Reading the calls of a trace as opening and its returns as closing parentheses,
the frames of a machine are exactly the calls that are still open, outermost
last.  Nothing but a matching return removes a frame, so a return finds the
frames as they stood before its call, and a return without an open call fails.
-/

set_option autoImplicit false

namespace StackAsm

theorem Instruction.isReturn_of_isCall {instruction : Instruction}
    (calls : instruction.isCall = true) : instruction.isReturn = false := by
  cases instruction with
  | call target => rfl
  | _ => cases calls

theorem Instruction.isCall_of_isReturn {instruction : Instruction}
    (returns : instruction.isReturn = true) : instruction.isCall = false := by
  cases instruction with
  | ret => rfl
  | _ => cases returns

namespace Machine

def Executed.frame (entry : Executed) : Frame :=
  ⟨entry.index + 1, entry.depth⟩

inductive Balanced : List Executed → Prop where
  | nil : Balanced []
  | other {entry : Executed} {rest : List Executed}
      (noCall : entry.instruction.isCall = false)
      (noReturn : entry.instruction.isReturn = false)
      (later : Balanced rest) : Balanced (entry :: rest)
  | pair {entry back : Executed} {body rest : List Executed}
      (calls : entry.instruction.isCall = true)
      (returns : back.instruction.isReturn = true)
      (inner : Balanced body) (later : Balanced rest) :
      Balanced (entry :: (body ++ back :: rest))

/-- `Unreturned trace calls`: these calls of the trace, in order, are the ones
that no later return matches.  Around them everything is balanced. -/
inductive Unreturned : List Executed → List Executed → Prop where
  | none {trace : List Executed} (settled : Balanced trace) : Unreturned trace []
  | snoc {before after calls : List Executed} {entry : Executed}
      (earlier : Unreturned before calls)
      (opens : entry.instruction.isCall = true)
      (settled : Balanced after) : Unreturned (before ++ entry :: after) (calls ++ [entry])

def callCount (trace : List Executed) : Nat :=
  trace.countP fun entry => entry.instruction.isCall

def returnCount (trace : List Executed) : Nat :=
  trace.countP fun entry => entry.instruction.isReturn

/-! ## Words of calls and returns -/

theorem Balanced.append {first second : List Executed} (before : Balanced first)
    (after : Balanced second) : Balanced (first ++ second) := by
  induction before with
  | nil => exact after
  | other noCall noReturn _ ih => exact .other noCall noReturn ih
  | @pair entry back body rest calls returns inner _ _ ih =>
    have whole := Balanced.pair calls returns inner ih
    simpa using whole

theorem Balanced.counts {trace : List Executed} (balanced : Balanced trace) :
    callCount trace = returnCount trace := by
  unfold callCount returnCount
  induction balanced with
  | nil => rfl
  | other noCall noReturn _ ih =>
    rw [List.countP_cons, List.countP_cons, ih, noCall, noReturn]
  | pair calls returns _ _ inner later =>
    have notBack := Instruction.isReturn_of_isCall calls
    have notCall := Instruction.isCall_of_isReturn returns
    simp only [List.countP_cons, List.countP_append, inner, later, calls, returns, notBack,
      notCall, if_true, Bool.false_eq_true, if_false]
    omega

theorem Unreturned.counts {trace calls : List Executed} (unreturned : Unreturned trace calls) :
    callCount trace = returnCount trace + calls.length := by
  induction unreturned with
  | none settled => exact settled.counts
  | @snoc before after calls entry _ opens settled ih =>
    have notReturn := Instruction.isReturn_of_isCall opens
    have later := settled.counts
    unfold callCount returnCount at ih later ⊢
    rw [List.countP_append, List.countP_append, List.countP_cons, List.countP_cons, ih, later,
      opens, notReturn, List.length_append, List.length_singleton]
    simp only [if_true, Bool.false_eq_true, if_false]
    omega

theorem Unreturned.append_balanced {trace calls later : List Executed}
    (unreturned : Unreturned trace calls) (settled : Balanced later) :
    Unreturned (trace ++ later) calls := by
  cases unreturned with
  | none earlier => exact .none (earlier.append settled)
  | snoc earlier opens between =>
    rw [List.append_assoc, List.cons_append]
    exact .snoc earlier opens (between.append settled)

/-! ## One instruction -/

section Step

variable {options : Options} {program : Program} {machine next : Machine}
  {instruction : Instruction} {before calls : List Executed}

/-- The frames follow the open calls through one more instruction. -/
theorem frames_step (history : Unreturned before calls)
    (frames : machine.frames = (calls.map Executed.frame).reverse)
    (performed : (perform options instruction).run machine = .ok () next) :
    ∃ later, Unreturned (before ++ [⟨machine.pc, instruction, machine.depth⟩]) later ∧
      next.frames = (later.map Executed.frame).reverse := by
  cases opens : instruction.isCall with
  | true =>
    refine ⟨calls ++ [⟨machine.pc, instruction, machine.depth⟩], .snoc history opens .nil, ?_⟩
    rw [frames_of_call opens performed, frames]
    simp [Executed.frame]
  | false =>
    cases returns : instruction.isReturn with
    | true =>
      obtain ⟨frame, popped, _⟩ := frames_of_return returns performed
      rw [frames] at popped
      cases history with
      | none settled => simp at popped
      | @snoc earlier body calls entry earlierCalls entryCalls settled =>
        have closed : Balanced (entry :: (body ++ [⟨machine.pc, instruction, machine.depth⟩])) :=
          .pair entryCalls returns settled .nil
        have whole := earlierCalls.append_balanced closed
        have front : (calls ++ [entry]).map Executed.frame =
            calls.map Executed.frame ++ [entry.frame] := by simp
        rw [front, List.reverse_append, List.reverse_singleton, List.singleton_append] at popped
        exact ⟨calls, by simpa using whole, (List.cons.inj popped).2.symm⟩
    | false =>
      have alone : Balanced [⟨machine.pc, instruction, machine.depth⟩] :=
        .other opens returns .nil
      exact ⟨calls, history.append_balanced alone,
        (frames_of_other opens returns performed).trans frames⟩

/-- A return that finds the frames as its call left them takes both back to
where the call was. -/
theorem return_after_call {calling entered leaving resumed : Machine} {back : Instruction}
    (opens : instruction.isCall = true) (returns : back.isReturn = true)
    (called : (perform options instruction).run calling = .ok () entered)
    (kept : leaving.frames = entered.frames)
    (returned : (perform options back).run leaving = .ok () resumed) :
    resumed.frames = calling.frames ∧ resumed.pc = calling.pc + 1 := by
  have pushed := frames_of_call opens called
  obtain ⟨frame, popped, resumes⟩ := frames_of_return returns returned
  rw [kept, pushed] at popped
  obtain ⟨same, rest⟩ := List.cons.inj popped
  refine ⟨rest.symm, ?_⟩
  rw [resumes, ← same]

end Step

/-! ## Runs -/

section Runs

variable {options : Options} {program : Program} {machine reached : Machine}
  {trace before calls : List Executed}

theorem frames_run (executed : Executes options program machine trace reached)
    (history : Unreturned before calls)
    (frames : machine.frames = (calls.map Executed.frame).reverse) :
    ∃ later, Unreturned (before ++ trace) later ∧
      reached.frames = (later.map Executed.frame).reverse := by
  induction executed generalizing before calls with
  | nil => exact ⟨calls, by simpa using history, frames⟩
  | cons _ _ performed _ ih =>
    obtain ⟨middle, longer, follows⟩ := frames_step history frames performed
    obtain ⟨later, whole, ends⟩ := ih longer follows
    exact ⟨later, by simpa using whole, ends⟩

theorem frames_of_balanced (balanced : Balanced trace)
    (executed : Executes options program machine trace reached) :
    reached.frames = machine.frames := by
  -- The induction is on how the segment is put together, not on its length: the
  -- body of a call is a segment of its own.
  induction balanced generalizing machine reached with
  | nil =>
    cases executed
    rfl
  | other noCall noReturn _ ih =>
    cases executed with
    | cons _ _ performed later =>
      rw [ih later]
      exact frames_of_other noCall noReturn performed
  | pair opens returns _ _ innerIh laterIh =>
    cases executed with
    | cons _ _ called rest =>
      obtain ⟨leaving, body, afterBody⟩ := rest.split
      cases afterBody with
      | cons _ _ returned later =>
        rw [laterIh later]
        exact (return_after_call opens returns called (innerIh body) returned).1

/-- A segment leaves the frames it began with below those of its open calls. -/
theorem frames_of_unreturned (unreturned : Unreturned trace calls)
    (executed : Executes options program machine trace reached) :
    reached.frames = (calls.map Executed.frame).reverse ++ machine.frames := by
  induction unreturned generalizing reached with
  | none settled => simpa using frames_of_balanced settled executed
  | @snoc before after calls entry _ opens settled ih =>
    obtain ⟨calling, earlier, fromCall⟩ := executed.split
    cases fromCall with
    | cons _ _ called later =>
      rw [frames_of_balanced settled later, frames_of_call opens called, ih earlier]
      simp [Executed.frame]

/-- After the return that matches a call, the frames are those before the call
and the run goes on behind it. -/
theorem return_restores {entry back : Executed} {body : List Executed}
    (opens : entry.instruction.isCall = true) (returns : back.instruction.isReturn = true)
    (balanced : Balanced body)
    (executed : Executes options program machine (entry :: (body ++ [back])) reached) :
    reached.frames = machine.frames ∧ reached.pc = entry.index + 1 := by
  cases executed with
  | cons _ _ called rest =>
    obtain ⟨leaving, inner, last⟩ := rest.split
    cases last with
    | cons _ _ returned done =>
      cases done
      exact return_after_call opens returns called (frames_of_balanced balanced inner) returned

/-- A return fails exactly when no call is pending. -/
theorem return_fails_iff (stands : program[reached.pc]? = some .ret)
    (allowed : limitReached? options reached = none) :
    (run options program 1 reached).1 = .faulted ⟨.callStackUnderflow, reached.pc⟩ ↔
      reached.frames = [] := by
  rw [run_succ_of_allowed stands allowed, run_perform, run_ret, fetched_frames]
  cases reached.frames with
  | nil => simp
  | cons frame rest => simp [run]

end Runs

/-! ## Whole runs -/

/-- What a trace tells about the frames of the machine it ends in. -/
structure WellBracketed (options : Options) (program : Program) (start : Machine)
    (trace : List Executed) (reached : Machine) : Prop where
  /-- Every return of the trace matches a call. -/
  matched : ∃ calls, Unreturned trace calls
  /-- The frames, outermost first, are those of the open calls in order. -/
  pending : ∀ calls, Unreturned trace calls → reached.frames.reverse = calls.map Executed.frame
  /-- A return restores the frames that stood before its call, and resumes
  after it. -/
  restored : ∀ before entry body back, trace = before ++ entry :: (body ++ [back]) →
    entry.instruction.isCall = true → Balanced body → back.instruction.isReturn = true →
      ∃ calling, Executes options program start before calling ∧
        reached.frames = calling.frames ∧ reached.pc = entry.index + 1
  /-- The frame of an open call is still the one the call made, on top of the
  frames that stood before it. -/
  untouched : ∀ before entry after later, trace = before ++ entry :: after →
    entry.instruction.isCall = true → Unreturned after later →
      ∃ calling, Executes options program start before calling ∧
        reached.frames =
          (later.map Executed.frame).reverse ++ entry.frame :: calling.frames
  /-- A return that is executed next fails exactly when there are as many
  returns as calls. -/
  underflow : program[reached.pc]? = some .ret → limitReached? options reached = none →
    ((run options program (trace.length + 1) start).1 =
        .faulted ⟨.callStackUnderflow, reached.pc⟩ ↔
      returnCount trace = callCount trace)

theorem wellBracketed_of_executes {options : Options} {program : Program}
    {start reached : Machine} {trace : List Executed} (fresh : start.frames = [])
    (executed : Executes options program start trace reached) :
    WellBracketed options program start trace reached := by
  obtain ⟨openCalls, history, frames⟩ := frames_run executed (.none .nil) (by simpa using fresh)
  rw [List.nil_append] at history
  refine ⟨⟨openCalls, history⟩, ?_, ?_, ?_, ?_⟩
  · intro calls unreturned
    rw [frames_of_unreturned unreturned executed, fresh]
    simp
  · intro before entry body back shape opens balanced returns
    subst shape
    obtain ⟨calling, earlier, segment⟩ := executed.split
    exact ⟨calling, earlier, return_restores opens returns balanced segment⟩
  · intro before entry after later shape opens unreturned
    subst shape
    obtain ⟨calling, earlier, segment⟩ := executed.split
    refine ⟨calling, earlier, ?_⟩
    cases segment with
    | cons _ _ called rest =>
      rw [frames_of_unreturned unreturned rest, frames_of_call opens called]
      rfl
  · intro stands allowed
    have counted := history.counts
    have noneOpen : reached.frames = [] ↔ openCalls.length = 0 := by
      rw [frames]
      simp
    rw [run_add, executed.run]
    dsimp only
    rw [return_fails_iff stands allowed, noneOpen]
    omega

/-- In every state that a run reaches without a fault, the frames are the calls
performed so far that no return has matched. -/
theorem frames_wellBracketed (options : Options) (program : Program) (count : Nat)
    (status : Status) (reached : Machine)
    (ran : run options program count (initial options program) = (status, reached))
    (sound : ∀ fault, status ≠ .faulted fault) :
    ∃ trace, Executes options program (initial options program) trace reached ∧
      trace.length = reached.steps ∧
      WellBracketed options program (initial options program) trace reached := by
  obtain ⟨trace, executed, _⟩ := executes_of_run ran sound
  have counted := executed.steps
  refine ⟨trace, executed, ?_, wellBracketed_of_executes rfl executed⟩
  rw [counted]
  exact (Nat.zero_add _).symm

def nestedCalls : Program :=
  #[.push 7, .call 3, .jump 6, .call 5, .ret, .ret]

theorem frames_wellBracketed_nestedCalls :
    ∃ reached, run {} nestedCalls 3 (initial {} nestedCalls) = (.running, reached) ∧
      reached.frames = [⟨4, 1⟩, ⟨2, 1⟩] ∧
      ∃ trace, Executes {} nestedCalls (initial {} nestedCalls) trace reached ∧
        trace.length = reached.steps ∧
        WellBracketed {} nestedCalls (initial {} nestedCalls) trace reached :=
  ⟨_, rfl, rfl, frames_wellBracketed {} nestedCalls 3 .running _ rfl fun _ same => by cases same⟩

end Machine

end StackAsm
