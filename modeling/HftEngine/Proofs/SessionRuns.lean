/-
Module: HftEngine.Proofs.SessionRuns
Layer: Proofs
Purpose: The session state machine over whole runs: what one call can do, said
  once; when a refusal leaves the session as it was; what a zero timeout does;
  and the sequencing, deadlines and failure of every run whose clock stays away
  from the end of its range.
Imports: HftEngine.Core.Session, HftEngine.Lib.Transition
Trusted boundary: none (fully proved)
Main exports: SessionCall, SessionStateMachine.call, SessionStep, step_of_call,
  session_refusals_keep, zero_timeout_ticks, session_sequencing
-/
import HftEngine.Core.Session
import HftEngine.Lib.Transition

namespace HftEngine

open Machine Transition

/-! ### Calls -/

/-- One call of the machine's interface. -/
inductive SessionCall where
  | handle (event : SessionEvent) (now : U64)
  | tick (now : U64)
deriving DecidableEq, Repr

/-- The time of the caller at which a call is made. -/
def SessionCall.now : SessionCall → U64
  | .handle _ now => now
  | .tick now => now

/-- What the session answers: the state and the deadline after a transition, or
the reason of a refusal. -/
abbrev SessionAnswer := Except SessionError SessionTransition

namespace SessionStateMachine

/-- One call of the session. `none` is the overflow that stops a build with
checks. -/
def call (build : Build) (session : SessionStateMachine) : SessionCall → Option (SessionAnswer × SessionStateMachine)
  | .handle event now => some (session.handle event now)
  | .tick now => session.tick build now

/-- The deadline has been reached. -/
def Due (session : SessionStateMachine) (now : U64) : Prop := ∃ deadline ∈ session.deadline, deadline.val ≤ now.val

instance (session : SessionStateMachine) (now : U64) : Decidable (session.Due now) :=
  inferInstanceAs (Decidable (∃ deadline ∈ session.deadline, deadline.val ≤ now.val))

/-- The timeout a call adds to its clock value, if it gets to adding one. -/
def adds (session : SessionStateMachine) : SessionCall → Option U64
  | .handle .logonSent _ => if session.state = .connecting then some session.config.logonTimeoutTicks else none
  | .handle (.logonAccepted firstSequence) _ =>
      if session.state = .logon ∧ firstSequence.val ≠ 0 then some session.config.heartbeatTimeoutTicks else none
  | .handle (.command sequence) _ =>
      if session.allowsCommands ∧ sequence = session.nextSequence ∧ sequence.val + 1 < 2 ^ 64 then
        some session.config.heartbeatTimeoutTicks
      else none
  | .handle .heartbeatReceived _ =>
      if session.state = .active then some session.config.heartbeatTimeoutTicks else none
  | .tick now => if session.state = .active ∧ session.Due now then some session.config.heartbeatTimeoutTicks else none
  | _ => none

/-- The sum of clock value and timeout that a call computes leaves 64 bits. -/
def Overflows (session : SessionStateMachine) (call : SessionCall) : Prop :=
  ∃ timeout ∈ session.adds call, 2 ^ 64 ≤ call.now.val + timeout.val

/-- The timeout counter can be raised: in a release build it always can,
wrapping around. -/
def CountsOn (build : Build) (session : SessionStateMachine) : Prop :=
  build = .checked → session.heartbeatTimeouts.val + 1 < 2 ^ 32

/-- What a call has stored by the time it adds its timeout. A raised counter
wraps around. -/
def storing (session : SessionStateMachine) : SessionCall → SessionStateMachine
  | .handle (.logonAccepted firstSequence) _ =>
      { session with nextSequence := firstSequence, heartbeatTimeouts := 0 }
  | .handle (.command sequence) _ =>
      { session with nextSequence := sequence + 1, heartbeatTimeouts := 0, state := .active }
  | .tick _ => { session with heartbeatTimeouts := session.heartbeatTimeouts + 1 }
  | _ => session

end SessionStateMachine

open SessionStateMachine

variable {build : Build} {session session' : SessionStateMachine} {call : SessionCall} {answer : SessionAnswer}

/-- Everything a call can do. -/
inductive SessionStep (build : Build) (session : SessionStateMachine) :
    SessionCall → SessionAnswer → SessionStateMachine → Prop
  | refused {event : SessionEvent} {now : U64} (error : SessionError)
      (hadds : session.adds (.handle event now) = none) :
      SessionStep build session (.handle event now) (.error error) session
  | overflowed {call : SessionCall} (hover : session.Overflows call)
      (hcount : ∀ now, call = .tick now → session.CountsOn build) :
      SessionStep build session call (.error .arithmeticOverflow) (session.storing call)
  | idle (now : U64) (hidle : session.Due now →
        session.state ≠ .logon ∧ session.state ≠ .active ∧ session.state ≠ .recovering) :
      SessionStep build session (.tick now) (.ok session.snapshot) session
  | moved {event : SessionEvent} {now : U64} {state : SessionState}
      (hmoved : session.state = .disconnected ∧ event = .connect ∧ state = .connecting ∨
        session.state ≠ .disconnected ∧ session.state ≠ .logout ∧ session.state ≠ .failed ∧
          event = .logoutSent ∧ state = .logout) :
      SessionStep build session (.handle event now) (.ok ⟨state, none⟩) { session with state := state, deadline := none }
  | closed {call : SessionCall} {state : SessionState}
      (hclosed : (∃ now, call = .handle .disconnect now) ∧ session.state ≠ .failed ∧ state = .disconnected ∨
        (∃ now, call = .handle .fail now) ∧ state = .failed ∨
        (∃ now, call = .tick now ∧ session.Due now) ∧ (session.state = .logon ∨ session.state = .recovering) ∧
          state = .failed) :
      SessionStep build session call (.ok ⟨state, none⟩) { session.reset with state := state }
  | logon {now deadline : U64} (hstate : session.state = .connecting)
      (hdeadline : deadline.val = now.val + session.config.logonTimeoutTicks.val) :
      SessionStep build session (.handle .logonSent now) (.ok ⟨.logon, some deadline⟩)
        { session with state := .logon, deadline := some deadline }
  | accepted {firstSequence : SequenceNumber} {now deadline : U64} (hstate : session.state = .logon)
      (hdeadline : deadline.val = now.val + session.config.heartbeatTimeoutTicks.val) :
      SessionStep build session (.handle (.logonAccepted firstSequence) now) (.ok ⟨.active, some deadline⟩)
        { session with
          state := .active, deadline := some deadline, nextSequence := firstSequence, heartbeatTimeouts := 0 }
  | command {next : U64} {now deadline : U64} (hstate : session.allowsCommands = true)
      (hnext : next.val = session.nextSequence.val + 1)
      (hdeadline : deadline.val = now.val + session.config.heartbeatTimeoutTicks.val) :
      SessionStep build session (.handle (.command session.nextSequence) now) (.ok ⟨.active, some deadline⟩)
        { session with state := .active, deadline := some deadline, nextSequence := next, heartbeatTimeouts := 0 }
  | heartbeat {now deadline : U64} (hstate : session.state = .active)
      (hdeadline : deadline.val = now.val + session.config.heartbeatTimeoutTicks.val) :
      SessionStep build session (.handle .heartbeatReceived now) (.ok ⟨.active, some deadline⟩)
        { session with state := .active, deadline := some deadline }
  | lapsed {now deadline : U64} (hstate : session.state = .active) (hdue : session.Due now)
      (hdeadline : deadline.val = now.val + session.config.heartbeatTimeoutTicks.val) :
      SessionStep build session (.tick now) (.ok ⟨.recovering, some deadline⟩)
        { session with state := .recovering, deadline := some deadline, heartbeatTimeouts := session.heartbeatTimeouts + 1 }

/-! ### What a call does -/

/-- Arming either refuses because the deadline cannot be represented and
changes nothing, or enters the state with that deadline. -/
theorem arm_cases {state : SessionState} {timeout now : U64} (h : session.arm state timeout now = (answer, session')) :
    (2 ^ 64 ≤ now.val + timeout.val ∧ answer = .error .arithmeticOverflow ∧ session' = session) ∨
      ∃ deadline : U64, deadline.val = now.val + timeout.val ∧ answer = .ok ⟨state, some deadline⟩ ∧
        session' = { session with state := state, deadline := some deadline } := by
  unfold arm at h
  cases hadd : checkedAdd now timeout with
  | none =>
      rw [hadd] at h
      cases h
      exact .inl ⟨checkedAdd_eq_none.mp hadd, rfl, rfl⟩
  | some deadline =>
      rw [hadd] at h
      cases h
      exact .inr ⟨deadline, checkedAdd_eq_some.mp hadd, rfl, rfl⟩

/-- Commands follow the step relation in the states that allow them. -/
theorem handleCommand_step {sequence : SequenceNumber} {now : U64} (hstate : session.allowsCommands = true)
    (h : session.handleCommand sequence now = (answer, session')) :
    SessionStep build session (.handle (.command sequence) now) answer session' := by
  unfold handleCommand at h
  split at h
  · rename_i hbelow
    cases h
    refine .refused _ (if_neg ?_)
    rintro ⟨_, rfl, _⟩
    omega
  split at h
  · rename_i habove
    cases h
    refine .refused _ (if_neg ?_)
    rintro ⟨_, rfl, _⟩
    omega
  obtain rfl : sequence = session.nextSequence := Fin.ext (by omega)
  cases hnext : checkedAdd session.nextSequence 1 with
  | none =>
      rw [hnext] at h
      rw [checkedAdd_eq_none, Fin.val_one] at hnext
      cases h
      refine .refused _ (if_neg ?_)
      rintro ⟨_, _, hlast⟩
      omega
  | some next =>
      rw [hnext] at h
      simp only at h
      have hval := checkedAdd_eq_some.mp hnext
      rw [Fin.val_one] at hval
      rcases arm_cases h with ⟨hover, rfl, rfl⟩ | ⟨deadline, hdeadline, rfl, rfl⟩
      · have hadds : session.adds (.handle (.command session.nextSequence) now)
            = some session.config.heartbeatTimeoutTicks :=
          if_pos ⟨hstate, rfl, by have := next.isLt; omega⟩
        have hstored : session.nextSequence + 1 = next := by
          refine Fin.ext ?_
          rw [Fin.val_add, Fin.val_one, ← hval, Nat.mod_eq_of_lt next.isLt]
        have hstep := @SessionStep.overflowed build session _ ⟨_, hadds, hover⟩ (by rintro _ ⟨⟩)
        rwa [storing, hstored] at hstep
      · exact .command hstate hval hdeadline

/-- A refusal for a reason of its own follows it too: nothing changes. -/
theorem refuse_step {event : SessionEvent} {now : U64} {error : SessionError}
    (hadds : session.adds (.handle event now) = none) (h : session.refuse error = (answer, session')) :
    SessionStep build session (.handle event now) answer session' := by
  cases h
  exact .refused error hadds

/-- Every event follows the step relation, whatever the state. -/
theorem handle_step {event : SessionEvent} {now : U64} (h : session.handle event now = (answer, session')) :
    SessionStep build session (.handle event now) answer session' := by
  unfold handle at h
  cases event with
  | connect =>
      cases hstate : session.state <;> simp only [hstate] at h
      case disconnected =>
        cases h
        exact .moved (.inl ⟨hstate, rfl, rfl⟩)
      all_goals exact refuse_step rfl h
  | logonSent =>
      cases hstate : session.state <;> simp only [hstate] at h
      case connecting =>
        rcases arm_cases h with ⟨hover, rfl, rfl⟩ | ⟨deadline, hdeadline, rfl, rfl⟩
        · exact .overflowed ⟨_, if_pos hstate, hover⟩ (by rintro _ ⟨⟩)
        · exact .logon hstate hdeadline
      all_goals exact refuse_step (if_neg (by simp [hstate])) h
  | logonAccepted firstSequence =>
      cases hstate : session.state <;> simp only [hstate] at h
      case logon =>
        split at h
        · rename_i hzero
          exact refuse_step (if_neg fun hadds => hadds.2 hzero) h
        rename_i hfirst
        rcases arm_cases h with ⟨hover, rfl, rfl⟩ | ⟨deadline, hdeadline, rfl, rfl⟩
        · have hadds : session.adds (.handle (.logonAccepted firstSequence) now)
              = some session.config.heartbeatTimeoutTicks := if_pos ⟨hstate, hfirst⟩
          have hstep := @SessionStep.overflowed build session (.handle (.logonAccepted firstSequence) now)
            ⟨_, hadds, hover⟩ (by rintro _ ⟨⟩)
          rwa [storing, hstate] at hstep
        · exact .accepted hstate hdeadline
      all_goals exact refuse_step (if_neg (by simp [hstate])) h
  | command sequence =>
      cases hstate : session.state <;> simp only [hstate] at h
      case active => exact handleCommand_step (by simp [allowsCommands, hstate]) h
      case recovering => exact handleCommand_step (by simp [allowsCommands, hstate]) h
      all_goals exact refuse_step (if_neg (by simp [allowsCommands, hstate])) h
  | heartbeatReceived =>
      cases hstate : session.state <;> simp only [hstate] at h
      case active =>
        rcases arm_cases h with ⟨hover, rfl, rfl⟩ | ⟨deadline, hdeadline, rfl, rfl⟩
        · exact .overflowed ⟨_, if_pos hstate, hover⟩ (by rintro _ ⟨⟩)
        · exact .heartbeat hstate hdeadline
      all_goals exact refuse_step (if_neg (by simp [hstate])) h
  | logoutSent =>
      cases hstate : session.state <;> simp only [hstate] at h
      case disconnected | logout | failed => exact refuse_step rfl h
      all_goals
        cases h
        exact .moved (.inr (by simp [hstate]))
  | disconnect =>
      cases hstate : session.state <;> simp only [hstate] at h
      case failed => exact refuse_step rfl h
      all_goals
        cases h
        exact .closed (.inl ⟨⟨now, rfl⟩, by simp [hstate], rfl⟩)
  | fail =>
      cases hstate : session.state <;> simp only [hstate] at h
      all_goals
        cases h
        exact .closed (.inr (.inl ⟨⟨now, rfl⟩, rfl⟩))

/-- Every tick that returns follows the step relation. -/
theorem tick_step {now : U64} (h : session.tick build now = some (answer, session')) :
    SessionStep build session (.tick now) answer session' := by
  unfold tick at h
  cases hdeadline : session.deadline with
  | none =>
      rw [hdeadline] at h
      cases h
      exact .idle now fun ⟨_, hsome, _⟩ => by simp [hdeadline] at hsome
  | some deadline =>
      rw [hdeadline] at h
      simp only at h
      split at h
      · rename_i hearly
        cases h
        refine .idle now ?_
        rintro ⟨found, hfound, hdue⟩
        rw [hdeadline, Option.mem_some] at hfound
        subst hfound
        omega
      rename_i hreached
      have hdue : session.Due now := ⟨deadline, hdeadline, by omega⟩
      cases hstate : session.state <;> simp only [hstate] at h
      case logon =>
        cases h
        exact .closed (.inr (.inr ⟨⟨now, rfl, hdue⟩, .inl hstate, rfl⟩))
      case active =>
        cases hcount : addAssign build session.heartbeatTimeouts 1 with
        | none =>
            rw [hcount] at h
            cases h
        | some timeouts =>
            obtain ⟨rfl, hcounts⟩ := addAssign_eq_some.mp hcount
            rw [hcount] at h
            simp only [Option.bind_eq_bind, Option.bind_some, Option.pure_def] at h
            cases hadd : checkedAdd now session.config.heartbeatTimeoutTicks with
            | none =>
                rw [hadd] at h
                cases h
                have hadds : session.adds (.tick now) = some session.config.heartbeatTimeoutTicks :=
                  if_pos ⟨hstate, hdue⟩
                have hstep := @SessionStep.overflowed build session _ ⟨_, hadds, checkedAdd_eq_none.mp hadd⟩
                  (fun _ _ => hcounts)
                rwa [storing, hstate, hdeadline] at hstep
            | some later =>
                rw [hadd] at h
                cases h
                exact .lapsed hstate hdue (checkedAdd_eq_some.mp hadd)
      case recovering =>
        cases hcount : addAssign build session.heartbeatTimeouts 1 with
        | none =>
            rw [hcount] at h
            cases h
        | some timeouts =>
            rw [hcount] at h
            cases h
            exact .closed (.inr (.inr ⟨⟨now, rfl, hdue⟩, .inr hstate, rfl⟩))
      all_goals
        cases h
        exact .idle now fun _ => by simp [hstate]

/-- Every call takes one of the steps. -/
theorem step_of_call (h : session.call build call = some (answer, session')) :
    SessionStep build session call answer session' := by
  cases call with
  | handle event now => exact handle_step (Option.some.inj h)
  | tick now => exact tick_step h

/-- A deadline that is there is not out of range. -/
theorem sum_fits {now timeout deadline : U64} (h : deadline.val = now.val + timeout.val) :
    ¬2 ^ 64 ≤ now.val + timeout.val := by
  have hbound := deadline.isLt
  omega

/-- An answered call did not overflow. -/
theorem SessionStep.clear {transition : SessionTransition}
    (h : SessionStep build session call (.ok transition) session') : ¬session.Overflows call := by
  rintro ⟨timeout, hadds, hover⟩
  cases h with
  | idle now hidle =>
      simp only [adds, Option.mem_def, Option.ite_some_none_eq_some] at hadds
      exact (hidle hadds.1.2).2.1 hadds.1.1
  | moved hmoved =>
      rcases hmoved with ⟨_, rfl, _⟩ | ⟨_, _, _, rfl, _⟩ <;> cases hadds
  | closed hclosed =>
      rcases hclosed with ⟨⟨now, rfl⟩, _⟩ | ⟨⟨now, rfl⟩, _⟩ | ⟨⟨now, rfl, _⟩, hstate, _⟩
      · cases hadds
      · cases hadds
      · simp only [adds, Option.mem_def, Option.ite_some_none_eq_some] at hadds
        rw [hadds.1.1] at hstate
        simp at hstate
  | logon _ hdeadline =>
      obtain ⟨_, rfl⟩ := Option.ite_some_none_eq_some.mp hadds
      exact sum_fits hdeadline hover
  | accepted _ hdeadline =>
      obtain ⟨_, rfl⟩ := Option.ite_some_none_eq_some.mp hadds
      exact sum_fits hdeadline hover
  | command _ _ hdeadline =>
      obtain ⟨_, rfl⟩ := Option.ite_some_none_eq_some.mp hadds
      exact sum_fits hdeadline hover
  | heartbeat _ hdeadline =>
      obtain ⟨_, rfl⟩ := Option.ite_some_none_eq_some.mp hadds
      exact sum_fits hdeadline hover
  | lapsed _ _ hdeadline =>
      obtain ⟨_, rfl⟩ := Option.ite_some_none_eq_some.mp hadds
      exact sum_fits hdeadline hover

/-- A refused call stored nothing, or overflowed after storing. -/
theorem SessionStep.refusal {error : SessionError} (h : SessionStep build session call (.error error) session') :
    session.adds call = none ∧ session' = session ∨
      session.Overflows call ∧ session' = session.storing call ∧
        ∀ now, call = .tick now → session.CountsOn build := by
  cases h with
  | refused _ hadds => exact .inl ⟨hadds, rfl⟩
  | overflowed hover hcount => exact .inr ⟨hover, rfl, hcount⟩

/-! ### Refusals -/

/-- The calls that change a stored field before they add their timeout: a
command, a logon with another first sequence, and a tick whose counter can
count on. In a release build every tick's counter can, since the last value
wraps to zero. -/
def SessionStateMachine.StoresFirst (build : Build) (session : SessionStateMachine) : SessionCall → Prop
  | .handle (.logonAccepted firstSequence) _ => firstSequence ≠ session.nextSequence
  | .handle (.command _) _ => True
  | .tick _ => session.CountsOn build
  | _ => False

/-- Before its first command a session has counted no timeouts. -/
def SessionStateMachine.Uncounted (session : SessionStateMachine) : Prop :=
  session.state = .disconnected ∨ session.state = .connecting ∨ session.state = .logon →
    session.heartbeatTimeouts = 0

/-- No step counts a timeout before the session has logged on. -/
theorem SessionStep.uncounted (h : SessionStep build session call answer session') (huncounted : session.Uncounted) :
    session'.Uncounted := by
  unfold Uncounted at *
  cases h with
  | refused => exact huncounted
  | @overflowed call hover _ =>
      obtain ⟨timeout, hadds, _⟩ := hover
      cases call with
      | tick now =>
          obtain ⟨⟨hactive, _⟩, _⟩ := Option.ite_some_none_eq_some.mp hadds
          simp [storing, hactive]
      | handle event now =>
          cases event with
          | command sequence => simp [storing]
          | logonAccepted firstSequence => simp [storing]
          | _ => exact huncounted
  | idle => exact huncounted
  | moved hmoved =>
      rcases hmoved with ⟨hstate, _, rfl⟩ | ⟨_, _, _, _, rfl⟩
      · exact fun _ => huncounted (.inl hstate)
      · simp
  | closed => exact fun _ => rfl
  | logon hstate => exact fun _ => huncounted (.inr (.inl hstate))
  | accepted => exact fun _ => rfl
  | command => exact fun _ => rfl
  | heartbeat => simp
  | lapsed => simp

/-- Whatever the run, a session that has not logged on yet has counted no
timeouts. -/
theorem run_uncounted {config : SessionConfig} {calls : List SessionCall} {answers : List SessionAnswer}
    (hrun : run (SessionStateMachine.call build) (SessionStateMachine.new config) calls = some (answers, session)) :
    session.Uncounted :=
  run_invariant (P := fun _ => True) (fun huncounted _ hcall => (step_of_call hcall).uncounted huncounted)
    (fun _ _ => trivial) (fun _ => rfl) hrun

/-- A word of more than one value never equals its wrapping successor. -/
theorem ne_add_one {n : Nat} [NeZero n] (hn : 1 < n) (a : Fin n) : a + 1 ≠ a := by
  intro heq
  have hval := congrArg Fin.val heq
  rw [Fin.val_add, Fin.val_one', Nat.add_mod_mod] at hval
  rcases Nat.lt_or_ge (a.val + 1) n with hlt | hge
  · rw [Nat.mod_eq_of_lt hlt] at hval
    omega
  · have hlast : a.val + 1 = n := Nat.le_antisymm a.isLt hge
    rw [hlast, Nat.mod_self] at hval
    omega

/-- When what an overflowing call stored is a change. -/
theorem storing_eq_iff (huncounted : session.Uncounted) (hover : session.Overflows call)
    (hcount : ∀ now, call = .tick now → session.CountsOn build) :
    session.storing call = session ↔ ¬session.StoresFirst build call := by
  obtain ⟨timeout, hadds, _⟩ := hover
  cases call with
  | tick now =>
      have hnext := hcount now rfl
      simp only [StoresFirst, hnext, not_true_eq_false, iff_false]
      intro hsame
      exact ne_add_one (by norm_num) _ (congrArg heartbeatTimeouts hsame)
  | handle event now =>
      cases event with
      | command sequence =>
          obtain ⟨⟨_, rfl, _⟩, _⟩ := Option.ite_some_none_eq_some.mp hadds
          simp only [StoresFirst, not_true_eq_false, iff_false]
          intro hsame
          exact ne_add_one (by norm_num) _ (congrArg SessionStateMachine.nextSequence hsame)
      | logonAccepted firstSequence =>
          obtain ⟨⟨hlogon, _⟩, _⟩ := Option.ite_some_none_eq_some.mp hadds
          have hzero := huncounted (.inr (.inr hlogon))
          simp only [StoresFirst, ne_eq, not_not]
          constructor
          · exact congrArg SessionStateMachine.nextSequence
          · rintro rfl
            rw [storing, ← hzero]
      | _ => simp [storing, StoresFirst]

/-- A call with something to add returns, unless its counter is exhausted. -/
theorem call_of_adds {timeout : U64} (hadds : timeout ∈ session.adds call)
    (hcount : ∀ now, call = .tick now → session.CountsOn build) :
    ∃ answer session', session.call build call = some (answer, session') := by
  cases call with
  | handle event now => exact ⟨_, _, rfl⟩
  | tick now =>
      obtain ⟨⟨hactive, deadline, hdeadline, hdue⟩, _⟩ := Option.ite_some_none_eq_some.mp hadds
      have hnext := hcount now rfl
      have hadd : addAssign build session.heartbeatTimeouts 1 = some (session.heartbeatTimeouts + 1) :=
        addAssign_eq_some.mpr ⟨rfl, hnext⟩
      simp only [SessionStateMachine.call, tick, Option.mem_def.mp hdeadline, hactive, hadd, Option.bind_eq_bind,
        Option.bind_some, Option.pure_def, if_neg (Nat.not_lt.mpr hdue)]
      cases checkedAdd now session.config.heartbeatTimeoutTicks with
      | none => exact ⟨_, _, rfl⟩
      | some later => exact ⟨_, _, rfl⟩

/-- A refusal leaves a reachable session as it was, exactly when its call does
not overflow after it stored a change. -/
theorem session_refusals_keep {config : SessionConfig} {calls : List SessionCall} {answers : List SessionAnswer}
    (hrun : run (SessionStateMachine.call build) (SessionStateMachine.new config) calls = some (answers, session))
    (call : SessionCall) :
    (∀ error session', session.call build call = some (.error error, session') → session' = session) ↔
      ¬(session.Overflows call ∧ session.StoresFirst build call) := by
  have huncounted := run_uncounted hrun
  constructor
  · rintro hkept ⟨hover, hstores⟩
    have hcount : ∀ now, call = .tick now → session.CountsOn build := by
      rintro now rfl
      exact hstores
    obtain ⟨timeout, hadds, _⟩ := id hover
    obtain ⟨answer, session', hcall⟩ := call_of_adds hadds hcount
    cases answer with
    | ok transition => exact (step_of_call hcall).clear hover
    | error error =>
        rcases (step_of_call hcall).refusal with ⟨hnone, _⟩ | ⟨_, hstored, _⟩
        · rw [hnone] at hadds
          cases hadds
        · rw [hkept error session' hcall] at hstored
          exact (storing_eq_iff huncounted hover hcount).mp hstored.symm hstores
  · intro hclear error session' hcall
    rcases (step_of_call hcall).refusal with ⟨_, hsame⟩ | ⟨hover, hstored, hcount⟩
    · exact hsame
    · rw [hstored]
      exact (storing_eq_iff huncounted hover hcount).mpr fun hstores => hclear ⟨hover, hstores⟩

/-- A session that connected and logged on at tick zero, with commands from
one. -/
def loggedOn : List SessionCall := [.handle .connect 0, .handle .logonSent 0, .handle (.logonAccepted 1) 0]

/-- The session those calls reach: active until its first heartbeat is missed
at tick fifty. -/
def activeSession : SessionStateMachine :=
  { SessionStateMachine.new ⟨100, 50⟩ with state := .active, deadline := some 50 }

theorem loggedOn_returns : ∃ answers,
    run (SessionStateMachine.call .release) (SessionStateMachine.new ⟨100, 50⟩) loggedOn = some (answers, activeSession) :=
  ⟨_, rfl⟩

/-- The last representable tick. -/
def lastTick : U64 := ⟨2 ^ 64 - 1, by norm_num⟩

/-- At the last tick a command is refused for its deadline, after the session
has counted it. -/
theorem refused_command_advances : ∃ answers session session',
    run (SessionStateMachine.call .release) (SessionStateMachine.new ⟨100, 50⟩) loggedOn = some (answers, session) ∧
      session.call .release (.handle (.command 1) lastTick) = some (.error .arithmeticOverflow, session') ∧
      session' ≠ session :=
  ⟨_, _, _, rfl, rfl, by decide⟩

/-- In the release build the refusal of a command out of order leaves the
session as it was, and the refusal of the next command at the last tick does
not. -/
theorem session_refusals_keep_sample : ∃ answers session,
    run (SessionStateMachine.call .release) (SessionStateMachine.new ⟨100, 50⟩) loggedOn = some (answers, session) ∧
      (∀ error session', session.call .release (.handle (.command 2) 0) = some (.error error, session') →
        session' = session) ∧
      ¬∀ error session', session.call .release (.handle (.command 1) lastTick) = some (.error error, session') →
        session' = session := by
  obtain ⟨answers, hrun⟩ := loggedOn_returns
  refine ⟨answers, activeSession, hrun, (session_refusals_keep hrun _).mpr ?_, ?_⟩
  · rintro ⟨⟨timeout, hadds, _⟩, _⟩
    have hnone : activeSession.adds (.handle (.command 2) 0) = none := rfl
    rw [hnone] at hadds
    cases hadds
  · exact fun hkept => (session_refusals_keep hrun _).mp hkept ⟨⟨50, rfl, by decide⟩, trivial⟩

/-! ### Zero timeouts -/

theorem SessionStep.config_eq (h : SessionStep build session call answer session') :
    session'.config = session.config := by
  cases h with
  | @overflowed call _ _ =>
      cases call with
      | tick now => rfl
      | handle event now => cases event <;> rfl
  | _ => rfl

/-- The timeouts of a session are those it was made with. -/
theorem run_config {config : SessionConfig} {calls : List SessionCall} {answers : List SessionAnswer}
    (hrun : run (SessionStateMachine.call build) (SessionStateMachine.new config) calls = some (answers, session)) :
    session.config = config := by
  have keeps : ∀ {before after : SessionStateMachine} {call : SessionCall} {answer : SessionAnswer},
      before.config = config → True → before.call build call = some (answer, after) → after.config = config :=
    fun hconfig _ hcall => (step_of_call hcall).config_eq.trans hconfig
  exact @run_invariant _ _ _ _ _ _ _ _ (fun session => session.config = config) _ keeps (fun _ _ => trivial) rfl hrun

/-- The ticks all return, and the session stays in one state at every one of
them. -/
def StaysIn (build : Build) (state : SessionState) (session : SessionStateMachine) (nows : List U64) : Prop :=
  ∀ earlier, earlier <+: nows → ∃ answers session',
    run (SessionStateMachine.call build) session (earlier.map .tick) = some (answers, session') ∧ session'.state = state

/-- A tick before the deadline answers the state and changes nothing. -/
theorem tick_early {now : U64} (h : ¬session.Due now) :
    session.tick build now = some (.ok session.snapshot, session) := by
  unfold tick
  cases hdeadline : session.deadline with
  | none => rfl
  | some deadline => exact if_pos (Nat.not_le.mp fun hdue => h ⟨deadline, hdeadline, hdue⟩)

/-- A session that leaves its state with its deadline stays there exactly until
then. -/
theorem staysIn_iff {state : SessionState} (hstate : session.state = state)
    (hleaves : ∀ {now answer session'}, session.Due now → session.tick build now = some (answer, session') →
      session'.state ≠ state) (nows : List U64) :
    StaysIn build state session nows ↔ ∀ now ∈ nows, ¬session.Due now := by
  induction nows with
  | nil =>
      simp only [List.not_mem_nil, false_implies, implies_true, iff_true]
      intro earlier hearlier
      obtain rfl := List.prefix_nil.mp hearlier
      exact ⟨[], session, rfl, hstate⟩
  | cons now nows ih =>
      rw [List.forall_mem_cons, ← ih]
      constructor
      · intro hstays
        have hearly : ¬session.Due now := by
          intro hdue
          obtain ⟨answers, session', hrun, hstay⟩ := hstays [now] (by simp)
          obtain ⟨answer, rest, middle, hcall, hrest, _⟩ := run_cons.mp hrun
          cases hrest
          exact hleaves hdue hcall hstay
        refine ⟨hearly, ?_⟩
        intro earlier hearlier
        obtain ⟨answers, session', hrun, hstay⟩ := hstays (now :: earlier) (List.cons_prefix_cons.mpr ⟨rfl, hearlier⟩)
        obtain ⟨answer, rest, middle, hcall, hrest, _⟩ := run_cons.mp hrun
        rw [SessionStateMachine.call, tick_early hearly] at hcall
        cases hcall
        exact ⟨rest, session', hrest, hstay⟩
      · rintro ⟨hearly, hstays⟩ earlier hearlier
        cases earlier with
        | nil => exact ⟨[], session, rfl, hstate⟩
        | cons first earlier =>
            obtain ⟨rfl, hshorter⟩ := List.cons_prefix_cons.mp hearlier
            obtain ⟨answers, session', hrun, hstay⟩ := hstays earlier hshorter
            exact ⟨_, session', run_cons.mpr ⟨_, _, session, tick_early hearly, hrun, rfl⟩, hstay⟩

/-- A session waiting for its logon leaves that state with its deadline. -/
theorem logon_leaves {now : U64} (hstate : session.state = .logon) (hdue : session.Due now)
    (h : session.tick build now = some (answer, session')) : session'.state ≠ .logon := by
  cases tick_step h with
  | overflowed hover _ =>
      obtain ⟨_, hadds, _⟩ := hover
      obtain ⟨⟨hactive, _⟩, _⟩ := Option.ite_some_none_eq_some.mp hadds
      simp [hstate] at hactive
  | idle _ hidle => exact absurd hstate (hidle hdue).1
  | closed hclosed =>
      rcases hclosed with ⟨⟨_, hcall⟩, _⟩ | ⟨⟨_, hcall⟩, _⟩ | ⟨_, _, rfl⟩
      · cases hcall
      · cases hcall
      · simp
  | lapsed hactive => simp [hstate] at hactive

/-- An active session without a heartbeat timeout leaves that state with its
deadline. -/
theorem active_leaves {now : U64} (hzero : session.config.heartbeatTimeoutTicks = 0)
    (hstate : session.state = .active) (hdue : session.Due now) (h : session.tick build now = some (answer, session')) :
    session'.state ≠ .active := by
  cases tick_step h with
  | overflowed hover _ =>
      obtain ⟨timeout, hadds, hsum⟩ := hover
      obtain ⟨_, rfl⟩ := Option.ite_some_none_eq_some.mp hadds
      have hbound := now.isLt
      simp only [SessionCall.now, hzero, Fin.val_zero, Nat.add_zero] at hsum
      omega
  | idle _ hidle => exact absurd hstate (hidle hdue).2.1
  | closed hclosed =>
      rcases hclosed with ⟨⟨_, hcall⟩, _⟩ | ⟨⟨_, hcall⟩, _⟩ | ⟨_, _, rfl⟩
      · cases hcall
      · cases hcall
      · simp
  | lapsed => simp

/-- A zero timeout arms a deadline like any other: ticks leave a session
waiting for its logon, or active, exactly while they come before the
deadline. -/
theorem zero_timeout_ticks {config : SessionConfig} {calls : List SessionCall} {answers : List SessionAnswer}
    (hrun : run (SessionStateMachine.call build) (SessionStateMachine.new config) calls = some (answers, session))
    (nows : List U64) :
    (config.logonTimeoutTicks = 0 → session.state = .logon →
      (StaysIn build .logon session nows ↔ ∀ now ∈ nows, ¬session.Due now)) ∧
    (config.heartbeatTimeoutTicks = 0 → session.state = .active →
      (StaysIn build .active session nows ↔ ∀ now ∈ nows, ¬session.Due now)) := by
  constructor
  · intro _ hstate
    exact staysIn_iff hstate (fun hdue htick => logon_leaves hstate hdue htick) nows
  · intro hzero hstate
    rw [← run_config hrun] at hzero
    exact staysIn_iff hstate (fun hdue htick => active_leaves hzero hstate hdue htick) nows

/-- A session without a logon timeout that sends its logon at tick five. -/
def loggingOn : SessionStateMachine :=
  { SessionStateMachine.new ⟨0, 50⟩ with state := .logon, deadline := some 5 }

theorem loggingOn_reached : ∃ answers, run (SessionStateMachine.call .release) (SessionStateMachine.new ⟨0, 50⟩)
    [.handle .connect 5, .handle .logonSent 5] = some (answers, loggingOn) :=
  ⟨_, rfl⟩

/-- With a logon timeout of zero, the tick at which the logon is sent already
fails the session. -/
theorem zero_logon_timeout_fires :
    (∃ answers, run (SessionStateMachine.call .release) (SessionStateMachine.new ⟨0, 50⟩)
      [.handle .connect 5, .handle .logonSent 5] = some (answers, loggingOn)) ∧
    loggingOn.state = .logon ∧ ¬StaysIn .release .logon loggingOn [5] := by
  refine ⟨loggingOn_reached, rfl, ?_⟩
  intro hstays
  obtain ⟨answers, session, hrun, hstate⟩ := hstays [5] (List.prefix_refl _)
  cases hrun
  cases hstate

/-- Ticks before the logon was sent do not reach the deadline. -/
theorem zero_timeout_ticks_sample :
    StaysIn .release .logon loggingOn [3, 4] ↔ ∀ now ∈ [(3 : U64), 4], ¬loggingOn.Due now := by
  obtain ⟨answers, hrun⟩ := loggingOn_reached
  exact (zero_timeout_ticks hrun [3, 4]).1 rfl rfl

/-! ### Sequencing -/

/-- A run in which no sum of clock value and timeout leaves 64 bits. -/
def ClearRun (build : Build) (session : SessionStateMachine) (calls : List SessionCall) : Prop :=
  ∀ before call after answers middle, calls = before ++ call :: after →
    run (SessionStateMachine.call build) session before = some (answers, middle) → ¬middle.Overflows call

/-- The first call of a clear run does not overflow. -/
theorem ClearRun.head {calls : List SessionCall} (h : ClearRun build session (call :: calls)) :
    ¬session.Overflows call :=
  h [] call calls [] session rfl rfl

/-- What follows it is a clear run again. -/
theorem ClearRun.tail {calls : List SessionCall} (h : ClearRun build session (call :: calls))
    (hcall : session.call build call = some (answer, session')) : ClearRun build session' calls := by
  intro before next after answers middle hcalls hrun
  refine h (call :: before) next after (answer :: answers) middle ?_ ?_
  · rw [hcalls, List.cons_append]
  · exact run_cons.mpr ⟨answer, answers, session', hcall, hrun, rfl⟩

theorem ClearRun.nil : ClearRun build session [] := by
  intro before call after answers middle hcalls
  simp at hcalls

/-- A call that does not overflow may stand before a clear run. -/
theorem ClearRun.cons {calls : List SessionCall} (hcall : session.call build call = some (answer, session'))
    (hhead : ¬session.Overflows call) (htail : ClearRun build session' calls) :
    ClearRun build session (call :: calls) := by
  intro before next after answers middle hcalls hrun
  cases before with
  | nil =>
      cases hcalls
      cases hrun
      exact hhead
  | cons first before =>
      obtain ⟨rfl, hrestCalls⟩ := List.cons.inj hcalls
      obtain ⟨answer', rest, reached, hfirst, hrest, _⟩ := run_cons.mp hrun
      cases hcall.symm.trans hfirst
      exact htail before next after rest middle hrestCalls hrest

/-- The sequence of a command that was answered. -/
def acceptedCommand : SessionCall × SessionAnswer → Option SequenceNumber
  | (.handle (.command sequence) _, .ok _) => some sequence
  | _ => none

/-- The sequences of the answered commands of a history, in order. -/
def acceptedCommands (history : List (SessionCall × SessionAnswer)) : List SequenceNumber :=
  history.filterMap acceptedCommand

/-- A deadline is armed exactly while a session waits for its logon, is active
or recovers. -/
def SessionStateMachine.Armed (session : SessionStateMachine) : Prop :=
  session.deadline.isSome = true ↔ session.state = .logon ∨ session.state = .active ∨ session.state = .recovering

/-- Timeouts counted while nothing overflows: none while active, one while
recovering. -/
structure SessionStateMachine.Counted (session : SessionStateMachine) : Prop where
  active : session.state = .active → session.heartbeatTimeouts.val = 0
  recovering : session.state = .recovering → session.heartbeatTimeouts.val = 1

/-- While nothing overflows, a step leaves a deadline exactly in the states
that wait for something. -/
theorem SessionStep.armed (h : SessionStep build session call answer session') (hclear : ¬session.Overflows call)
    (harmed : session.Armed) : session'.Armed := by
  unfold Armed at *
  cases h with
  | refused => exact harmed
  | overflowed hover => exact absurd hover hclear
  | idle => exact harmed
  | moved hmoved =>
      rcases hmoved with ⟨_, _, rfl⟩ | ⟨_, _, _, _, rfl⟩ <;> simp
  | closed hclosed =>
      rcases hclosed with ⟨_, _, rfl⟩ | ⟨_, rfl⟩ | ⟨_, _, rfl⟩ <;> simp [reset]
  | logon => simp
  | accepted => simp
  | command => simp
  | heartbeat => simp
  | lapsed => simp

/-- While nothing overflows, an active session has counted no timeout and a
recovering one exactly one. -/
theorem SessionStep.counted (h : SessionStep build session call answer session') (hclear : ¬session.Overflows call)
    (hcounted : session.Counted) : session'.Counted := by
  cases h with
  | refused => exact hcounted
  | overflowed hover => exact absurd hover hclear
  | idle => exact hcounted
  | moved hmoved =>
      rcases hmoved with ⟨_, _, rfl⟩ | ⟨_, _, _, _, rfl⟩ <;> exact ⟨by simp, by simp⟩
  | closed hclosed =>
      rcases hclosed with ⟨_, _, rfl⟩ | ⟨_, rfl⟩ | ⟨_, _, rfl⟩ <;> exact ⟨by simp, by simp⟩
  | logon => exact ⟨by simp, by simp⟩
  | accepted => exact ⟨fun _ => rfl, by simp⟩
  | command => exact ⟨fun _ => rfl, by simp⟩
  | heartbeat hstate => exact ⟨fun _ => hcounted.active hstate, by simp⟩
  | lapsed hstate =>
      refine ⟨by simp, fun _ => ?_⟩
      show (session.heartbeatTimeouts + 1).val = 1
      rw [Fin.val_add, hcounted.active hstate]
      rfl

/-- What every clear step keeps, a clear run keeps. -/
theorem run_clear {Inv : SessionStateMachine → Prop} {calls : List SessionCall} {answers : List SessionAnswer}
    (keeps : ∀ {session session' call answer}, SessionStep build session call answer session' → ¬session.Overflows call →
      Inv session → Inv session')
    (hclear : ClearRun build session calls) (hsession : Inv session)
    (hrun : run (SessionStateMachine.call build) session calls = some (answers, session')) : Inv session' := by
  have hkeeps : ∀ {session session' : SessionStateMachine} {call : SessionCall} {answer : SessionAnswer},
      Inv session → ¬session.Overflows call → session.call build call = some (answer, session') → Inv session' :=
    fun hinv hok hcall => keeps (step_of_call hcall) hok hinv
  exact run_invariant_of hkeeps hclear hsession hrun

/-- A session that counts right can raise its counter in either build. -/
theorem SessionStateMachine.Counted.counts (hcounted : session.Counted)
    (hstate : session.state = .active ∨ session.state = .recovering) :
    addAssign build session.heartbeatTimeouts 1 = some (session.heartbeatTimeouts + 1) := by
  refine addAssign_eq_some.mpr ⟨rfl, fun _ => ?_⟩
  have hcount : session.heartbeatTimeouts.val ≤ 1 := by
    rcases hstate with hactive | hrecovering
    · rw [hcounted.active hactive]
      exact Nat.zero_le 1
    · rw [hcounted.recovering hrecovering]
  have hone : (1 : U32).val = 1 := rfl
  omega

/-- A session that counts right answers every tick. -/
theorem tick_returns (hcounted : session.Counted) (now : U64) :
    ∃ answer session', session.tick build now = some (answer, session') := by
  unfold tick
  cases session.deadline with
  | none => exact ⟨_, _, rfl⟩
  | some deadline =>
      simp only
      split
      · exact ⟨_, _, rfl⟩
      cases hstate : session.state with
      | active =>
          simp only [hcounted.counts (.inl hstate), Option.bind_eq_bind, Option.bind_some]
          cases checkedAdd now session.config.heartbeatTimeoutTicks with
          | none => exact ⟨_, _, rfl⟩
          | some later => exact ⟨_, _, rfl⟩
      | recovering =>
          simp only [hcounted.counts (.inr hstate), Option.bind_eq_bind, Option.bind_some]
          exact ⟨_, _, rfl⟩
      | _ => exact ⟨_, _, rfl⟩

/-- While commands are allowed, a step takes the next sequence with a command
or takes none. -/
theorem SessionStep.sequence (h : SessionStep build session call answer session') (hclear : ¬session.Overflows call)
    (hallows : session.allowsCommands = true) (hallows' : session'.allowsCommands = true) :
    (acceptedCommand (call, answer) = some session.nextSequence ∧
        session'.nextSequence.val = session.nextSequence.val + 1) ∨
      (acceptedCommand (call, answer) = none ∧ session'.nextSequence = session.nextSequence) := by
  simp only [allowsCommands, decide_eq_true_eq] at hallows hallows'
  cases h with
  | @refused event now error hadds =>
      refine .inr ⟨?_, rfl⟩
      cases event <;> rfl
  | overflowed hover => exact absurd hover hclear
  | idle => exact .inr ⟨rfl, rfl⟩
  | moved hmoved =>
      rcases hmoved with ⟨_, _, rfl⟩ | ⟨_, _, _, _, rfl⟩ <;> simp at hallows'
  | closed hclosed =>
      rcases hclosed with ⟨_, _, rfl⟩ | ⟨_, rfl⟩ | ⟨_, _, rfl⟩ <;> simp at hallows'
  | logon hstate => simp [hstate] at hallows
  | accepted hstate => simp [hstate] at hallows
  | command _ hnext => exact .inl ⟨rfl, hnext⟩
  | heartbeat => exact .inr ⟨rfl, rfl⟩
  | lapsed => exact .inr ⟨rfl, rfl⟩

/-- While commands are allowed, the answered commands carry consecutive
sequences. -/
theorem run_sequence {during : List SessionCall} {answers : List SessionAnswer} (hclear : ClearRun build session during)
    (hallows : ∀ shorter, shorter <+: during → ∀ answers middle,
      run (SessionStateMachine.call build) session shorter = some (answers, middle) → middle.allowsCommands = true)
    (hrun : run (SessionStateMachine.call build) session during = some (answers, session')) :
    (acceptedCommands (during.zip answers)).map Fin.val
        = List.range' session.nextSequence.val (acceptedCommands (during.zip answers)).length ∧
      session'.expectedSequence.val = session.nextSequence.val + (acceptedCommands (during.zip answers)).length := by
  induction during generalizing session answers with
  | nil =>
      cases hrun
      exact ⟨rfl, rfl⟩
  | cons call during ih =>
      obtain ⟨answer, rest, middle, hcall, hrest, rfl⟩ := run_cons.mp hrun
      have hmiddle : ∀ shorter, shorter <+: during → ∀ answers last,
          run (SessionStateMachine.call build) middle shorter = some (answers, last) → last.allowsCommands = true := by
        intro shorter hshorter answers last hlast
        exact hallows (call :: shorter) (List.cons_prefix_cons.mpr ⟨rfl, hshorter⟩) (answer :: answers) last
          (run_cons.mpr ⟨answer, answers, middle, hcall, hlast, rfl⟩)
      obtain ⟨hlist, hcount⟩ := ih (hclear.tail hcall) hmiddle hrest
      have hstep := (step_of_call hcall).sequence hclear.head (hallows [] (by simp) [] session rfl)
        (hmiddle [] (by simp) [] middle rfl)
      simp only [acceptedCommands, List.zip_cons_cons] at hlist hcount ⊢
      rcases hstep with ⟨hcommand, hnext⟩ | ⟨hnone, hsame⟩
      · rw [List.filterMap_cons_some hcommand, List.map_cons, List.length_cons, List.range'_succ, hlist, hcount, hnext]
        exact ⟨rfl, by omega⟩
      · rw [List.filterMap_cons_none hnone, hlist, hcount, hsame]
        exact ⟨rfl, rfl⟩

/-! ### Failure -/

/-- A failed session stays failed. -/
theorem SessionStep.failed (h : SessionStep build session call answer session') (hfailed : session.state = .failed) :
    session'.state = .failed := by
  cases h with
  | refused => exact hfailed
  | @overflowed call hover _ =>
      obtain ⟨timeout, hadds, _⟩ := hover
      cases call with
      | tick now => simp [adds, hfailed] at hadds
      | handle event now => cases event <;> simp [adds, hfailed, allowsCommands] at hadds
  | idle => exact hfailed
  | moved hmoved => simp [hfailed] at hmoved
  | closed hclosed =>
      rcases hclosed with ⟨_, hother, _⟩ | ⟨_, rfl⟩ | ⟨_, _, rfl⟩
      · exact absurd hfailed hother
      · rfl
      · rfl
  | logon hstate => simp [hfailed] at hstate
  | accepted hstate => simp [hfailed] at hstate
  | command hstate => simp [allowsCommands, hfailed] at hstate
  | heartbeat hstate => simp [hfailed] at hstate
  | lapsed hstate => simp [hfailed] at hstate

/-- A session that has lapsed waits with its deadline, or has failed. -/
def SessionStateMachine.Lapsed (deadline : U64) (session : SessionStateMachine) : Prop :=
  session.state = .recovering ∧ session.deadline = some deadline ∨ session.state = .failed

/-- Only an answered event brings a lapsed session back. -/
theorem SessionStep.lapsed_kept {deadline : U64} (h : SessionStep build session call answer session')
    (hclear : ¬session.Overflows call) (hlapsed : session.Lapsed deadline)
    (hquiet : ∀ event now transition, (call, answer) ≠ (.handle event now, .ok transition)) :
    session'.Lapsed deadline := by
  rcases hlapsed with ⟨hrecovering, hdeadline⟩ | hfailed
  · cases h with
    | refused => exact .inl ⟨hrecovering, hdeadline⟩
    | overflowed hover => exact absurd hover hclear
    | idle => exact .inl ⟨hrecovering, hdeadline⟩
    | moved => exact absurd rfl (hquiet _ _ _)
    | closed hclosed =>
        rcases hclosed with ⟨⟨_, rfl⟩, _⟩ | ⟨⟨_, rfl⟩, _⟩ | ⟨_, _, rfl⟩
        · exact absurd rfl (hquiet _ _ _)
        · exact absurd rfl (hquiet _ _ _)
        · exact .inr rfl
    | logon => exact absurd rfl (hquiet _ _ _)
    | accepted => exact absurd rfl (hquiet _ _ _)
    | command => exact absurd rfl (hquiet _ _ _)
    | heartbeat => exact absurd rfl (hquiet _ _ _)
    | lapsed hactive => simp [hrecovering] at hactive
  · exact .inr (h.failed hfailed)

/-- A deadline that has passed stays passed as long as no event is accepted in
between. -/
theorem run_lapsed {deadline : U64} {between : List SessionCall} {answers : List SessionAnswer}
    (hclear : ClearRun build session between) (hlapsed : session.Lapsed deadline)
    (hquiet : ∀ event now transition, (SessionCall.handle event now, .ok transition) ∉ between.zip answers)
    (hrun : run (SessionStateMachine.call build) session between = some (answers, session')) :
    session'.Lapsed deadline := by
  induction between generalizing session answers with
  | nil =>
      cases hrun
      exact hlapsed
  | cons call between ih =>
      obtain ⟨answer, rest, middle, hcall, hrest, rfl⟩ := run_cons.mp hrun
      rw [List.zip_cons_cons] at hquiet
      refine ih (hclear.tail hcall) ((step_of_call hcall).lapsed_kept hclear.head hlapsed ?_) ?_ hrest
      · intro event now transition heq
        exact hquiet event now transition (heq ▸ List.mem_cons_self)
      · intro event now transition hmem
        exact hquiet event now transition (List.mem_cons_of_mem _ hmem)

/-- A lapsed session fails at its deadline. -/
theorem lapsed_fails {deadline now : U64} (hlapsed : session.Lapsed deadline) (hdue : deadline.val ≤ now.val)
    (h : session.tick build now = some (answer, session')) : session'.state = .failed := by
  rcases hlapsed with ⟨hrecovering, hdeadline⟩ | hfailed
  · have hreached : session.Due now := ⟨deadline, hdeadline, hdue⟩
    cases tick_step h with
    | overflowed hover _ =>
        obtain ⟨_, hadds, _⟩ := hover
        obtain ⟨⟨hactive, _⟩, _⟩ := Option.ite_some_none_eq_some.mp hadds
        simp [hrecovering] at hactive
    | idle _ hidle => exact absurd hrecovering (hidle hreached).2.2
    | closed hclosed =>
        rcases hclosed with ⟨⟨_, hcall⟩, _⟩ | ⟨⟨_, hcall⟩, _⟩ | ⟨_, _, rfl⟩
        · cases hcall
        · cases hcall
        · rfl
    | lapsed hactive => simp [hrecovering] at hactive
  · exact (tick_step h).failed hfailed

/-- An active session lapses at its deadline. -/
theorem active_lapses {now : U64} (hcounted : session.Counted) (hclear : ¬session.Overflows (.tick now))
    (hstate : session.state = .active) (hdue : session.Due now) :
    ∃ answer lapsed deadline, session.call build (.tick now) = some (answer, lapsed) ∧ lapsed.Counted ∧
      lapsed.state = .recovering ∧ lapsed.deadline = some deadline := by
  obtain ⟨answer, lapsed, htick⟩ := @tick_returns build _ hcounted now
  have hstep := tick_step htick
  have hcounted' := hstep.counted hclear hcounted
  refine ⟨answer, lapsed, ?_⟩
  cases hstep with
  | overflowed hover _ => exact absurd hover hclear
  | idle _ hidle => exact absurd hstate (hidle hdue).2.1
  | closed hclosed =>
      rcases hclosed with ⟨⟨_, hcall⟩, _⟩ | ⟨⟨_, hcall⟩, _⟩ | ⟨_, hother, _⟩
      · cases hcall
      · cases hcall
      · simp [hstate] at hother
  | lapsed => exact ⟨_, htick, hcounted', rfl, rfl⟩

/-- The law of a session in every run whose clock stays away from the end of
its range: answered commands follow on from the sequence the logon gave, and
only where commands are allowed; deadlines are armed exactly where they are
waited for; two timeouts in a row fail the session, and failure is final. -/
theorem session_sequencing {config : SessionConfig} {calls : List SessionCall} {answers : List SessionAnswer}
    (hrun : run (SessionStateMachine.call build) (SessionStateMachine.new config) calls = some (answers, session))
    (hclear : ClearRun build (SessionStateMachine.new config) calls) :
    (∀ first now transition opened,
      session.call build (.handle (.logonAccepted first) now) = some (.ok transition, opened) →
      ∀ during answers' later, run (SessionStateMachine.call build) opened during = some (answers', later) →
        ClearRun build opened during →
        (∀ shorter, shorter <+: during → ∀ answers'' middle,
          run (SessionStateMachine.call build) opened shorter = some (answers'', middle) → middle.allowsCommands = true) →
        (acceptedCommands (during.zip answers')).map Fin.val
            = List.range' first.val (acceptedCommands (during.zip answers')).length ∧
          later.expectedSequence.val = first.val + (acceptedCommands (during.zip answers')).length) ∧
    (∀ sequence now transition session',
      session.call build (.handle (.command sequence) now) = some (.ok transition, session') →
        session.state = .active ∨ session.state = .recovering) ∧
    (session.deadline.isSome = true ↔
      session.state = .logon ∨ session.state = .active ∨ session.state = .recovering) ∧
    (∀ now, session.state = .active → session.Due now → ¬session.Overflows (.tick now) →
      ∃ answer lapsed deadline, session.call build (.tick now) = some (answer, lapsed) ∧ lapsed.deadline = some deadline ∧
        ∀ between answers' later, run (SessionStateMachine.call build) lapsed between = some (answers', later) →
          ClearRun build lapsed between →
          (∀ event now transition, (SessionCall.handle event now, .ok transition) ∉ between.zip answers') →
          ∀ now', deadline.val ≤ now'.val →
            ∃ answer' last, later.call build (.tick now') = some (answer', last) ∧ last.state = .failed) ∧
    (session.state = .failed → ∀ more answers' session',
      run (SessionStateMachine.call build) session more = some (answers', session') → session'.state = .failed) := by
  have harmed : session.Armed := run_clear (fun hstep hok => hstep.armed hok) hclear (by simp [Armed, new]) hrun
  have hcounted : session.Counted :=
    run_clear (fun hstep hok => hstep.counted hok) hclear ⟨by simp [new], by simp [new]⟩ hrun
  refine ⟨?_, ?_, harmed, ?_, ?_⟩
  · intro first now transition opened hlogon during answers' later hduring hclear' hallows
    have hfirst : opened.nextSequence = first := by
      cases step_of_call hlogon with
      | moved hmoved => simp at hmoved
      | closed hclosed => simp at hclosed
      | accepted => rfl
    have hsequence := run_sequence hclear' hallows hduring
    rwa [hfirst] at hsequence
  · intro sequence now transition session' hcommand
    cases step_of_call hcommand with
    | moved hmoved => simp at hmoved
    | closed hclosed => simp at hclosed
    | command hstate => simpa [allowsCommands] using hstate
  · intro now hstate hdue hok
    obtain ⟨answer, lapsed, deadline, htick, hcounted', hrecovering, hdeadline⟩ :=
      active_lapses hcounted hok hstate hdue
    refine ⟨answer, lapsed, deadline, htick, hdeadline, ?_⟩
    intro between answers' later hbetween hclear' hquiet now' hdue'
    have hlater := run_lapsed hclear' (.inl ⟨hrecovering, hdeadline⟩) hquiet hbetween
    obtain ⟨answer', last, hlast⟩ :=
      tick_returns (run_clear (fun hstep hok => hstep.counted hok) hclear' hcounted' hbetween) now'
    exact ⟨answer', last, hlast, lapsed_fails hlater hdue' hlast⟩
  · intro hfailed more answers' session' hmore
    have keeps : ∀ {before after : SessionStateMachine} {call : SessionCall} {answer : SessionAnswer},
        before.state = .failed → True → before.call build call = some (answer, after) → after.state = .failed :=
      fun hstate _ hcall => (step_of_call hcall).failed hstate
    exact @run_invariant _ _ _ _ _ _ _ _ (fun session => session.state = .failed) _ keeps (fun _ _ => trivial) hfailed hmore

/-- A clock value far from the end of its range overflows with neither
timeout. -/
theorem clear_of_small (hlogon : call.now.val + session.config.logonTimeoutTicks.val < 2 ^ 64)
    (hheartbeat : call.now.val + session.config.heartbeatTimeoutTicks.val < 2 ^ 64) : ¬session.Overflows call := by
  rintro ⟨timeout, hadds, hover⟩
  have htimeout : timeout = session.config.logonTimeoutTicks ∨ timeout = session.config.heartbeatTimeoutTicks := by
    unfold adds at hadds
    split at hadds
    case h_6 => cases hadds
    case h_1 => exact .inl (Option.ite_some_none_eq_some.mp hadds).2.symm
    all_goals exact .inr (Option.ite_some_none_eq_some.mp hadds).2.symm
  rcases htimeout with rfl | rfl <;> omega

/-- The log-on of the sample does not overflow. -/
theorem loggedOn_clear : ClearRun .release (SessionStateMachine.new ⟨100, 50⟩) loggedOn :=
  .cons rfl (clear_of_small (by decide) (by decide)) (.cons rfl (clear_of_small (by decide) (by decide))
    (.cons rfl (clear_of_small (by decide) (by decide)) .nil))

/-- Two commands with a tick between them. -/
def trading : List SessionCall := [.handle (.command 1) 3, .tick 10, .handle (.command 2) 20]

/-- The trading of the sample stays clear of the overflow, so the laws of
sequencing apply to it. -/
theorem trading_clear : ClearRun .release activeSession trading :=
  .cons rfl (clear_of_small (by decide) (by decide)) (.cons rfl (clear_of_small (by decide) (by decide))
    (.cons rfl (clear_of_small (by decide) (by decide)) .nil))

/-- The sample trades in states that allow commands throughout. -/
theorem trading_allowed : ∀ shorter ∈ trading.inits,
    ∀ result ∈ run (SessionStateMachine.call .release) activeSession shorter, result.2.allowsCommands = true := by
  decide

/-- After its logon the session answers its commands one and two and expects
three. From its logon on without commands, it misses two heartbeats and fails
at the second deadline. -/
theorem session_sequencing_sample :
    (∃ answers answers' session later transition,
      run (SessionStateMachine.call .release) (SessionStateMachine.new ⟨100, 50⟩) (loggedOn.take 2)
        = some (answers, session) ∧
      session.call .release (.handle (.logonAccepted 1) 0) = some (.ok transition, activeSession) ∧
      run (SessionStateMachine.call .release) activeSession trading = some (answers', later) ∧
      (acceptedCommands (trading.zip answers')).map Fin.val = List.range' 1 2 ∧ later.expectedSequence.val = 3) ∧
    (∃ answers answers' answer answer' lapsed later last,
      run (SessionStateMachine.call .release) (SessionStateMachine.new ⟨100, 50⟩) loggedOn
        = some (answers, activeSession) ∧
      activeSession.call .release (.tick 60) = some (answer, lapsed) ∧
      run (SessionStateMachine.call .release) lapsed [.tick 70] = some (answers', later) ∧
      later.call .release (.tick 110) = some (answer', last) ∧ last.state = .failed) := by
  constructor
  · have hclear : ClearRun .release (SessionStateMachine.new ⟨100, 50⟩) (loggedOn.take 2) :=
      .cons rfl (clear_of_small (by decide) (by decide)) (.cons rfl (clear_of_small (by decide) (by decide)) .nil)
    refine ⟨_, _, _, _, _, rfl, rfl, rfl, ?_⟩
    refine (session_sequencing rfl hclear).1 1 0 _ activeSession rfl trading _ _ rfl trading_clear ?_
    intro shorter hshorter answers middle hmiddle
    exact trading_allowed shorter ((List.mem_inits shorter trading).mpr hshorter) _ hmiddle
  · obtain ⟨answers, hrun⟩ := loggedOn_returns
    have hdue : activeSession.Due 60 := ⟨50, rfl, by decide⟩
    have hfits : ¬activeSession.Overflows (.tick 60) := clear_of_small (by decide) (by decide)
    obtain ⟨answer, lapsed, deadline, htick, hdeadline, hfails⟩ :=
      (session_sequencing hrun loggedOn_clear).2.2.2.1 60 rfl hdue hfits
    cases htick
    cases hdeadline
    have hclear : ClearRun .release { activeSession with
        state := .recovering, deadline := some 110, heartbeatTimeouts := 1 } [.tick 70] :=
      .cons rfl (clear_of_small (by decide) (by decide)) .nil
    obtain ⟨answer', last, hlast, hfailed⟩ := hfails [.tick 70] _ _ rfl hclear (by simp) 110 (by decide)
    exact ⟨answers, _, _, answer', _, _, last, hrun, rfl, rfl, hlast, hfailed⟩

end HftEngine
