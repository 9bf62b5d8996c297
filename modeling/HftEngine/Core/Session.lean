/-
Module: HftEngine.Core.Session
Layer: Core
Purpose: The session layer in front of the matching core: the connection state
  machine with its deadlines in virtual time, and the bounded buffer of frames
  awaiting confirmation. `none` stands for a panic.
Imports: HftEngine.Core.Types
Trusted boundary: translates `SessionStateMachine` and `RetransmitBuffer` of
  the crate `hft-session`
Main exports: SessionState, SessionEvent, SessionError, SessionConfig,
  SessionStateMachine, SessionStateMachine.handle, SessionStateMachine.tick,
  RetransmitBuffer, RetransmitBuffer.retain, RetransmitBuffer.confirmThrough,
  RetransmitBuffer.since
-/
import HftEngine.Core.Types

namespace HftEngine

open Machine

/-! ### The state machine -/

/-- Lifecycle states. -/
inductive SessionState where
  | disconnected
  | connecting
  | logon
  | active
  | recovering
  | logout
  | failed
deriving DecidableEq, Repr

/-- Inbound events driving the machine. -/
inductive SessionEvent where
  | connect
  | logonSent
  | logonAccepted (firstSequence : SequenceNumber)
  | command (sequence : SequenceNumber)
  | heartbeatReceived
  | logoutSent
  | disconnect
  | fail
deriving DecidableEq, Repr

/-- Every way an event can be refused. -/
inductive SessionError where
  | invalidTransition (state : SessionState) (event : String)
  | gap (expected received : SequenceNumber)
  | duplicateSequence (received expected : SequenceNumber)
  | notActive
  | arithmeticOverflow
deriving DecidableEq, Repr

/-- Deadline configuration in virtual ticks. -/
structure SessionConfig where
  logonTimeoutTicks : U64
  heartbeatTimeoutTicks : U64
deriving DecidableEq, Repr

/-- One step's outcome: the new state plus any deadline that was armed. -/
structure SessionTransition where
  state : SessionState
  deadline : Option U64
deriving DecidableEq, Repr

/-- A session: its state, the next sequence number it expects of a command, and
the deadline of the current state when it has one. -/
structure SessionStateMachine where
  state : SessionState
  config : SessionConfig
  nextSequence : U64
  deadline : Option U64
  /-- Heartbeat timeouts suffered since the last accepted command. -/
  heartbeatTimeouts : U32
deriving DecidableEq, Repr

/-- The name of an event in an error of the state machine. -/
def eventName : SessionEvent → String
  | .connect => "connect"
  | .logonSent => "logon_sent"
  | .logonAccepted _ => "logon_accepted"
  | .command _ => "command"
  | .heartbeatReceived => "heartbeat_received"
  | .logoutSent => "logout_sent"
  | .disconnect => "disconnect"
  | .fail => "fail"

namespace SessionStateMachine

/-- A session that was never connected. It would accept the sequence number
one. -/
def new (config : SessionConfig) : SessionStateMachine where
  state := .disconnected
  config := config
  nextSequence := 1
  deadline := none
  heartbeatTimeouts := 0

def expectedSequence (session : SessionStateMachine) : SequenceNumber := session.nextSequence

/-- Whether a command would be looked at in this state. A recovering session
takes commands and returns to `active` with the first one. -/
def allowsCommands (session : SessionStateMachine) : Bool :=
  session.state = .active ∨ session.state = .recovering

/-- What a transition reports: the state and the deadline. -/
def snapshot (session : SessionStateMachine) : SessionTransition := ⟨session.state, session.deadline⟩

/-- Moves to a state with a deadline that is already known, or with none. It
cannot fail. -/
def enter (session : SessionStateMachine) (state : SessionState) (deadline : Option U64) :
    Except SessionError SessionTransition × SessionStateMachine :=
  let session := { session with state := state, deadline := deadline }
  (.ok session.snapshot, session)

/-- Moves to a state with the deadline `now + timeout`. On overflow the session
keeps what its caller has stored into it before. -/
def arm (session : SessionStateMachine) (state : SessionState) (timeout now : U64) :
    Except SessionError SessionTransition × SessionStateMachine :=
  match checkedAdd now timeout with
  | none => (.error .arithmeticOverflow, session)
  | some deadline =>
      let session := { session with state := state, deadline := some deadline }
      (.ok session.snapshot, session)

/-- The counters of a session that was never connected; the state is left to
the caller. -/
def reset (session : SessionStateMachine) : SessionStateMachine :=
  { session with nextSequence := 1, deadline := none, heartbeatTimeouts := 0 }

/-- Answers with an error and the session as it is. -/
def refuse (session : SessionStateMachine) (error : SessionError) :
    Except SessionError SessionTransition × SessionStateMachine :=
  (.error error, session)

/-- A command in `active` or `recovering`: exactly the next sequence is taken,
and it returns to `active`. -/
def handleCommand (session : SessionStateMachine) (sequence : SequenceNumber) (now : U64) :
    Except SessionError SessionTransition × SessionStateMachine :=
  if sequence.val < session.nextSequence.val then
    session.refuse (.duplicateSequence sequence session.nextSequence)
  else if session.nextSequence.val < sequence.val then session.refuse (.gap session.nextSequence sequence)
  else
    match checkedAdd session.nextSequence 1 with
    | none => session.refuse .arithmeticOverflow
    | some next =>
        let session := { session with nextSequence := next, heartbeatTimeouts := 0, state := .active }
        session.arm session.state session.config.heartbeatTimeoutTicks now

/-- Applies one event at virtual time `now`. -/
def handle (session : SessionStateMachine) (event : SessionEvent) (now : U64) :
    Except SessionError SessionTransition × SessionStateMachine :=
  match session.state, event with
  | .disconnected, .connect => session.enter .connecting none
  | .connecting, .logonSent => session.arm .logon session.config.logonTimeoutTicks now
  | .logon, .logonAccepted firstSequence =>
      if firstSequence.val = 0 then session.refuse .arithmeticOverflow
      else
        let session := { session with nextSequence := firstSequence, heartbeatTimeouts := 0 }
        session.arm .active session.config.heartbeatTimeoutTicks now
  | .active, .command sequence => session.handleCommand sequence now
  | .recovering, .command sequence => session.handleCommand sequence now
  | .active, .heartbeatReceived => session.arm .active session.config.heartbeatTimeoutTicks now
  | .connecting, .logoutSent => session.enter .logout none
  | .logon, .logoutSent => session.enter .logout none
  | .active, .logoutSent => session.enter .logout none
  | .recovering, .logoutSent => session.enter .logout none
  | state, .disconnect =>
      if state ≠ .failed then session.reset.enter .disconnected none
      else session.refuse (.invalidTransition state (eventName .disconnect))
  | _, .fail => session.reset.enter .failed none
  | state, event => session.refuse (.invalidTransition state (eventName event))

/-- Advances virtual time; a crossed deadline fails the logon, drops an active
session to `recovering`, and fails a recovering one. The timeout counter is
raised by a native `+=`, so its last value is where the two build profiles
part. -/
def tick (build : Build) (session : SessionStateMachine) (now : U64) :
    Option (Except SessionError SessionTransition × SessionStateMachine) :=
  match session.deadline with
  | none => some (.ok session.snapshot, session)
  | some deadline =>
      if now.val < deadline.val then some (.ok session.snapshot, session)
      else
        match session.state with
        | .logon => some (session.reset.enter .failed none)
        | .active => do
            let heartbeatTimeouts ← addAssign build session.heartbeatTimeouts 1
            let session := { session with heartbeatTimeouts := heartbeatTimeouts }
            match checkedAdd now session.config.heartbeatTimeoutTicks with
            | none => pure (.error .arithmeticOverflow, session)
            | some deadline =>
                let session := { session with state := .recovering, deadline := some deadline }
                pure (.ok ⟨.recovering, session.deadline⟩, session)
        | .recovering => do
            let heartbeatTimeouts ← addAssign build session.heartbeatTimeouts 1
            let session := { session with heartbeatTimeouts := heartbeatTimeouts }
            pure (session.reset.enter .failed none)
        | _ => some (.ok session.snapshot, session)

end SessionStateMachine

/-! ### The retransmission buffer -/

/-- Maximum retained payload size; matches the largest wire frame. -/
def maxFrame : Nat := 46

/-- A retained frame awaiting confirmation. -/
structure RetainedFrame where
  sequence : SequenceNumber
  bytes : Vector U8 maxFrame
  len : Nat
deriving DecidableEq

/-- The bytes of a retained frame that are in use. -/
def RetainedFrame.slice (frame : RetainedFrame) : List U8 := frame.bytes.toList.take frame.len

/-- Why a frame was not retained. A payload longer than a frame is answered
`full` as well. -/
inductive RetainError where
  | full
  | notInOrder (expected received : SequenceNumber)
  | sequenceOverflow
deriving DecidableEq, Repr

/-- FIFO retention window over consecutive sequence numbers. -/
structure RetransmitBuffer where
  entries : List RetainedFrame
  capacity : Nat
  nextSequence : U64
deriving DecidableEq

namespace RetransmitBuffer

def new (capacity : Nat) : RetransmitBuffer := ⟨[], capacity, 1⟩

/-- The payload copied to the front of a zeroed frame. -/
def stored (bytes : List U8) : Vector U8 maxFrame := Vector.ofFn fun index => bytes.getD index.val 0

/-- Retains one frame whose sequence continues the window exactly. -/
def retain (buffer : RetransmitBuffer) (sequence : SequenceNumber) (bytes : List U8) :
    Except RetainError Unit × RetransmitBuffer :=
  if maxFrame < bytes.length then (.error .full, buffer)
  else if sequence ≠ buffer.nextSequence then (.error (.notInOrder buffer.nextSequence sequence), buffer)
  else if buffer.entries.length = buffer.capacity then (.error .full, buffer)
  else
    match checkedAdd sequence 1 with
    | none => (.error .sequenceOverflow, buffer)
    | some nextSequence =>
        (.ok (), { buffer with
          entries := buffer.entries ++ [⟨sequence, stored bytes, bytes.length⟩]
          nextSequence := nextSequence })

/-- The loop of `confirmThrough`: pops the front while it is confirmed. -/
def dropConfirmed (confirmed : U64) : List RetainedFrame → (dropped : Nat) → Nat × List RetainedFrame
  | [], dropped => (dropped, [])
  | frame :: rest, dropped =>
      if frame.sequence.val ≤ confirmed.val then dropConfirmed confirmed rest (dropped + 1)
      else (dropped, frame :: rest)

/-- Drops every frame up to and including `confirmed`; returns the number
dropped. -/
def confirmThrough (buffer : RetransmitBuffer) (confirmed : U64) : Nat × RetransmitBuffer :=
  let (dropped, entries) := dropConfirmed confirmed buffer.entries 0
  (dropped, { buffer with entries := entries })

/-- Retained frames starting at `start`, in order. -/
def since (buffer : RetransmitBuffer) (start : U64) : List RetainedFrame :=
  buffer.entries.filter fun frame => start.val ≤ frame.sequence.val

end RetransmitBuffer

end HftEngine
