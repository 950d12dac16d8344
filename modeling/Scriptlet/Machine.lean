import Scriptlet.Env
import Scriptlet.Log

/-!
# Machines

What a running program acts on: an environment, a sink for its output and a log. A step of a run
ends well, fails, or runs out of fuel; in the first two cases it leaves a machine behind.
-/

namespace Scriptlet

/-- That a device takes only the first of the bytes offered to it, and why. -/
structure Refusal where
  taken : Nat
  reason : String

/-- Where output goes: any device that takes bytes in order. Its answer to a request may depend on
how many requests came before, on the bytes it has taken and on those it is offered. -/
structure Sink where
  written : ByteArray
  requests : Nat
  refusal? : Nat → ByteArray → ByteArray → Option Refusal
  /-- Why a flush fails. -/
  flushFailure? : Nat → ByteArray → Option String

/-- A sink that takes bytes up to its limit, if it has one, and whose flushes may all fail. -/
structure BoundedSink where
  written : ByteArray
  limit : Option Nat
  flushFails : Bool

/-- No limit and no failure. -/
def BoundedSink.unlimited : BoundedSink := ⟨.empty, none, false⟩

/-- What a bounded sink refuses: all bytes past its limit. -/
def BoundedSink.refusal? (limit : Option Nat) (written bytes : ByteArray) : Option Refusal :=
  match limit with
  | none => none
  | some limit =>
    let room := limit - written.size
    if bytes.size ≤ room then none else some ⟨room, "sink full"⟩

namespace Sink

def ofBounded (bounded : BoundedSink) : Sink where
  written := bounded.written
  requests := 0
  refusal? := fun _ written bytes ↦ BoundedSink.refusal? bounded.limit written bytes
  flushFailure? := fun _ _ ↦ if bounded.flushFails then some "flush failed" else none

/-- A sink without a limit that never fails. -/
def unlimited : Sink := ofBounded .unlimited

/-- The sink after a request of which it took the given bytes. -/
def served (sink : Sink) (bytes : ByteArray) : Sink :=
  { sink with written := sink.written ++ bytes, requests := sink.requests + 1 }

/-- Offers bytes to the sink. Without bytes there is nothing to request. -/
def write (sink : Sink) (bytes : ByteArray) : Sink × Option Error :=
  if bytes.size = 0 then (sink, none)
  else
    match sink.refusal? sink.requests sink.written bytes with
    | none => (sink.served bytes, none)
    | some refusal => (sink.served (bytes.extract 0 refusal.taken), some (.io refusal.reason))

def flush (sink : Sink) : Sink × Option Error :=
  ({ sink with requests := sink.requests + 1 },
    (sink.flushFailure? sink.requests sink.written).map .io)

end Sink

structure Machine where
  env : Env
  sink : Sink
  log : Log

/-- How a step ends. -/
inductive Outcome (α : Type) where
  | done (machine : Machine) (value : α)
  | failed (machine : Machine) (error : Error)
  | outOfFuel

namespace Outcome

/-- Goes on with the machine and the value that a step leaves. -/
@[inline] def bind {α β : Type} (outcome : Outcome α) (next : Machine → α → Outcome β) :
    Outcome β :=
  match outcome with
  | done machine value => next machine value
  | failed machine error => failed machine error
  | outOfFuel => outOfFuel

@[simp] theorem bind_done {α β : Type} (machine : Machine) (value : α)
    (next : Machine → α → Outcome β) : (done machine value).bind next = next machine value := rfl

@[simp] theorem bind_failed {α β : Type} (machine : Machine) (error : Error)
    (next : Machine → α → Outcome β) :
    (failed machine error : Outcome α).bind next = failed machine error := rfl

@[simp] theorem bind_outOfFuel {α β : Type} (next : Machine → α → Outcome β) :
    (outOfFuel : Outcome α).bind next = outOfFuel := rfl

theorem bind_assoc {α β γ : Type} (outcome : Outcome α) (next : Machine → α → Outcome β)
    (last : Machine → β → Outcome γ) :
    (outcome.bind next).bind last =
      outcome.bind fun machine value ↦ (next machine value).bind last := by
  cases outcome <;> rfl

/-- The machine that a step leaves. -/
def machine? {α : Type} : Outcome α → Option Machine
  | done machine _ | failed machine _ => some machine
  | outOfFuel => none

end Outcome

namespace Machine

/-- A machine with an empty environment. -/
def start (sink : BoundedSink) (verbosity : Verbosity) : Machine :=
  ⟨.empty, .ofBounded sink, .empty verbosity⟩

def trace (component : Component) (message : String) (machine : Machine) : Machine :=
  { machine with log := machine.log.add .trace component message }

def debug (component : Component) (message : String) (machine : Machine) : Machine :=
  { machine with log := machine.log.add .debug component message }

/-- The outcome of a computation that leaves the machine as it is. -/
def yield {α : Type} (result : Except Error α) (machine : Machine) : Outcome α :=
  match result with
  | .ok value => .done machine value
  | .error e => .failed machine e

/-- Replaces the environment; a failing operation changes nothing. -/
def update (operation : Env → Except Error Env) (machine : Machine) : Outcome Unit :=
  match operation machine.env with
  | .ok env => .done { machine with env := env } ()
  | .error e => .failed machine e

/-! ## Scopes -/

def pushScope (machine : Machine) : Machine :=
  let env := machine.env.push
  trace .environment ("push scope (depth " ++ toString env.depth ++ ")")
    { machine with env := env }

def popScope (machine : Machine) : Outcome Unit :=
  (machine.update Env.pop).bind fun machine _ ↦
    .done (machine.trace .environment
      ("pop scope (depth " ++ toString machine.env.depth ++ ")")) ()

/-- Returns to the depth that a scope was entered from. -/
def leaveScope (depth : Nat) (machine : Machine) : Machine :=
  trace .environment ("leave scope (depth " ++ toString depth ++ ")")
    { machine with env := machine.env.truncate depth }

/-- Runs a step in a fresh scope, which is left however the step ends. -/
def withScope {α : Type} (run : Machine → Outcome α) (machine : Machine) : Outcome α :=
  let depth := machine.env.depth
  match run machine.pushScope with
  | .done inner value => .done (inner.leaveScope depth) value
  | .failed inner error => .failed (inner.leaveScope depth) error
  | .outOfFuel => .outOfFuel

/-! ## Output -/

/-- Goes on with the sink that a request leaves, unless the request failed. -/
def request (answer : Sink × Option Error) (machine : Machine) : Outcome Unit :=
  match answer with
  | (sink, none) => .done { machine with sink := sink } ()
  | (sink, some e) => .failed { machine with sink := sink } e

def write (text : String) (machine : Machine) : Outcome Unit :=
  machine.request (machine.sink.write text.toUTF8)

def flush (machine : Machine) : Outcome Unit := machine.request machine.sink.flush

/-- Writes a text, then a newline if asked for, then flushes. -/
def emit (newline : Bool) (text : String) (machine : Machine) : Outcome Unit :=
  (machine.write text).bind fun machine _ ↦
    (if newline then machine.write "\n" else .done machine ()).bind fun machine _ ↦
      machine.flush

end Machine

end Scriptlet
