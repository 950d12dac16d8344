import Scriptlet.Exec

/-!
# Runs that agree

Two runs agree if they end in the same way and leave related machines. Output agrees wherever the
machines have the same sink, whatever else relates them.
-/

namespace Scriptlet

namespace Outcome

/-- The runs end in the same way, with related machines, or both lack fuel. -/
inductive Agree {α : Type} (R : Machine → Machine → Prop) : Outcome α → Outcome α → Prop
  | done {machine other : Machine} (value : α) (h : R machine other) :
      Agree R (.done machine value) (.done other value)
  | failed {machine other : Machine} (error : Error) (h : R machine other) :
      Agree R (.failed machine error) (.failed other error)
  | outOfFuel : Agree R .outOfFuel .outOfFuel

theorem Agree.mono {α : Type} {R S : Machine → Machine → Prop} {left right : Outcome α}
    (h : Agree R left right) (hRS : ∀ machine other, R machine other → S machine other) :
    Agree S left right := by
  cases h with
  | done value h => exact .done value (hRS _ _ h)
  | failed error h => exact .failed error (hRS _ _ h)
  | outOfFuel => exact .outOfFuel

theorem Agree.symm {α : Type} {R : Machine → Machine → Prop} {left right : Outcome α}
    (h : Agree R left right) : Agree (flip R) right left := by
  cases h with
  | done value h => exact .done value h
  | failed error h => exact .failed error h
  | outOfFuel => exact .outOfFuel

theorem Agree.bind {α β : Type} {R : Machine → Machine → Prop} {left right : Outcome α}
    {next follower : Machine → α → Outcome β} (h : Agree R left right)
    (hnext : ∀ machine other value, R machine other →
      Agree R (next machine value) (follower other value)) :
    Agree R (left.bind next) (right.bind follower) := by
  cases h with
  | done value h => exact hnext _ _ value h
  | failed error h => exact .failed error h
  | outOfFuel => exact .outOfFuel

end Outcome

namespace Machine

open Outcome

/-- Two runs that agree in a fresh scope agree once each has left it. -/
theorem agree_withScope {α : Type} {R S : Machine → Machine → Prop} {run twin : Machine → Outcome α}
    {machine other : Machine} (h : Agree R (run machine.pushScope) (twin other.pushScope))
    (hleave : ∀ inner outer, R inner outer →
      S (inner.leaveScope machine.env.depth) (outer.leaveScope other.env.depth)) :
    Agree S (machine.withScope run) (other.withScope twin) := by
  unfold withScope
  dsimp only
  generalize run machine.pushScope = left at h
  generalize twin other.pushScope = right at h
  cases h with
  | done value h => exact .done value (hleave _ _ h)
  | failed error h => exact .failed error (hleave _ _ h)
  | outOfFuel => exact .outOfFuel

/-- Related machines have the same sink, and stay related when both get another one. -/
structure SharesSink (R : Machine → Machine → Prop) : Prop where
  sink_eq {machine other : Machine} (h : R machine other) : other.sink = machine.sink
  replace {machine other : Machine} (h : R machine other) (sink : Sink) :
    R { machine with sink := sink } { other with sink := sink }

namespace SharesSink

variable {R : Machine → Machine → Prop} {machine other : Machine}

theorem request (hR : SharesSink R) (answer : Sink × Option Error) (h : R machine other) :
    Agree R (machine.request answer) (other.request answer) := by
  obtain ⟨sink, _ | error⟩ := answer
  · exact .done () (hR.replace h sink)
  · exact .failed error (hR.replace h sink)

theorem write (hR : SharesSink R) (text : String) (h : R machine other) :
    Agree R (machine.write text) (other.write text) := by
  unfold Machine.write
  rw [hR.sink_eq h]
  exact hR.request _ h

theorem flush (hR : SharesSink R) (h : R machine other) :
    Agree R machine.flush other.flush := by
  unfold Machine.flush
  rw [hR.sink_eq h]
  exact hR.request _ h

theorem emit (hR : SharesSink R) (newline : Bool) (text : String) (h : R machine other) :
    Agree R (machine.emit newline text) (other.emit newline text) := by
  refine (hR.write text h).bind fun machine other _ h ↦ ?_
  refine Agree.bind ?_ fun machine other _ h ↦ hR.flush h
  cases newline with
  | true => exact hR.write "\n" h
  | false => exact .done () h

/-- Two payloads are written alike if each is the same text, or a value on which the runs agree. -/
theorem writePayload (hR : SharesSink R) (newline : Bool) (text : Option String)
    {expression same : Option Node} (h : R machine other)
    (hvalue : Option.Rel (fun node twin ↦ Agree R (machine.eval node) (other.eval twin))
      expression same) :
    Agree R (machine.writePayload newline text expression)
      (other.writePayload newline text same) := by
  cases hvalue with
  | none =>
    cases text with
    | none => exact .failed _ h
    | some text => exact hR.emit newline text h
  | some hvalue =>
    cases text with
    | none => exact hvalue.bind fun machine other value h ↦ hR.emit newline value.display h
    | some text => exact .failed _ h

end SharesSink

end Machine

end Scriptlet
