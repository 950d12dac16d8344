import Scriptlet.Proofs.Run.Compatible

/-!
# Output to a sink that fills up

A sink with a limit sees a prefix of what a sink without one would see. As long as the output fits,
the two runs do the same. The first byte too many ends the run on the limited sink with an error,
and what the other run still writes comes behind the bytes that were taken: output only grows. The
main statement is `limited_interpret`.
-/

namespace Scriptlet

/-- A sink that takes the first `limit` bytes and no more. -/
def Sink.upTo (limit : Nat) : Sink := .ofBounded ⟨.empty, some limit, false⟩

/-- What a run that has ended shows of itself: its environment, its output and its result. -/
def Outcome.shown {α : Type} : Outcome α → Option (Env × ByteArray × Except Error α)
  | done machine value => some (machine.env, machine.sink.written, .ok value)
  | failed machine error => some (machine.env, machine.sink.written, .error error)
  | outOfFuel => none

namespace Machine

/-- The machine's sink takes everything. -/
structure Unlimited (machine : Machine) : Prop where
  refusal? : machine.sink.refusal? = Sink.unlimited.refusal?
  flushFailure? : machine.sink.flushFailure? = Sink.unlimited.flushFailure?

/-- The machine with a sink that takes no more than `limit` bytes in all. -/
def limited (limit : Nat) (machine : Machine) : Machine :=
  { machine with sink := { machine.sink with refusal? := (Sink.upTo limit).refusal? } }

end Machine

namespace Outcome

variable {α β : Type} {limit : Nat}

/-- The outcome with another machine in its place. -/
def mapMachine (change : Machine → Machine) : Outcome α → Outcome α
  | done machine value => done (change machine) value
  | failed machine error => failed (change machine) error
  | outOfFuel => outOfFuel

theorem machine?_mapMachine (change : Machine → Machine) (outcome : Outcome α) :
    (outcome.mapMachine change).machine? = outcome.machine?.map change := by
  cases outcome <;> rfl

theorem mapMachine_mapMachine (change other : Machine → Machine) (outcome : Outcome α) :
    (outcome.mapMachine change).mapMachine other =
      outcome.mapMachine fun machine ↦ other (change machine) := by
  cases outcome <;> rfl

/-- The run has written something, if anything, behind what was there. -/
def Extends (machine : Machine) (outcome : Outcome α) : Prop :=
  ∀ left, outcome.machine? = some left →
    left.Unlimited ∧ ∃ more, left.sink.written = machine.sink.written ++ more

/-- The run ended for want of room, after the first `limit` bytes of `output`. -/
def CutShort (limit : Nat) (output : ByteArray) (outcome : Outcome α) : Prop :=
  ∃ stopped, outcome = failed stopped (.io "sink full") ∧
    stopped.sink.written = output.extract 0 limit

/-- The second run does on a limited sink what the first does on an unlimited one, up to where the
limit cuts it short. -/
def LimitedTo (limit : Nat) (full cut : Outcome α) : Prop :=
  ∀ left, full.machine? = some left →
    if left.sink.written.size ≤ limit then cut = full.mapMachine (Machine.limited limit)
    else CutShort limit left.sink.written cut

theorem Extends.trans {machine left : Machine} {more : ByteArray} {outcome : Outcome α}
    (hleft : left.sink.written = machine.sink.written ++ more) (h : Extends left outcome) :
    Extends machine outcome := by
  intro last hlast
  obtain ⟨hunlimited, others, hothers⟩ := h last hlast
  refine ⟨hunlimited, more ++ others, ?_⟩
  rw [hothers, hleft, ByteArray.append_assoc]

/-- What has been cut short stays so, whatever the other run goes on to write. -/
theorem CutShort.limitedTo {machine : Machine} {full cut : Outcome α}
    (hfull : limit < machine.sink.written.size) (hextends : Extends machine full)
    (h : CutShort limit machine.sink.written cut) : LimitedTo limit full cut := by
  intro left hleft
  obtain ⟨-, more, hmore⟩ := hextends left hleft
  have hgrown : ¬left.sink.written.size ≤ limit := by
    rw [hmore, ByteArray.size_append]
    omega
  rw [if_neg hgrown]
  obtain ⟨stopped, hstopped, hwritten⟩ := h
  refine ⟨stopped, hstopped, ?_⟩
  calc
    stopped.sink.written = machine.sink.written.extract 0 limit := hwritten
    _ = left.sink.written.extract 0 limit := by
      rw [hmore, ByteArray.extract_append, Nat.sub_eq_zero_of_le (Nat.le_of_lt hfull)]
      simp

end Outcome

namespace Machine

open Outcome

/-- On a machine with an unlimited sink, a step extends the output; and on the same machine with a
limit, the second step does the same up to that limit. -/
def Limits (limit : Nat) : StepRelation := fun _ run twin ↦
  ∀ machine : Machine, machine.Unlimited →
    Extends machine (run machine) ∧
      (machine.sink.written.size ≤ limit →
        LimitedTo limit (run machine) (twin (machine.limited limit)))

variable {α β : Type} {limit : Nat}

/-! ## Steps that write nothing -/

/-- A step that only makes requests, without writing, does the same with a limit as without. -/
theorem limits_of_sink_eq {run twin : Machine → Outcome α}
    (hsink : ∀ machine left, (run machine).machine? = some left →
      left.sink = { machine.sink with requests := left.sink.requests })
    (hsame : ∀ machine, twin (machine.limited limit) =
      (run machine).mapMachine (limited limit)) :
    Limits limit α run twin := by
  intro machine hunlimited
  refine ⟨fun left hleft ↦ ?_, fun hroom left hleft ↦ ?_⟩
  · have heq := hsink machine left hleft
    refine ⟨⟨?_, ?_⟩, .empty, ?_⟩
    · rw [heq, hunlimited.refusal?]
    · rw [heq, hunlimited.flushFailure?]
    · rw [heq, ByteArray.append_empty]
  · have hwritten : left.sink.written = machine.sink.written := by rw [hsink machine left hleft]
    rw [if_pos (hwritten ▸ hroom)]
    exact hsame machine

theorem limits_yield (result : Env → Except Error α) :
    Limits limit α (fun machine ↦ machine.yield (result machine.env))
      fun machine ↦ machine.yield (result machine.env) := by
  refine limits_of_sink_eq (fun machine left hleft ↦ ?_) fun machine ↦ ?_
  · unfold yield at hleft
    split at hleft <;> cases hleft <;> rfl
  · change yield (result machine.env) _ = _
    unfold yield
    cases result machine.env <;> rfl

theorem limits_update (operation : Env → Except Error Env) :
    Limits limit Unit (update operation) (update operation) := by
  refine limits_of_sink_eq (fun machine left hleft ↦ ?_) fun machine ↦ ?_
  · unfold update at hleft
    split at hleft <;> cases hleft <;> rfl
  · have henv : (machine.limited limit).env = machine.env := rfl
    unfold update
    rw [henv]
    cases operation machine.env <;> rfl

theorem limits_flush : Limits limit Unit flush flush := by
  refine limits_of_sink_eq (fun machine left hleft ↦ ?_) fun machine ↦ ?_
  · unfold flush Sink.flush at hleft
    cases hfailure : machine.sink.flushFailure? machine.sink.requests machine.sink.written <;>
      rw [hfailure] at hleft <;> cases hleft <;> rfl
  · have hanswer : (machine.limited limit).sink.flushFailure? = machine.sink.flushFailure? := rfl
    unfold flush Sink.flush
    rw [hanswer]
    change request (_, Option.map _ (machine.sink.flushFailure? machine.sink.requests
      machine.sink.written)) _ = _
    cases machine.sink.flushFailure? machine.sink.requests machine.sink.written <;> rfl

/-! ## Writing -/

theorem write_of_unlimited {machine : Machine} (h : machine.Unlimited) (text : String) :
    machine.write text =
      .done { machine with sink :=
        if text.toUTF8.size = 0 then machine.sink else machine.sink.served text.toUTF8 } () := by
  unfold write Sink.write
  split
  · rfl
  · rw [h.refusal?]
    rfl

/-- The limited sink takes what still fits and refuses the rest. -/
theorem write_limited (limit : Nat) (machine : Machine) (text : String) :
    (machine.limited limit).write text =
      if text.toUTF8.size = 0 then .done (machine.limited limit) ()
      else if text.toUTF8.size ≤ limit - machine.sink.written.size then
        .done (limited limit { machine with sink := machine.sink.served text.toUTF8 }) ()
      else
        .failed (limited limit { machine with
          sink := machine.sink.served (text.toUTF8.extract 0 (limit - machine.sink.written.size)) })
          (.io "sink full") := by
  have hanswer : (machine.limited limit).sink.refusal? (machine.limited limit).sink.requests
      (machine.limited limit).sink.written text.toUTF8 =
      if text.toUTF8.size ≤ limit - machine.sink.written.size then none
      else some ⟨limit - machine.sink.written.size, "sink full"⟩ := rfl
  unfold write Sink.write
  rw [hanswer]
  split
  · rfl
  · by_cases hfits : text.toUTF8.size ≤ limit - machine.sink.written.size
    · rw [if_pos hfits, if_pos hfits]
      rfl
    · rw [if_neg hfits, if_neg hfits]
      rfl

theorem limits_write (text : String) : Limits limit Unit (write text) (write text) := by
  intro machine hunlimited
  rw [write_of_unlimited hunlimited, write_limited]
  by_cases hempty : text.toUTF8.size = 0
  · rw [if_pos hempty, if_pos hempty]
    refine ⟨?_, fun hroom ↦ ?_⟩
    · rintro _ ⟨⟩
      exact ⟨hunlimited, .empty, ByteArray.append_empty.symm⟩
    · rintro _ ⟨⟩
      rw [if_pos hroom]
      rfl
  · rw [if_neg hempty, if_neg hempty]
    refine ⟨?_, fun hroom ↦ ?_⟩
    · rintro _ ⟨⟩
      exact ⟨⟨hunlimited.refusal?, hunlimited.flushFailure?⟩, text.toUTF8, rfl⟩
    · rintro _ ⟨⟩
      have hsize : (machine.sink.served text.toUTF8).written.size =
          machine.sink.written.size + text.toUTF8.size := ByteArray.size_append
      by_cases hfits : text.toUTF8.size ≤ limit - machine.sink.written.size
      · rw [if_pos hfits, if_pos (by rw [hsize]; omega)]
        rfl
      · rw [if_neg hfits, if_neg (by rw [hsize]; omega)]
        refine ⟨_, rfl, ?_⟩
        calc
          machine.sink.written ++ text.toUTF8.extract 0 (limit - machine.sink.written.size) =
              machine.sink.written.extract 0 limit ++
                text.toUTF8.extract 0 (limit - machine.sink.written.size) := by
            have hwhole := @ByteArray.extract_zero_max_size machine.sink.written limit
            rw [Nat.max_eq_left hroom] at hwhole
            rw [hwhole]
          _ = (machine.sink.written ++ text.toUTF8).extract 0 limit := by
            rw [ByteArray.extract_append, Nat.zero_sub]

/-! ## Steps in a row -/

theorem limits_bind {run twin : Machine → Outcome α} {next follower : α → Machine → Outcome β}
    (h : Limits limit α run twin) (hnext : ∀ value, Limits limit β (next value) (follower value)) :
    Limits limit β (fun machine ↦ (run machine).bind fun machine value ↦ next value machine)
      fun machine ↦ (twin machine).bind fun machine value ↦ follower value machine := by
  intro machine hunlimited
  obtain ⟨hextends, hlimited⟩ := h machine hunlimited
  dsimp only
  cases hrun : run machine with
  | done left value =>
    rw [hrun] at hextends hlimited
    obtain ⟨hleft, more, hmore⟩ := hextends left rfl
    obtain ⟨hothers, hfollows⟩ := hnext value left hleft
    refine ⟨hothers.trans hmore, fun hroom ↦ ?_⟩
    have htwin := hlimited hroom left rfl
    rw [Outcome.bind_done]
    split at htwin
    · rename_i hfits
      rw [htwin]
      exact hfollows hfits
    · rename_i hfull
      -- The limited run has ended here; the other goes on behind its bytes.
      have hcut : CutShort limit left.sink.written
          ((twin (machine.limited limit)).bind fun machine value ↦ follower value machine) := by
        obtain ⟨stopped, hstopped, hwritten⟩ := htwin
        rw [hstopped]
        exact ⟨stopped, rfl, hwritten⟩
      exact hcut.limitedTo (by omega) hothers
  | failed left error =>
    rw [hrun] at hextends hlimited
    refine ⟨hextends, fun hroom ↦ ?_⟩
    rintro _ ⟨⟩
    have htwin := hlimited hroom left rfl
    split at htwin
    · rename_i hfits
      rw [if_pos hfits, htwin]
      rfl
    · rename_i hfull
      obtain ⟨stopped, hstopped, hwritten⟩ := htwin
      rw [if_neg hfull, hstopped]
      exact ⟨stopped, rfl, hwritten⟩
  | outOfFuel => exact ⟨nofun, fun _ ↦ nofun⟩

theorem withScope_eq_mapMachine (run : Machine → Outcome α) (machine : Machine) :
    machine.withScope run =
      (run machine.pushScope).mapMachine (leaveScope machine.env.depth) := by
  unfold withScope
  cases run machine.pushScope <;> rfl

/-- Entering and leaving a scope does nothing to the sink. -/
theorem limits_withScope {run twin : Machine → Outcome α} (h : Limits limit α run twin) :
    Limits limit α (withScope run) (withScope twin) := by
  intro machine hunlimited
  obtain ⟨hextends, hlimited⟩ := h machine.pushScope ⟨hunlimited.refusal?, hunlimited.flushFailure?⟩
  rw [withScope_eq_mapMachine, withScope_eq_mapMachine]
  refine ⟨fun left hleft ↦ ?_, fun hroom left hleft ↦ ?_⟩
  · rw [machine?_mapMachine] at hleft
    obtain ⟨inner, hinner, rfl⟩ := Option.map_eq_some_iff.1 hleft
    obtain ⟨hinside, hmore⟩ := hextends inner hinner
    exact ⟨⟨hinside.refusal?, hinside.flushFailure?⟩, hmore⟩
  · rw [machine?_mapMachine] at hleft
    obtain ⟨inner, hinner, rfl⟩ := Option.map_eq_some_iff.1 hleft
    have hpush : (machine.limited limit).pushScope = machine.pushScope.limited limit := rfl
    have hwritten : (inner.leaveScope machine.env.depth).sink.written = inner.sink.written := rfl
    have htwin := hlimited hroom inner hinner
    rw [hpush, hwritten]
    split at htwin
    · rename_i hfits
      rw [if_pos hfits, htwin, mapMachine_mapMachine, mapMachine_mapMachine]
      rfl
    · rename_i hfull
      obtain ⟨stopped, hstopped, hcut⟩ := htwin
      rw [if_neg hfull, hstopped]
      exact ⟨_, rfl, hcut⟩

theorem compatible_limits (limit : Nat) : (Limits limit).Compatible where
  outOfFuel _ _ := ⟨nofun, fun _ ↦ nofun⟩
  yield := limits_yield
  update := limits_update
  write := limits_write
  flush := limits_flush
  record add _ _ h machine hunlimited := h _ ⟨hunlimited.refusal?, hunlimited.flushFailure?⟩
  choose test _ _ _ _ h hnext machine hunlimited := by
    have henv : (machine.limited limit).env = machine.env := rfl
    dsimp only
    rw [henv]
    split
    · exact h machine hunlimited
    · exact hnext machine hunlimited
  bind := limits_bind
  withScope := limits_withScope

end Machine

namespace Outcome

variable {α : Type} {limit : Nat}

theorem exists_machine_of_shown {outcome : Outcome α} {env : Env} {output : ByteArray}
    {result : Except Error α} (h : outcome.shown = some (env, output, result)) :
    ∃ left, outcome.machine? = some left ∧ left.sink.written = output := by
  cases outcome <;> cases h <;> exact ⟨_, rfl, rfl⟩

theorem shown_mapMachine_limited (outcome : Outcome α) :
    (outcome.mapMachine (Machine.limited limit)).shown = outcome.shown := by
  cases outcome <;> rfl

theorem LimitedTo.shown {full cut : Outcome α} (h : LimitedTo limit full cut) {env : Env}
    {output : ByteArray} {result : Except Error α}
    (hfull : full.shown = some (env, output, result)) :
    if output.size ≤ limit then cut.shown = some (env, output, result)
    else ∃ stopped, cut.shown =
      some (stopped, output.extract 0 limit, .error (.io "sink full")) := by
  obtain ⟨left, hleft, rfl⟩ := exists_machine_of_shown hfull
  have hcut := h left hleft
  split at hcut
  · rename_i hfits
    rw [if_pos hfits, hcut, shown_mapMachine_limited, hfull]
  · rename_i hfull
    obtain ⟨stopped, hstopped, hwritten⟩ := hcut
    rw [if_neg hfull, hstopped, ← hwritten]
    exact ⟨stopped.env, rfl⟩

end Outcome

/-- A run that ends on a sink without a limit ends on one that takes `limit` bytes as well: alike
if its output fits, and otherwise with the sink's error behind the first `limit` bytes. -/
theorem limited_interpret {blockScope : Bool} {fuel : Nat} {program : Program} {env left : Env}
    {log : Log} {output : ByteArray} {result : Except Error (Option Int)}
    (h : (Machine.interpret blockScope fuel program ⟨env, .unlimited, log⟩).shown =
      some (left, output, result)) (limit : Nat) :
    if output.size ≤ limit then
      (Machine.interpret blockScope fuel program ⟨env, .upTo limit, log⟩).shown =
        some (left, output, result)
    else
      ∃ stopped, (Machine.interpret blockScope fuel program ⟨env, .upTo limit, log⟩).shown =
        some (stopped, output.extract 0 limit, .error (.io "sink full")) := by
  obtain ⟨-, hlimited⟩ := (Machine.compatible_limits limit).interpret blockScope fuel program
    ⟨env, .unlimited, log⟩ ⟨rfl, rfl⟩
  exact (hlimited (Nat.zero_le limit)).shown h

/-- A loop that writes a character of two bytes and a newline in a branch, and then returns. -/
def accentProgram : Program :=
  [.declare "x" (.boolean true) true,
    .loop (.assign "x" (.boolean true)) (.identifier "x") (.assign "x" (.boolean false))
      [.branch (.boolean true) [.write true (some "é") none] [] none],
    .ret (.boolean true)]

/-- With room for one byte the run ends inside the character, with room for three as it does
without a limit. -/
theorem limited_interpret_accentProgram :
    (∃ stopped, (Machine.interpret true 5 accentProgram ⟨.empty, .upTo 1, .empty .quiet⟩).shown =
        some (stopped, ⟨#[0xC3]⟩, .error (.io "sink full"))) ∧
      (Machine.interpret true 5 accentProgram ⟨.empty, .upTo 3, .empty .quiet⟩).shown =
        some (⟨[("x", ⟨.boolean false, true⟩)], [], []⟩, ⟨#[0xC3, 0xA9, 0x0A]⟩, .ok (some 1)) := by
  have hfull : (Machine.interpret true 5 accentProgram
      ⟨.empty, .unlimited, .empty .quiet⟩).shown =
      some (⟨[("x", ⟨.boolean false, true⟩)], [], []⟩, ⟨#[0xC3, 0xA9, 0x0A]⟩, .ok (some 1)) := rfl
  exact ⟨limited_interpret hfull 1, limited_interpret hfull 3⟩

end Scriptlet
