import Scriptlet.Proofs.Rewriting.Basic
import Scriptlet.Proofs.Session.Joined

/-!
# Statements behind a `ret`

A `ret` ends the list of statements that it stands in, with a value or with an error, and the value
travels outward from there. So it makes no difference to any run what stands behind a `ret` in its
list, at any depth, nor what stands behind a program that has returned.
-/

open Filter

namespace Scriptlet

/-- The statements up to the first `ret`, which stays. -/
def Node.upToReturn : List Node → List Node
  | [] => []
  | .ret value :: _ => [.ret value]
  | node :: rest => node :: upToReturn rest

/-- Takes away what stands behind the first `ret` of every list of statements. -/
def curtailing : Rewriting where
  body := Node.upToReturn

namespace Machine

/-- A `ret` is not done without a value. -/
theorem exec_ret_ne_none (blockScope : Bool) (fuel : Nat) (value : Node) (machine after : Machine) :
    exec blockScope fuel (.ret value) machine ≠ .done after none := by
  intro h
  cases fuel with
  | zero => cases h
  | succ fuel =>
    rw [exec, execWith] at h
    unfold eval yield at h
    cases hvalue : evalExpr (machine.trace .interpreter _).env value with
    | ok result =>
      rw [hvalue] at h
      cases h
    | error error =>
      rw [hvalue] at h
      cases h

theorem runBlock_upToReturn {run : Runner}
    (hret : ∀ value machine after, run (.ret value) machine ≠ .done after none)
    (body : List Node) : runBlock run (Node.upToReturn body) = runBlock run body := by
  fun_induction Node.upToReturn body with
  | case1 => rfl
  | case2 value rest =>
    funext machine
    rw [runBlock, runBlock]
    cases houtcome : run (.ret value) machine with
    | done after returned =>
      cases returned with
      | some result => rfl
      | none => exact absurd houtcome (hret value machine after)
    | failed after error => rfl
    | outOfFuel => rfl
  | case3 node rest _ ih =>
    funext machine
    rw [runBlock, runBlock, ih]

end Machine

open Machine

theorem sound_curtailing (blockScope : Bool) : curtailing.Sound blockScope where
  sameValue := .refl
  node fuel node := by
    filter_upwards [eventually_ge_atTop fuel] with more hfuel
    exact outruns_exec blockScope hfuel node
  body fuel body := by
    filter_upwards [eventually_ge_atTop fuel] with more hfuel
    rw [curtailing, runBlock_upToReturn (exec_ret_ne_none blockScope more)]
    exact outruns_runBlock (outruns_exec blockScope hfuel) body
  of_node fuel node := outruns_exec blockScope (Nat.le_refl fuel) node
  of_body fuel body := by
    rw [curtailing, runBlock_upToReturn (exec_ret_ne_none blockScope fuel)]
    exact outruns_runBlock (outruns_exec blockScope (Nat.le_refl fuel)) body

/-- A program without the statements behind a `ret`, at any depth, ends exactly when the program
does, and alike; and a program that has returned a code returns it with any program behind it. -/
theorem curtailing_keeps_meaning :
    (∀ (program : Program) (blockScope : Bool) (machine : Machine) (ending : Ending (Option Int)),
      (∃ fuel, (machine.interpret blockScope fuel program).seen = some ending) ↔
        ∃ fuel, (machine.interpret blockScope fuel (curtailing.applyAll program)).seen =
          some ending) ∧
    ∀ (program others : Program) (blockScope : Bool) (fuel : Nat) (machine : Machine) (env : Env)
      (sink : Sink) (code : Int),
      (machine.interpret blockScope fuel program).seen = some (env, sink, .ok (some code)) →
        (machine.interpret blockScope fuel (program ++ others)).seen =
          some (env, sink, .ok (some code)) := by
  constructor
  · intro program blockScope machine ending
    exact (sound_curtailing blockScope).exists_seen_iff program machine ending
  · intro program others blockScope fuel machine env sink code hending
    exact seen_interpret_append.2 (.inl ⟨hending, by simp⟩)

/-- A loop that returns from a branch in its first round, with statements behind each `ret`. -/
def returningProgram : Program :=
  [.loop (.declare "i" (.boolean true) true) (.identifier "i") (.write false (some "next") none)
    [.branch (.identifier "i")
      [.assign "x" (.string "b"), .ret (.identifier "i"), .write false (some "dead") none] []
      none,
      .ret (.identifier "y"), .assign "x" (.string "c")],
    .ret (.boolean false), .write false (some "dead") none]

def returningMachine : Machine :=
  ⟨⟨[("x", ⟨.string "a", true⟩)], [], []⟩, .unlimited, .empty .quiet⟩

theorem curtailing_keeps_meaning_in_round :
    curtailing.applyAll returningProgram =
      [.loop (.declare "i" (.boolean true) true) (.identifier "i")
        (.write false (some "next") none)
        [.branch (.identifier "i") [.assign "x" (.string "b"), .ret (.identifier "i")] [] none,
          .ret (.identifier "y")],
        .ret (.boolean false)] ∧
    (∃ fuel, (returningMachine.interpret true fuel (curtailing.applyAll returningProgram)).seen =
      some (⟨[("x", ⟨.string "b", true⟩)], [], []⟩, .unlimited, .ok (some 1))) ∧
    (returningMachine.interpret true 4 returningProgram).seen =
      some (⟨[("x", ⟨.string "b", true⟩)], [], []⟩, .unlimited, .ok (some 1)) ∧
    (returningMachine.interpret true 4 (returningProgram ++ [.ret (.boolean false)])).seen =
      some (⟨[("x", ⟨.string "b", true⟩)], [], []⟩, .unlimited, .ok (some 1)) := by
  have hreturned : (returningMachine.interpret true 4 returningProgram).seen =
      some (⟨[("x", ⟨.string "b", true⟩)], [], []⟩, .unlimited, .ok (some 1)) := rfl
  refine ⟨rfl, ?_, hreturned, ?_⟩
  · exact (curtailing_keeps_meaning.1 returningProgram true returningMachine _).1 ⟨4, hreturned⟩
  · exact curtailing_keeps_meaning.2 _ _ true 4 returningMachine _ _ 1 hreturned

end Scriptlet
