import Mathlib.Logic.Function.Iterate
import Scriptlet.Proofs.Environment.Run
import Scriptlet.Proofs.Run.Fuel
import Scriptlet.Proofs.Scoping.Declared

/-!
# Empty scopes change nothing

Where nothing is declared inside branches and loops, the scopes that a run with block scopes opens
stay empty. Its environment is then at every moment that of the run without block scopes, with as
many empty scopes on top as blocks are open, and the two runs end alike. The simulation is carried
by that number of scopes.
-/

namespace Scriptlet

namespace Env

theorem depth_push_iterate (count : Nat) (env : Env) :
    (push^[count] env).depth = env.depth + count := by
  induction count with
  | zero => rfl
  | succ count ih =>
    rw [Function.iterate_succ_apply']
    exact congrArg Nat.succ ih

theorem lookup?_push_iterate (count : Nat) (name : String) (env : Env) :
    (push^[count] env).lookup? name = env.lookup? name := by
  induction count with
  | zero => rfl
  | succ count ih =>
    rw [Function.iterate_succ_apply']
    exact ih

/-- The empty scope has no variable to assign to. -/
theorem assign_push (name : String) (value : Scalar) (env : Env) :
    env.push.assign name value = (env.assign name value).map push := by
  have hscopes : assignIn name value env.push.scopes =
      (assignIn name value env.scopes).map ([] :: ·) := by
    rw [scopes_push, assignIn, List.lookup_nil]
    cases assignIn name value env.scopes <;> rfl
  unfold assign
  rw [hscopes]
  cases hassign : assignIn name value env.scopes with
  | ok changed =>
    have hlength := (forall₂_assignIn hassign).length_eq
    cases changed with
    | nil => cases hlength
    | cons scope rest => rfl
  | error e => rfl

theorem assign_push_iterate (count : Nat) (name : String) (value : Scalar) (env : Env) :
    (push^[count] env).assign name value = (env.assign name value).map push^[count] := by
  induction count with
  | zero => exact (id_map (env.assign name value)).symm
  | succ count ih =>
    rw [Function.iterate_succ_apply', assign_push, ih]
    cases env.assign name value with
    | ok after => exact congrArg Except.ok (Function.iterate_succ_apply' push count after).symm
    | error e => rfl

theorem truncate_push (env : Env) : env.push.truncate env.depth = env := by
  have hdepth : env.push.depth - env.depth = 1 := Nat.add_sub_cancel_left env.depth 1
  unfold truncate
  rw [hdepth]
  rfl

end Env

theorem evalExpr_push_iterate (count : Nat) (env : Env) :
    ∀ node : Node, evalExpr (Env.push^[count] env) node = evalExpr env node
  | .identifier name => by
    rw [evalExpr, evalExpr, Env.get, Env.get, Env.lookup?_push_iterate]
  | .binary left op right => by
    rw [evalExpr, evalExpr, evalExpr_push_iterate count env left,
      evalExpr_push_iterate count env right]
  | .number _ | .string _ | .boolean _ | .comment _ => rfl
  | .branch .. | .loop .. | .declare .. | .assign .. | .write .. | .ret _ => rfl

namespace Machine

open Outcome

/-- The second machine is the first inside of `count` empty scopes, but for the log. -/
structure Nested (count : Nat) (machine other : Machine) : Prop where
  env : other.env = Env.push^[count] machine.env
  sink : other.sink = machine.sink

/-- From a machine and the same inside of `count` empty scopes, the two runs agree. -/
def Matches {α : Type} (count : Nat) (run padded : Machine → Outcome α) : Prop :=
  ∀ machine other, machine.Nested count other → Agree (Nested count) (run machine) (padded other)

variable {count : Nat}

/-! ## Single steps -/

theorem matches_eval (node : Node) : Matches count (eval node) (eval node) := by
  intro machine other h
  unfold eval yield
  rw [h.env, evalExpr_push_iterate]
  cases evalExpr machine.env node with
  | ok value => exact .done value h
  | error e => exact .failed e h

theorem matches_update {operation : Env → Except Error Env}
    (hoperation : ∀ env, operation (Env.push^[count] env) =
      (operation env).map Env.push^[count]) :
    Matches count (update operation) (update operation) := by
  intro machine other h
  unfold update
  rw [h.env, hoperation]
  cases operation machine.env with
  | ok after => exact .done () ⟨rfl, h.sink⟩
  | error e => exact .failed e h

theorem sharesSink_nested : SharesSink (Nested count) :=
  ⟨fun h ↦ h.sink, fun h _ ↦ ⟨h.env, rfl⟩⟩

theorem matches_writePayload (newline : Bool) (text : Option String) (expression : Option Node) :
    Matches count (writePayload newline text expression)
      (writePayload newline text expression) := by
  intro machine other h
  refine sharesSink_nested.writePayload newline text h ?_
  exact Node.rel_refl (fun node ↦ matches_eval node machine other h) expression

theorem Nested.pushScope {machine other : Machine} (h : machine.Nested count other) :
    machine.Nested (count + 1) other.pushScope := by
  refine ⟨?_, h.sink⟩
  rw [Function.iterate_succ_apply', ← h.env]
  rfl

/-- A safe run keeps the depth, and so the scope that is left is the one that was entered. -/
theorem Nested.leaveScope {machine after other inner : Machine} (h : machine.Nested count other)
    (hsafe : machine.env.Safe after.env) (hinner : after.Nested (count + 1) inner) :
    after.Nested count (inner.leaveScope other.env.depth) := by
  have hdepth : other.env.depth = (Env.push^[count] after.env).depth := by
    rw [h.env, Env.depth_push_iterate, Env.depth_push_iterate, hsafe.depth]
  refine ⟨?_, hinner.sink⟩
  calc
    (inner.leaveScope other.env.depth).env =
        (Env.push^[count + 1] after.env).truncate (Env.push^[count] after.env).depth := by
      rw [← hdepth, ← hinner.env]
      rfl
    _ = Env.push^[count] after.env := by
      rw [Function.iterate_succ_apply', Env.truncate_push]

/-- A scope that is entered and left adds one empty scope in between. -/
theorem matches_withScope {α : Type} {run padded : Machine → Outcome α} (hsafe : SafeStep run)
    (h : Matches (count + 1) run padded) : Matches count run (withScope padded) := by
  intro machine other hnested
  have hinner := h machine other.pushScope hnested.pushScope
  have hmachine := hsafe machine
  unfold withScope
  dsimp only
  generalize run machine = left at hinner hmachine
  generalize padded other.pushScope = right at hinner
  cases hinner with
  | done value hinner => exact .done value (hnested.leaveScope (hmachine _ rfl) hinner)
  | failed error hinner => exact .failed error (hnested.leaveScope (hmachine _ rfl) hinner)
  | outOfFuel => exact .outOfFuel

/-! ## Statements -/

theorem matches_runBlock {run padded : Runner} {body : List Node}
    (hbody : ∀ node ∈ body, Matches count (run node) (padded node)) :
    Matches count (runBlock run body) (runBlock padded body) := by
  induction body with
  | nil => exact fun machine other h ↦ .done none h
  | cons node rest ih =>
    intro machine other h
    rw [List.forall_mem_cons] at hbody
    refine (hbody.1 machine other h).bind fun machine other returned h ↦ ?_
    cases returned with
    | some value => exact .done (some value) h
    | none => exact ih hbody.2 machine other h

section Undeclaring

variable {run padded : Runner} (hsafe : ∀ node, SafeStep (run node))
  (hrun : ∀ count (node : Node), node.declared = [] → Matches count (run node) (padded node))

include hsafe hrun

theorem matches_runBody {body : List Node} (hbody : Node.declaredBody body = []) :
    Matches count (runBody false run body) (runBody true padded body) :=
  matches_withScope (safeStep_runBlock hsafe body) <| matches_runBlock fun node hnode ↦
    hrun (count + 1) node (Node.declared_eq_nil_of_mem hbody hnode)

theorem matches_runBranches {otherwise : Option (List Node)}
    {branches : List (Node × List Node)} (hbranches : Node.declaredClauses branches = [])
    (hotherwise : Node.declaredOtherwise otherwise = []) :
    Matches count (runBranches false run otherwise branches)
      (runBranches true padded otherwise branches) := by
  induction branches with
  | nil =>
    intro machine other h
    cases otherwise with
    | some body => exact matches_runBody hsafe hrun hotherwise machine other h
    | none => exact .done none h
  | cons branch rest ih =>
    obtain ⟨condition, body⟩ := branch
    rw [Node.declaredClauses, List.append_eq_nil_iff] at hbranches
    intro machine other h
    refine (matches_eval condition machine other h).bind fun machine other value h ↦ ?_
    split
    · exact matches_runBody hsafe hrun hbranches.1 machine other h
    · exact ih hbranches.2 machine other h

theorem matches_runRounds (condition : Node) {update : Node} {body : List Node}
    (hupdate : update.declared = []) (hbody : Node.declaredBody body = []) (fuel : Nat) :
    Matches count (runRounds false run condition update body fuel)
      (runRounds true padded condition update body fuel) := by
  induction fuel with
  | zero => exact fun machine other _ ↦ .outOfFuel
  | succ fuel ih =>
    intro machine other h
    refine (matches_eval condition machine other h).bind fun machine other value h ↦ ?_
    split
    · exact .done none h
    refine (matches_runBody hsafe hrun hbody machine other h).bind
      fun machine other returned h ↦ ?_
    cases returned with
    | some value => exact .done (some value) h
    | none =>
      refine (hrun count update hupdate machine other h).bind fun machine other _ h ↦ ?_
      exact ih machine other h

theorem matches_runLoop (condition : Node) {init update : Node} {body : List Node}
    (hinit : init.declared = []) (hupdate : update.declared = [])
    (hbody : Node.declaredBody body = []) (fuel : Nat) :
    Matches count (runLoop false run fuel init condition update body)
      (runLoop true padded fuel init condition update body) :=
  fun machine other h ↦ (hrun count init hinit machine other h).bind fun machine other _ h ↦
    matches_runRounds hsafe hrun condition hupdate hbody fuel machine other h

theorem matches_execWith (fuel : Nat) {node : Node} (hnode : node.declared = []) :
    Matches count (execWith false run fuel node) (execWith true padded fuel node) := by
  intro machine other h
  have hvoid : ∀ machine other (_ : Unit), machine.Nested count other →
      Agree (Nested count) (.done machine none : Outcome (Option Scalar)) (.done other none) :=
    fun _ _ _ h ↦ .done none h
  cases node with
  | declare name value isMutable => cases hnode
  | assign name value =>
    rw [execWith, execWith, h.env, Env.has, Env.has, Env.lookup?_push_iterate]
    split
    · refine (matches_eval value machine other h).bind fun machine other value h ↦ ?_
      exact (matches_update (Env.assign_push_iterate count name value) machine other h).bind hvoid
    · exact .failed _ h
  | branch condition body elseIfs otherwise =>
    rw [Node.declared_branch, List.append_eq_nil_iff] at hnode
    exact matches_runBranches hsafe hrun hnode.1 hnode.2 machine other h
  | loop init condition update body =>
    rw [Node.declared, List.append_eq_nil_iff, List.append_eq_nil_iff] at hnode
    obtain ⟨⟨hinit, hupdate⟩, hbody⟩ := hnode
    exact matches_withScope (safeStep_runLoop false hsafe fuel init condition update body)
      (matches_runLoop hsafe hrun condition hinit hupdate hbody fuel) machine other h
  | write newline text expression =>
    exact (matches_writePayload newline text expression machine other h).bind hvoid
  | ret value =>
    exact (matches_eval value machine other h).bind fun machine other value h ↦ .done _ h
  | comment text => exact .done none h
  | number | string | boolean | identifier | binary =>
    rw [execWith_expression false run fuel rfl, execWith_expression true padded fuel rfl]
    exact (matches_eval _ machine other h).bind fun machine other _ h ↦ .done none h

end Undeclaring

theorem matches_exec (fuel : Nat) {node : Node} (hnode : node.declared = []) :
    Matches count (exec false fuel node) (exec true fuel node) := by
  induction fuel generalizing count node with
  | zero => exact fun machine other _ ↦ .outOfFuel
  | succ fuel ih =>
    intro machine other h
    exact matches_execWith (safeStep_exec false fuel) (fun _ _ ↦ ih) fuel hnode _ _
      ⟨h.env, h.sink⟩

/-- Outside of all blocks the environments are the same, and so a declaration does the same. -/
theorem matches_exec_declare (fuel : Nat) (name : String) (value : Node) (isMutable : Bool) :
    Matches 0 (exec false fuel (.declare name value isMutable))
      (exec true fuel (.declare name value isMutable)) := by
  intro machine other h
  cases fuel with
  | zero => exact .outOfFuel
  | succ fuel =>
    rw [exec, exec, execWith, execWith]
    split
    · exact .failed _ ⟨h.env, h.sink⟩
    refine (matches_eval value (machine.trace _ _) (other.trace _ _) ⟨h.env, h.sink⟩).bind
      fun machine other value h ↦ ?_
    refine (matches_update (fun env ↦ ?_) machine other h).bind fun _ _ _ h ↦ .done none h
    exact (id_map (env.declare name value isMutable)).symm

end Machine

theorem Outcome.Agree.seen_eq {α : Type} {left right : Outcome α}
    (h : Agree (Machine.Nested 0) left right) : left.seen = right.seen := by
  cases h with
  | done value h =>
    rw [seen, seen, h.env, h.sink]
    rfl
  | failed error h =>
    rw [seen, seen, h.env, h.sink]
    rfl
  | outOfFuel => rfl

/-- If nothing is declared inside branches and loops, a program does the same with block scopes as
without them. -/
theorem seen_unscoped_eq_scoped {program : Program}
    (hprogram : ∀ node ∈ program, node.declaredInside = []) (fuel : Nat) (machine : Machine) :
    (machine.interpret false fuel program).seen = (machine.interpret true fuel program).seen := by
  have hblock : Machine.Matches 0 (Machine.runBlock (Machine.exec false fuel) program)
      (Machine.runBlock (Machine.exec true fuel) program) := by
    refine Machine.matches_runBlock fun node hnode ↦ ?_
    obtain ⟨name, value, isMutable, rfl⟩ | hnode := Node.declaredInside_eq_nil (hprogram node hnode)
    · exact Machine.matches_exec_declare fuel name value isMutable
    · exact Machine.matches_exec fuel hnode
  have hagree : Outcome.Agree (Machine.Nested 0) (machine.interpret false fuel program)
      (machine.interpret true fuel program) := by
    refine (hblock machine machine ⟨rfl, rfl⟩).bind fun machine other returned h ↦ ?_
    cases returned with
    | some value => exact .done _ ⟨h.env, h.sink⟩
    | none => exact .done none h
  exact hagree.seen_eq

/-- A loop whose first round assigns in a branch and whose second fails in one. -/
def roundsProgram : Program :=
  [.declare "i" (.string "first") true,
    .loop (.assign "x" (.boolean true)) (.boolean true) (.assign "x" (.boolean false))
      [.branch (.identifier "x") [.assign "i" (.string "second")]
        [(.boolean true, [.write false (some "last") none, .assign "k" (.identifier "i")])] none]]

def roundsMachine : Machine :=
  ⟨⟨[("x", ⟨.string "a", true⟩)], [[("k", ⟨.boolean true, false⟩)]], []⟩, .unlimited,
    .empty .quiet⟩

theorem seen_unscoped_eq_scoped_failing_round :
    (∀ node ∈ roundsProgram, node.declaredInside = []) ∧
      (roundsMachine.interpret false 5 roundsProgram).seen =
        (roundsMachine.interpret true 5 roundsProgram).seen ∧
      (roundsMachine.interpret true 5 roundsProgram).seen.map (fun ending ↦ ending.2.2) =
        some (.error (.immutableAssignment "k")) := by
  have hprogram : ∀ node ∈ roundsProgram, node.declaredInside = [] :=
    List.forall_mem_cons.2 ⟨rfl, List.forall_mem_singleton.2 rfl⟩
  exact ⟨hprogram, seen_unscoped_eq_scoped hprogram 5 roundsMachine, rfl⟩

end Scriptlet
