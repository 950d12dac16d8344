import Scriptlet.Proofs.Run.Agree
import Scriptlet.Proofs.Run.Similar

/-!
# Endings, fuel and logs

What can be seen of a run that has ended is its environment, its sink and its result. More fuel
shows no other ending, and the log decides nothing: the two facts are one simulation between runs
that start alike, of which the second may have more fuel. The simulation is shown of statements of
one form, whose inner statements are simulated in turn, so that it serves rewritings of programs
as well.
-/

namespace Scriptlet

/-- What a run that has ended leaves behind, apart from its log. -/
abbrev Ending (α : Type) := Env × Sink × Except Error α

namespace Outcome

/-- The ending of a run, unless it lacked fuel. -/
def seen {α : Type} : Outcome α → Option (Ending α)
  | done machine value => some (machine.env, machine.sink, .ok value)
  | failed machine error => some (machine.env, machine.sink, .error error)
  | outOfFuel => none

/-- If the first run ends, the second ends with the same result and a related machine. -/
def Follows {α : Type} (R : Machine → Machine → Prop) : Outcome α → Outcome α → Prop
  | done machine value, right => ∃ other, right = done other value ∧ R machine other
  | failed machine error, right => ∃ other, right = failed other error ∧ R machine other
  | outOfFuel, _ => True

variable {α β : Type} {R : Machine → Machine → Prop}

theorem follows_done {machine other : Machine} {value : α} (h : R machine other) :
    Follows R (done machine value) (done other value) :=
  ⟨other, rfl, h⟩

theorem follows_failed {machine other : Machine} {error : Error} (h : R machine other) :
    Follows R (failed machine error : Outcome α) (failed other error) :=
  ⟨other, rfl, h⟩

theorem Agree.follows {left right : Outcome α} (h : Agree R left right) : Follows R left right := by
  cases h with
  | done value h => exact follows_done h
  | failed error h => exact follows_failed h
  | outOfFuel => trivial

theorem Follows.bind {left right : Outcome α} {next follower : Machine → α → Outcome β}
    (h : Follows R left right)
    (hnext : ∀ machine other value, R machine other →
      Follows R (next machine value) (follower other value)) :
    Follows R (left.bind next) (right.bind follower) := by
  cases left with
  | done machine value =>
    obtain ⟨other, rfl, hother⟩ := h
    exact hnext machine other value hother
  | failed machine error =>
    obtain ⟨other, rfl, hother⟩ := h
    exact follows_failed hother
  | outOfFuel => trivial

theorem Follows.trans {left middle right : Outcome α} (h : Follows R left middle)
    (hnext : Follows R middle right)
    (hR : ∀ first second third, R first second → R second third → R first third) :
    Follows R left right := by
  cases left with
  | done machine value =>
    obtain ⟨other, rfl, hother⟩ := h
    obtain ⟨last, rfl, hlast⟩ := hnext
    exact follows_done (hR _ _ _ hother hlast)
  | failed machine error =>
    obtain ⟨other, rfl, hother⟩ := h
    obtain ⟨last, rfl, hlast⟩ := hnext
    exact follows_failed (hR _ _ _ hother hlast)
  | outOfFuel => trivial

end Outcome

namespace Machine

open Outcome

/-- The machines differ in their logs at most. -/
structure Alike (machine other : Machine) : Prop where
  env : other.env = machine.env
  sink : other.sink = machine.sink

theorem Alike.refl (machine : Machine) : machine.Alike machine := ⟨rfl, rfl⟩

/-- From machines that are alike, the second step does at least what the first one does. -/
def Outruns {α : Type} (run faster : Machine → Outcome α) : Prop :=
  ∀ machine other, machine.Alike other → Follows Alike (run machine) (faster other)

theorem Outruns.trans {α : Type} {run faster fastest : Machine → Outcome α}
    (h : Outruns run faster) (hnext : Outruns faster fastest) : Outruns run fastest := by
  intro machine other halike
  apply (h machine machine (.refl machine)).trans (hnext machine other halike)
  intro first second third hfirst hsecond
  exact ⟨hsecond.env.trans hfirst.env, hsecond.sink.trans hfirst.sink⟩

/-! ## Single steps -/

theorem sharesSink_alike : SharesSink Alike :=
  ⟨fun h ↦ h.sink, fun h _ ↦ ⟨h.env, rfl⟩⟩

theorem agree_eval {node same : Node} (hvalue : node.SameValue same) {machine other : Machine}
    (h : machine.Alike other) : Agree Alike (machine.eval node) (other.eval same) := by
  unfold eval yield
  rw [h.env, ← hvalue]
  cases evalExpr machine.env node with
  | ok value => exact .done value h
  | error e => exact .failed e h

theorem outruns_eval {node same : Node} (hvalue : node.SameValue same) :
    Outruns (eval node) (eval same) :=
  fun _ _ h ↦ (agree_eval hvalue h).follows

theorem outruns_update (operation : Env → Except Error Env) :
    Outruns (update operation) (update operation) := by
  intro machine other h
  unfold update
  rw [h.env]
  split
  · exact follows_done ⟨rfl, h.sink⟩
  · exact follows_failed h

theorem outruns_writePayload (newline : Bool) (text : Option String)
    {expression same : Option Node} (hexpression : Option.Rel Node.SameValue expression same) :
    Outruns (writePayload newline text expression) (writePayload newline text same) := by
  intro machine other h
  refine (sharesSink_alike.writePayload newline text h ?_).follows
  cases hexpression with
  | none => exact .none
  | some hvalue => exact .some (agree_eval hvalue h)

theorem alike_pushScope {machine other : Machine} (h : machine.Alike other) :
    machine.pushScope.Alike other.pushScope :=
  ⟨congrArg Env.push h.env, h.sink⟩

theorem alike_leaveScope (depth : Nat) {machine other : Machine} (h : machine.Alike other) :
    (machine.leaveScope depth).Alike (other.leaveScope depth) :=
  ⟨congrArg (Env.truncate depth) h.env, h.sink⟩

theorem outruns_withScope {α : Type} {run faster : Machine → Outcome α}
    (hrun : Outruns run faster) : Outruns (withScope run) (withScope faster) := by
  intro machine other h
  have hinner := hrun machine.pushScope other.pushScope (alike_pushScope h)
  unfold withScope
  rw [h.env]
  dsimp only
  cases hleft : run machine.pushScope with
  | done inner value =>
    rw [hleft] at hinner
    obtain ⟨outer, hright, halike⟩ := hinner
    rw [hright]
    exact follows_done (alike_leaveScope _ halike)
  | failed inner error =>
    rw [hleft] at hinner
    obtain ⟨outer, hright, halike⟩ := hinner
    rw [hright]
    exact follows_failed (alike_leaveScope _ halike)
  | outOfFuel => trivial

/-! ## Statements -/

variable {run faster : Runner}

theorem outruns_runBlock_nil : Outruns (runBlock run []) (runBlock faster []) :=
  fun _ _ h ↦ follows_done h

theorem outruns_runBlock_cons {node same : Node} {rest others : List Node}
    (hnode : Outruns (run node) (faster same))
    (hrest : Outruns (runBlock run rest) (runBlock faster others)) :
    Outruns (runBlock run (node :: rest)) (runBlock faster (same :: others)) := by
  intro machine other h
  refine (hnode machine other h).bind fun machine other returned h ↦ ?_
  cases returned with
  | some value => exact follows_done h
  | none => exact hrest machine other h

theorem outruns_runBlock (hrun : ∀ node, Outruns (run node) (faster node)) (body : List Node) :
    Outruns (runBlock run body) (runBlock faster body) := by
  induction body with
  | nil => exact fun machine other h ↦ follows_done h
  | cons node rest ih =>
    intro machine other h
    refine (hrun node machine other h).bind fun machine other returned h ↦ ?_
    cases returned with
    | some value => exact follows_done h
    | none => exact ih machine other h

theorem outruns_runBody (blockScope : Bool) {body inner : List Node}
    (hbody : Outruns (runBlock run body) (runBlock faster inner)) :
    Outruns (runBody blockScope run body) (runBody blockScope faster inner) := by
  intro machine other h
  unfold runBody
  split
  · exact outruns_withScope hbody machine other h
  · exact hbody machine other h

theorem outruns_runBranches (blockScope : Bool) {otherwise last : Option (List Node)}
    {branches clauses : List (Node × List Node)}
    (hotherwise : Option.Rel (fun body inner ↦ Outruns (runBlock run body) (runBlock faster inner))
      otherwise last)
    (hbranches : List.Forall₂ (fun branch clause ↦ branch.1.SameValue clause.1 ∧
      Outruns (runBlock run branch.2) (runBlock faster clause.2)) branches clauses) :
    Outruns (runBranches blockScope run otherwise branches)
      (runBranches blockScope faster last clauses) := by
  induction hbranches with
  | nil =>
    intro machine other h
    cases hotherwise with
    | some hbody => exact outruns_runBody blockScope hbody machine other h
    | none => exact follows_done h
  | cons hbranch _ ih =>
    intro machine other h
    refine (outruns_eval hbranch.1 machine other h).bind fun machine other value h ↦ ?_
    split
    · exact outruns_runBody blockScope hbranch.2 machine other h
    · exact ih machine other h

/-- The induction is on the smaller number of rounds. -/
theorem outruns_runRounds (blockScope : Bool) {condition guard update next : Node}
    {body inner : List Node} (hcondition : condition.SameValue guard)
    (hupdate : Outruns (run update) (faster next))
    (hbody : Outruns (runBlock run body) (runBlock faster inner)) {fuel more : Nat}
    (hfuel : fuel ≤ more) :
    Outruns (runRounds blockScope run condition update body fuel)
      (runRounds blockScope faster guard next inner more) := by
  induction fuel generalizing more with
  | zero => exact fun machine other _ ↦ trivial
  | succ fuel ih =>
    obtain ⟨more, rfl⟩ := Nat.exists_eq_add_of_lt hfuel
    intro machine other h
    refine (outruns_eval hcondition machine other h).bind fun machine other value h ↦ ?_
    split
    · exact follows_done h
    refine (outruns_runBody blockScope hbody machine other h).bind
      fun machine other returned h ↦ ?_
    cases returned with
    | some value => exact follows_done h
    | none =>
      refine (hupdate machine other h).bind fun machine other _ h ↦ ?_
      exact ih (Nat.le_add_right fuel more) machine other h

theorem execWith_expression (blockScope : Bool) (run : Runner) (fuel : Nat) {node : Node}
    (h : node.isExpression = true) (machine : Machine) :
    execWith blockScope run fuel node machine =
      (machine.eval node).bind fun machine _ ↦ .done machine none := by
  cases node with
  | number | string | boolean | identifier | binary => simp only [execWith]
  | _ => cases h

/-- Statements of one form run alike if the statements inside them do. -/
theorem outruns_execWith (blockScope : Bool) {fuel more : Nat} (hfuel : fuel ≤ more)
    {node same : Node}
    (hsimilar : node.Similar (fun inner other ↦ Outruns (run inner) (faster other))
      (fun body other ↦ Outruns (runBlock run body) (runBlock faster other)) same) :
    Outruns (execWith blockScope run fuel node) (execWith blockScope faster more same) := by
  intro machine other h
  have hvoid : ∀ machine other (_ : Unit), machine.Alike other →
      Follows Alike (.done machine none : Outcome (Option Scalar)) (.done other none) :=
    fun _ _ _ h ↦ follows_done h
  cases hsimilar with
  | declare name isMutable hvalue =>
    rw [execWith, execWith]
    split
    · exact follows_failed h
    refine (outruns_eval hvalue machine other h).bind fun machine other value h ↦ ?_
    exact (outruns_update _ machine other h).bind hvoid
  | assign name hvalue =>
    rw [execWith, execWith, h.env]
    split
    · refine (outruns_eval hvalue machine other h).bind fun machine other value h ↦ ?_
      exact (outruns_update _ machine other h).bind hvoid
    · exact follows_failed h
  | branch hcondition hbody helseIfs hotherwise =>
    rw [execWith, execWith]
    refine outruns_runBranches blockScope hotherwise ?_ machine other h
    exact .cons ⟨hcondition, hbody⟩ helseIfs
  | @loop init first condition guard update next body inner hinit hcondition hupdate hbody =>
    have hloop : Outruns (runLoop blockScope run fuel init condition update body)
        (runLoop blockScope faster more first guard next inner) :=
      fun machine other h ↦ (hinit machine other h).bind fun machine other _ h ↦
        outruns_runRounds blockScope hcondition hupdate hbody hfuel machine other h
    rw [execWith, execWith]
    split
    · exact outruns_withScope hloop machine other h
    · exact hloop machine other h
  | write newline text hexpression =>
    exact (outruns_writePayload newline text hexpression machine other h).bind hvoid
  | ret hvalue =>
    exact (outruns_eval hvalue machine other h).bind fun machine other _ h ↦ follows_done h
  | comment => exact follows_done h
  | expression hnode hsame hvalue =>
    rw [execWith_expression blockScope run fuel hnode,
      execWith_expression blockScope faster more hsame]
    exact (outruns_eval hvalue machine other h).bind fun machine other _ h ↦ follows_done h

theorem outruns_exec (blockScope : Bool) {fuel more : Nat} (hfuel : fuel ≤ more) (node : Node) :
    Outruns (exec blockScope fuel node) (exec blockScope more node) := by
  induction fuel generalizing more node with
  | zero => exact fun machine other _ ↦ trivial
  | succ fuel ih =>
    obtain ⟨more, rfl⟩ := Nat.exists_eq_add_of_lt hfuel
    intro machine other h
    have hless : fuel ≤ fuel + more := Nat.le_add_right fuel more
    exact outruns_execWith blockScope hless
      (.refl (ih hless) (outruns_runBlock (ih hless)) node) _ _ ⟨h.env, h.sink⟩

theorem Outruns.interpret {blockScope : Bool} {fuel more : Nat} {program others : Program}
    (h : Outruns (runBlock (exec blockScope fuel) program)
      (runBlock (exec blockScope more) others)) :
    Outruns (interpret blockScope fuel program) (interpret blockScope more others) := by
  intro machine other halike
  refine (h machine other halike).bind fun machine other returned h ↦ ?_
  cases returned with
  | some value => exact follows_done ⟨h.env, h.sink⟩
  | none => exact follows_done h

end Machine

namespace Outcome

variable {α β : Type}

theorem Follows.seen_eq {left right : Outcome α} (h : Follows Machine.Alike left right)
    {ending : Ending α} (hending : left.seen = some ending) : right.seen = some ending := by
  cases left with
  | done machine value =>
    obtain ⟨other, rfl, halike⟩ := h
    rw [← hending, seen, seen, halike.env, halike.sink]
  | failed machine error =>
    obtain ⟨other, rfl, halike⟩ := h
    rw [← hending, seen, seen, halike.env, halike.sink]
  | outOfFuel => cases hending

end Outcome

/-- An ending is the same with more fuel and another log. -/
theorem Machine.seen_interpret_of_le {blockScope : Bool} {fuel more : Nat} (hfuel : fuel ≤ more)
    {program : Program} {machine other : Machine} (h : machine.Alike other)
    {ending : Ending (Option Int)}
    (hending : (machine.interpret blockScope fuel program).seen = some ending) :
    (other.interpret blockScope more program).seen = some ending :=
  ((outruns_runBlock (outruns_exec blockScope hfuel) program).interpret machine other h).seen_eq
    hending

end Scriptlet
