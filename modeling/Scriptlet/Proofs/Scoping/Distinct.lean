import Mathlib.Data.List.Nodup
import Scriptlet.Proofs.Environment.Within
import Scriptlet.Proofs.Run.Fuel
import Scriptlet.Proofs.Scoping.Declared

/-!
# Distinct names need no scopes

A program that succeeds with block scopes succeeds without them, if no two of its declarations
share a name, no such name is known beforehand and the rounds of its loops declare nothing. The
run without scopes keeps what the other run has dropped, and so shows at least as much. That
nothing it kept is in the way of a later declaration follows from the list of names that each
statement may declare: each part of a program uses up names of its own.
-/

namespace Scriptlet

/-- An expression that has a value keeps it where more is shown. -/
theorem evalExpr_of_within {env other : Env} (h : env.Within other) : ∀ {node : Node}
    {value : Scalar}, evalExpr env node = .ok value → evalExpr other node = .ok value
  | .identifier name, value, hvalue => by
    rw [evalExpr, Env.get] at hvalue ⊢
    cases hfound : env.lookup? name with
    | some found =>
      rw [hfound] at hvalue
      rw [h name found hfound]
      exact hvalue
    | none =>
      rw [hfound] at hvalue
      cases hvalue
  | .binary left op right, value, hvalue => by
    rw [evalExpr] at hvalue ⊢
    cases hleft : evalExpr env left with
    | error e =>
      rw [hleft] at hvalue
      cases hvalue
    | ok first =>
      cases hright : evalExpr env right with
      | error e =>
        rw [hleft, hright] at hvalue
        cases hvalue
      | ok second =>
        rw [hleft, hright] at hvalue
        rw [evalExpr_of_within h hleft, evalExpr_of_within h hright]
        exact hvalue
  | .number _, _, hvalue | .string _, _, hvalue | .boolean _, _, hvalue => hvalue
  | .branch .., _, hvalue | .loop .., _, hvalue | .declare .., _, hvalue => by cases hvalue
  | .assign .., _, hvalue | .ret _, _, hvalue | .comment _, _, hvalue => by cases hvalue
  | .write .., _, hvalue => by cases hvalue

namespace Machine

open Outcome

/-- The second machine shows what the first one shows, and has the same sink. -/
structure Within (machine other : Machine) : Prop where
  env : machine.env.Within other.env
  sink : other.sink = machine.sink

/-- Where two runs have come to, and that they gained no other names on their way. -/
structure Reached (names : List String) (machine other left right : Machine) : Prop
    extends Within left right where
  grows : machine.env.Grows names left.env
  otherGrows : other.env.Grows names right.env

/-- What the first run achieves the second does, too, from any machine that shows at least as much
and has none of the names. -/
def Achieves {α : Type} (names : List String) (run wide : Machine → Outcome α) : Prop :=
  ∀ ⦃machine other left : Machine⦄ ⦃value : α⦄, machine.Within other →
    (∀ name ∈ names, other.env.lookup? name = none) → run machine = .done left value →
      ∃ right, wide other = .done right value ∧ Reached names machine other left right

variable {α β : Type} {names others : List String}

theorem Achieves.mono {run wide : Machine → Outcome α} (h : Achieves names run wide)
    (hnames : names ⊆ others) : Achieves others run wide := by
  intro machine other left value hwithin hnew hleft
  obtain ⟨right, hright, hreached⟩ := h hwithin (fun name hname ↦ hnew name (hnames hname)) hleft
  exact ⟨right, hright, hreached.toWithin, hreached.grows.mono hnames,
    hreached.otherGrows.mono hnames⟩

/-- The names of the second run are still new when it starts, because the first run gains none of
them. -/
theorem Achieves.bind {run wide : Machine → Outcome α} {next follower : Machine → α → Outcome β}
    (h : Achieves names run wide) (hdisjoint : names.Disjoint others)
    (hnext : ∀ value, Achieves others (next · value) (follower · value)) :
    Achieves (names ++ others) (fun machine ↦ (run machine).bind next)
      (fun machine ↦ (wide machine).bind follower) := by
  intro machine other left value hwithin hnew hleft
  dsimp only at hleft
  cases hrun : run machine with
  | done middle first =>
    rw [hrun] at hleft
    obtain ⟨between, hbetween, hfirst⟩ :=
      h hwithin (fun name hname ↦ hnew name (List.mem_append_left others hname)) hrun
    have hstill : ∀ name ∈ others, between.env.lookup? name = none := fun name hname ↦
      hfirst.otherGrows.lookup?_eq_none (hnew name (List.mem_append_right names hname))
        fun hmem ↦ hdisjoint hmem hname
    obtain ⟨right, hright, hsecond⟩ := hnext first hfirst.toWithin hstill hleft
    refine ⟨right, ?_, hsecond.toWithin, hfirst.grows.trans hsecond.grows,
      hfirst.otherGrows.trans hsecond.otherGrows⟩
    dsimp only
    rw [hbetween]
    exact hright
  | failed middle error =>
    rw [hrun] at hleft
    cases hleft
  | outOfFuel =>
    rw [hrun] at hleft
    cases hleft

theorem Achieves.bind_of_nil {run wide : Machine → Outcome α}
    {next follower : Machine → α → Outcome β} (h : Achieves [] run wide)
    (hnext : ∀ value, Achieves others (next · value) (follower · value)) :
    Achieves others (fun machine ↦ (run machine).bind next)
      (fun machine ↦ (wide machine).bind follower) :=
  h.bind (List.disjoint_nil_left others) hnext

/-! ## Single steps -/

theorem achieves_done (names : List String) (value : α) :
    Achieves names (fun machine ↦ .done machine value) (fun machine ↦ .done machine value) := by
  intro machine other left _ hwithin _ hleft
  cases hleft
  exact ⟨other, rfl, hwithin, .refl names _, .refl names _⟩

theorem achieves_eval (node : Node) : Achieves [] (eval node) (eval node) := by
  intro machine other left value hwithin _ hleft
  unfold eval yield at hleft ⊢
  cases hvalue : evalExpr machine.env node with
  | ok found =>
    rw [hvalue] at hleft
    cases hleft
    rw [evalExpr_of_within hwithin.env hvalue]
    exact ⟨other, rfl, hwithin, .refl [] _, .refl [] _⟩
  | error e =>
    rw [hvalue] at hleft
    cases hleft

theorem achieves_update {operation : Env → Except Error Env}
    (hgrows : ∀ env after, operation env = .ok after → env.Grows names after)
    (hoperation : ∀ env other after, env.Within other →
      (∀ name ∈ names, other.lookup? name = none) → operation env = .ok after →
        ∃ reached, operation other = .ok reached ∧ after.Within reached) :
    Achieves names (update operation) (update operation) := by
  intro machine other left value hwithin hnew hleft
  unfold update at hleft ⊢
  cases hafter : operation machine.env with
  | ok after =>
    rw [hafter] at hleft
    cases hleft
    obtain ⟨reached, hreached, henv⟩ := hoperation _ _ _ hwithin.env hnew hafter
    rw [hreached]
    exact ⟨_, rfl, ⟨henv, hwithin.sink⟩, hgrows _ _ hafter, hgrows _ _ hreached⟩
  | error e =>
    rw [hafter] at hleft
    cases hleft

theorem achieves_declare (name : String) (value : Scalar) (isMutable : Bool) :
    Achieves [name] (update (Env.declare name value isMutable))
      (update (Env.declare name value isMutable)) :=
  achieves_update (fun _ _ ↦ Env.grows_declare) fun _ _ _ hwithin hnew hafter ↦
    hwithin.declare (hnew name (List.mem_singleton.2 rfl)) hafter

theorem achieves_assign (name : String) (value : Scalar) :
    Achieves [] (update (Env.assign name value)) (update (Env.assign name value)) :=
  achieves_update (fun _ _ hafter ↦ (Env.sealed_assign hafter).grows [])
    fun _ _ _ hwithin _ hafter ↦ hwithin.assign hafter

/-- Output leaves both environments alone. -/
theorem achieves_emit (newline : Bool) (text : String) :
    Achieves [] (emit newline text) (emit newline text) := by
  intro machine other left value hwithin _ hleft
  have hshares : SharesSink fun left right : Machine ↦
      left.env = machine.env ∧ right.env = other.env ∧ right.sink = left.sink :=
    ⟨fun h ↦ h.2.2, fun h _ ↦ ⟨h.1, h.2.1, rfl⟩⟩
  have hfollows := (hshares.emit newline text ⟨rfl, rfl, hwithin.sink⟩).follows
  rw [hleft] at hfollows
  obtain ⟨right, hright, henv, hother, hsink⟩ := hfollows
  refine ⟨right, hright, ⟨?_, hsink⟩, ?_, ?_⟩
  · rw [henv, hother]
    exact hwithin.env
  · rw [henv]
    exact .refl [] _
  · rw [hother]
    exact .refl [] _

theorem achieves_writePayload (newline : Bool) (text : Option String) (expression : Option Node) :
    Achieves [] (writePayload newline text expression)
      (writePayload newline text expression) := by
  cases text with
  | some text =>
    cases expression with
    | some node => exact fun _ _ _ _ _ _ hleft ↦ by cases hleft
    | none => exact achieves_emit newline text
  | none =>
    cases expression with
    | some node =>
      exact (achieves_eval node).bind_of_nil fun value ↦ achieves_emit newline value.display
    | none => exact fun _ _ _ _ _ _ hleft ↦ by cases hleft

theorem achieves_withScope {run wide : Machine → Outcome α} (h : Achieves names run wide) :
    Achieves names (withScope run) wide := by
  intro machine other left value hwithin hnew hleft
  have hpush : machine.pushScope.Within other := ⟨hwithin.env, hwithin.sink⟩
  unfold withScope at hleft
  dsimp only at hleft
  cases hrun : run machine.pushScope with
  | done inner returned =>
    rw [hrun] at hleft
    cases hleft
    obtain ⟨right, hright, hinner⟩ := h hpush hnew hrun
    have hleave : (inner.leaveScope machine.env.depth).Within right :=
      ⟨hwithin.env.truncate hnew hinner.grows hinner.env, hinner.sink⟩
    exact ⟨right, hright, hleave, (Env.sealed_truncate hinner.grows.toSafe).grows names,
      hinner.otherGrows⟩
  | failed inner error =>
    rw [hrun] at hleft
    cases hleft
  | outOfFuel =>
    rw [hrun] at hleft
    cases hleft

/-! ## Statements -/

section Statements

variable {run wide : Runner} (hrun : ∀ node : Node, node.declaredInRounds = [] →
  node.declared.Nodup → Achieves node.declared (run node) (wide node))

include hrun

theorem achieves_runBlock {body : List Node} (hrounds : Node.declaredInRoundsBody body = [])
    (hdistinct : (Node.declaredBody body).Nodup) :
    Achieves (Node.declaredBody body) (runBlock run body) (runBlock wide body) := by
  induction body with
  | nil => exact achieves_done [] none
  | cons node rest ih =>
    rw [Node.declaredInRoundsBody, List.append_eq_nil_iff] at hrounds
    rw [Node.declaredBody, List.nodup_append'] at hdistinct
    rw [Node.declaredBody]
    refine (hrun node hrounds.1 hdistinct.1).bind hdistinct.2.2 fun returned ↦ ?_
    cases returned with
    | some value => exact achieves_done _ (some value)
    | none => exact ih hrounds.2 hdistinct.2.1

theorem achieves_runBody {body : List Node} (hrounds : Node.declaredInRoundsBody body = [])
    (hdistinct : (Node.declaredBody body).Nodup) :
    Achieves (Node.declaredBody body) (runBody true run body) (runBody false wide body) :=
  achieves_withScope (achieves_runBlock hrun hrounds hdistinct)

theorem achieves_runBranches {otherwise : Option (List Node)}
    {branches : List (Node × List Node)}
    (hrounds : Node.declaredInRoundsClauses branches ++
      Node.declaredInRoundsOtherwise otherwise = [])
    (hdistinct : (Node.declaredClauses branches ++ Node.declaredOtherwise otherwise).Nodup) :
    Achieves (Node.declaredClauses branches ++ Node.declaredOtherwise otherwise)
      (runBranches true run otherwise branches) (runBranches false wide otherwise branches) := by
  induction branches with
  | nil =>
    cases otherwise with
    | some body => exact achieves_runBody hrun hrounds hdistinct
    | none => exact achieves_done [] none
  | cons branch rest ih =>
    obtain ⟨condition, body⟩ := branch
    rw [Node.declaredInRoundsClauses, List.append_assoc, List.append_eq_nil_iff] at hrounds
    rw [Node.declaredClauses, List.append_assoc] at hdistinct ⊢
    have hparts := List.nodup_append'.1 hdistinct
    refine (achieves_eval condition).bind_of_nil fun value ↦ ?_
    cases htruthy : value.isTruthy with
    | true =>
      simp only [if_true]
      exact (achieves_runBody hrun hrounds.1 hparts.1).mono (List.subset_append_left _ _)
    | false =>
      simp only [Bool.false_eq_true, if_false]
      exact (ih hrounds.2 hparts.2.1).mono (List.subset_append_right _ _)

theorem achieves_runRounds (condition : Node) {update : Node} {body : List Node}
    (hupdate : update.declared = []) (hbody : Node.declaredBody body = []) (fuel : Nat) :
    Achieves [] (runRounds true run condition update body fuel)
      (runRounds false wide condition update body fuel) := by
  have hround := achieves_runBody hrun (Node.declaredInRoundsBody_eq_nil hbody)
    (hbody ▸ List.nodup_nil)
  have hlast := hrun update (Node.declaredInRounds_eq_nil hupdate) (hupdate ▸ List.nodup_nil)
  -- A round uses up no names, so that the next one starts with the same.
  rw [hbody] at hround
  rw [hupdate] at hlast
  induction fuel with
  | zero => exact fun _ _ _ _ _ _ hleft ↦ by cases hleft
  | succ fuel ih =>
    refine (achieves_eval condition).bind_of_nil fun value ↦ ?_
    cases hzero : value.toNumber == 0 with
    | true =>
      simp only [if_true]
      exact achieves_done [] none
    | false =>
      simp only [Bool.false_eq_true, if_false]
      refine hround.bind_of_nil fun returned ↦ ?_
      cases returned with
      | some value => exact achieves_done [] (some value)
      | none => exact hlast.bind_of_nil fun _ ↦ ih

theorem achieves_runLoop (condition : Node) {init update : Node} {body : List Node}
    (hrounds : init.declaredInRounds = []) (hdistinct : init.declared.Nodup)
    (hupdate : update.declared = []) (hbody : Node.declaredBody body = []) (fuel : Nat) :
    Achieves init.declared (runLoop true run fuel init condition update body)
      (runLoop false wide fuel init condition update body) := by
  rw [← List.append_nil init.declared]
  exact (hrun init hrounds hdistinct).bind (List.disjoint_nil_right _) fun _ ↦
    achieves_runRounds hrun condition hupdate hbody fuel

theorem achieves_execWith (fuel : Nat) {node : Node} (hrounds : node.declaredInRounds = [])
    (hdistinct : node.declared.Nodup) :
    Achieves node.declared (execWith true run fuel node) (execWith false wide fuel node) := by
  have hvoid : Achieves [] (fun machine ↦ .done machine (none : Option Scalar))
      (fun machine ↦ .done machine none) := achieves_done [] none
  cases node with
  | declare name value isMutable =>
    intro machine other left returned hwithin hnew hleft
    rw [execWith] at hleft ⊢
    split at hleft
    · cases hleft
    rename_i hkeyword
    rw [if_neg hkeyword]
    have hdeclare : Achieves [name] _ _ := (achieves_eval value).bind_of_nil fun value ↦
      (achieves_declare name value isMutable).bind (List.disjoint_nil_right _) fun _ ↦ hvoid
    exact hdeclare hwithin hnew hleft
  | assign name value =>
    intro machine other left returned hwithin hnew hleft
    rw [execWith] at hleft ⊢
    split at hleft
    · rename_i hhas
      rw [if_pos (hwithin.env.has hhas)]
      have hassign : Achieves [] _ _ := (achieves_eval value).bind_of_nil fun value ↦
        (achieves_assign name value).bind_of_nil fun _ ↦ hvoid
      exact hassign hwithin hnew hleft
    · cases hleft
  | branch condition body elseIfs otherwise =>
    rw [Node.declaredInRounds_branch] at hrounds
    rw [Node.declared_branch] at hdistinct ⊢
    exact achieves_runBranches hrun hrounds hdistinct
  | loop init condition update body =>
    rw [Node.declaredInRounds, List.append_eq_nil_iff, List.append_eq_nil_iff] at hrounds
    obtain ⟨⟨hinit, hupdate⟩, hbody⟩ := hrounds
    rw [Node.declared, hupdate, hbody, List.append_nil, List.append_nil] at hdistinct ⊢
    exact achieves_withScope (achieves_runLoop hrun condition hinit hdistinct hupdate hbody fuel)
  | write newline text expression =>
    exact (achieves_writePayload newline text expression).bind_of_nil fun _ ↦ hvoid
  | ret value =>
    exact (achieves_eval value).bind_of_nil fun value ↦ achieves_done [] (some value)
  | comment text => exact achieves_done [] none
  | number | string | boolean | identifier | binary =>
    intro machine other left returned hwithin hnew hleft
    rw [execWith_expression true run fuel rfl] at hleft
    rw [execWith_expression false wide fuel rfl]
    exact Achieves.bind_of_nil (achieves_eval _) (fun _ ↦ hvoid) hwithin hnew hleft

end Statements

theorem achieves_exec (fuel : Nat) (node : Node) (hrounds : node.declaredInRounds = [])
    (hdistinct : node.declared.Nodup) :
    Achieves node.declared (exec true fuel node) (exec false fuel node) := by
  induction fuel generalizing node with
  | zero => exact fun _ _ _ _ _ _ hleft ↦ by cases hleft
  | succ fuel ih =>
    intro machine other left value hwithin hnew hleft
    have htrace : (machine.trace .interpreter ("exec " ++ node.kind)).Within
        (other.trace .interpreter ("exec " ++ node.kind)) := ⟨hwithin.env, hwithin.sink⟩
    obtain ⟨right, hright, hreached⟩ :=
      achieves_execWith ih fuel hrounds hdistinct htrace hnew hleft
    exact ⟨right, hright, hreached.toWithin, hreached.grows, hreached.otherGrows⟩

theorem achieves_interpret (fuel : Nat) {program : Program}
    (hrounds : Node.declaredInRoundsBody program = [])
    (hdistinct : (Node.declaredBody program).Nodup) :
    Achieves (Node.declaredBody program) (interpret true fuel program)
      (interpret false fuel program) := by
  have hblock := achieves_runBlock (achieves_exec fuel) hrounds hdistinct
  rw [← List.append_nil (Node.declaredBody program)]
  refine hblock.bind (List.disjoint_nil_right _) fun returned ↦ ?_
  cases returned with
  | some value =>
    intro machine other left code hwithin _ hleft
    cases hleft
    exact ⟨_, rfl, ⟨hwithin.env, hwithin.sink⟩, .refl [] _, .refl [] _⟩
  | none => exact achieves_done [] none

end Machine

/-- If a program's declarations have distinct new names and none stands in a loop's update or body,
then what the program achieves with block scopes it achieves without them, and whatever is visible
after the first run is visible after the second. -/
theorem succeeds_unscoped {program : Program} (hdistinct : (Node.declaredBody program).Nodup)
    (hrounds : Node.declaredInRoundsBody program = []) {machine : Machine}
    (hnew : ∀ name ∈ Node.declaredBody program, machine.env.lookup? name = none) {fuel : Nat}
    {left : Machine} {code : Option Int}
    (hleft : machine.interpret true fuel program = .done left code) :
    ∃ right, machine.interpret false fuel program = .done right code ∧ right.sink = left.sink ∧
      ∀ name held, left.env.lookup? name = some held → right.env.lookup? name = some held := by
  have hwithin : machine.Within machine := ⟨fun _ _ hheld ↦ hheld, rfl⟩
  obtain ⟨right, hright, hreached⟩ :=
    Machine.achieves_interpret fuel hrounds hdistinct hwithin hnew hleft
  exact ⟨right, hright, hreached.sink, hreached.env⟩

/-- A name declared in a branch, and one by the first part of a loop. -/
def leakingProgram : Program :=
  [.declare "a" (.string "x") true,
    .branch (.boolean true) [.declare "b" (.identifier "a") false, .assign "a" (.string "y")] []
      none,
    .loop (.declare "i" (.boolean true) true) (.identifier "i") (.assign "i" (.boolean false))
      [.branch (.identifier "i") [.assign "a" (.identifier "i")] [] none],
    .declare "c" (.identifier "a") false]

theorem succeeds_unscoped_leaking :
    ((Node.declaredBody leakingProgram).Nodup ∧
      Node.declaredInRoundsBody leakingProgram = [] ∧
      ∀ name ∈ Node.declaredBody leakingProgram, Env.empty.lookup? name = none) ∧
    ∃ left, (Machine.start .unlimited .quiet).interpret true 4 leakingProgram = .done left none ∧
      ∃ right, (Machine.start .unlimited .quiet).interpret false 4 leakingProgram =
          .done right none ∧ right.sink = left.sink ∧
        ∀ name held, left.env.lookup? name = some held → right.env.lookup? name = some held := by
  have hdistinct : (Node.declaredBody leakingProgram).Nodup := by decide
  have hnew : ∀ name ∈ Node.declaredBody leakingProgram, Env.empty.lookup? name = none :=
    fun _ _ ↦ rfl
  exact ⟨⟨hdistinct, rfl, hnew⟩, _, rfl, succeeds_unscoped hdistinct rfl hnew rfl⟩

end Scriptlet
