import Scriptlet.Proofs.Environment.Safe
import Scriptlet.Proofs.Run.Agree
import Scriptlet.Proofs.Run.Compatible
import Scriptlet.Proofs.Run.Fuel

/-!
# Names that a program does not mention

Two environments of equal depth may differ in variables that a program does not mention. Runs of
the program from the two then end alike, and each leaves the unmentioned variables of its own
environment where and as they were. Both halves are one relation between two runs: what they share
on the mentioned names and what each keeps on all others.
-/

namespace Scriptlet

namespace Scope

/-- The scopes declare the same of these names, with the same values and mutabilities. -/
def SameOn (named : String → Prop) (scope other : Scope) : Prop :=
  ∀ name, named name → scope.lookup name = other.lookup name

variable {named : String → Prop}

instance (names : List String) (scope other : Scope) :
    Decidable (scope.SameOn (· ∈ names) other) :=
  inferInstanceAs (Decidable (∀ name ∈ names, scope.lookup name = other.lookup name))

instance : Std.Refl (SameOn named) where
  refl _ _ _ := rfl

theorem SameOn.trans {first second third : Scope} (hfirst : first.SameOn named second)
    (hsecond : second.SameOn named third) : first.SameOn named third :=
  fun name hname ↦ (hfirst name hname).trans (hsecond name hname)

theorem SameOn.append {scope other : Scope} (h : scope.SameOn named other)
    (entry : String × Variable) : SameOn named (scope ++ [entry]) (other ++ [entry]) := by
  intro name hname
  rw [List.lookup_append, List.lookup_append, h name hname]

theorem sameOn_append {name : String} (hname : ¬named name) (scope : Scope) (held : Variable) :
    scope.SameOn named (scope ++ [(name, held)]) := by
  intro other hother
  have hne : other ≠ name := fun heq ↦ hname (heq ▸ hother)
  rw [List.lookup_append, List.lookup_cons, beq_false_of_ne hne, List.lookup_nil, Option.or_none]

theorem SameOn.update {scope other : Scope} (h : scope.SameOn named other) (name : String)
    (value : Scalar) : (scope.update name value).SameOn named (other.update name value) := by
  intro found hfound
  rw [lookup_update, lookup_update, h found hfound]

theorem sameOn_update {name : String} (hname : ¬named name) (scope : Scope) (value : Scalar) :
    scope.SameOn named (scope.update name value) := by
  intro other hother
  have hne : other ≠ name := fun heq ↦ hname (heq ▸ hother)
  rw [lookup_update, if_neg hne]

end Scope

/-- Both computations fail with one error, or both succeed with related values. -/
inductive Matched {α : Type} (R : α → α → Prop) : Except Error α → Except Error α → Prop
  | ok {value twin : α} (h : R value twin) : Matched R (.ok value) (.ok twin)
  | error (error : Error) : Matched R (.error error) (.error error)

namespace Env

/-- The environments have the same depth and agree on these names scope by scope. -/
def SameOn (named : String → Prop) (env other : Env) : Prop :=
  List.Forall₂ (Scope.SameOn named) env.scopes other.scopes

variable {named : String → Prop} {env other : Env}

instance (names : List String) (env other : Env) : Decidable (env.SameOn (· ∈ names) other) :=
  inferInstanceAs (Decidable (List.Forall₂ _ env.scopes other.scopes))

theorem SameOn.refl (env : Env) : env.SameOn named env :=
  List.forall₂_refl _

theorem SameOn.trans {first second third : Env} (hfirst : first.SameOn named second)
    (hsecond : second.SameOn named third) : first.SameOn named third :=
  forall₂_trans (fun _ _ _ ↦ .trans) hfirst hsecond

theorem SameOn.depth_eq (h : env.SameOn named other) : other.depth = env.depth :=
  (List.Forall₂.length_eq h).symm

theorem SameOn.lookup? (h : env.SameOn named other) {name : String} (hname : named name) :
    env.lookup? name = other.lookup? name := by
  unfold SameOn at h
  unfold Env.lookup?
  generalize env.scopes = scopes at h
  generalize other.scopes = others at h
  induction h with
  | nil => rfl
  | cons hscope _ ih => rw [List.findSome?_cons, List.findSome?_cons, hscope name hname, ih]

/-! ## Scopes -/

theorem SameOn.push (h : env.SameOn named other) : env.push.SameOn named other.push :=
  .cons (Std.Refl.refl []) h

theorem SameOn.truncate (h : env.SameOn named other) {depth : Nat} (hdepth : 0 < depth) :
    (env.truncate depth).SameOn named (other.truncate depth) := by
  unfold SameOn
  rw [scopes_truncate env hdepth, scopes_truncate other hdepth, h.depth_eq]
  exact List.forall₂_drop (env.depth - depth) h

/-- What is kept inside a scope is kept once the scope has been left. -/
theorem SameOn.of_push {inner : Env} (h : env.push.SameOn named inner) :
    env.SameOn named (inner.truncate env.depth) := by
  have hdepth : 0 < env.depth := Nat.succ_pos _
  have hleft : (env.push.truncate env.depth).scopes = env.scopes :=
    scopes_truncate_of_safe (Safe.refl env.push)
  have htruncate := h.truncate hdepth
  unfold SameOn at htruncate ⊢
  rwa [hleft] at htruncate

/-! ## Declarations and assignments -/

theorem SameOn.declare (h : env.SameOn named other) {name : String} (hname : named name)
    (value : Scalar) (isMutable : Bool) :
    Matched (SameOn named) (env.declare name value isMutable)
      (other.declare name value isMutable) := by
  obtain ⟨hinnermost, henclosing⟩ := List.forall₂_cons.1 h
  unfold Env.declare
  rw [hinnermost name hname]
  split
  · exact .error _
  · exact .ok (.cons (hinnermost.append _) henclosing)

theorem sameOn_declare {name : String} (hname : ¬named name) {value : Scalar} {isMutable : Bool}
    {before after : Env} (h : before.declare name value isMutable = .ok after) :
    before.SameOn named after := by
  unfold Env.declare at h
  split at h
  · cases h
  · cases h
    exact .cons (Scope.sameOn_append hname _ _) (List.forall₂_refl _)

theorem matched_assignIn {name : String} (hname : named name) (value : Scalar)
    {scopes others : List Scope} (h : List.Forall₂ (Scope.SameOn named) scopes others) :
    Matched (List.Forall₂ (Scope.SameOn named)) (assignIn name value scopes)
      (assignIn name value others) := by
  induction h with
  | nil => exact .error _
  | cons hscope hrest ih =>
    unfold assignIn
    rw [hscope name hname]
    split
    · split
      · exact .ok (.cons (hscope.update name value) hrest)
      · exact .error _
    · generalize assignIn name value _ = left at ih
      generalize assignIn name value _ = right at ih
      cases ih with
      | ok hchanged => exact .ok (.cons hscope hchanged)
      | error error => exact .error error

theorem map_scopes_assign (name : String) (value : Scalar) (env : Env) :
    (env.assign name value).map scopes = assignIn name value env.scopes := by
  cases hassign : env.assign name value with
  | ok after => exact (scopes_assign hassign).symm
  | error error =>
    unfold assign at hassign
    split at hassign
    · cases hassign
    · cases hassign
    · rename_i hscopes
      cases hassign
      exact hscopes.symm

theorem SameOn.assign (h : env.SameOn named other) {name : String} (hname : named name)
    (value : Scalar) :
    Matched (SameOn named) (env.assign name value) (other.assign name value) := by
  have hscopes := matched_assignIn hname value h
  rw [← map_scopes_assign, ← map_scopes_assign] at hscopes
  generalize env.assign name value = left at hscopes
  generalize other.assign name value = right at hscopes
  cases left <;> cases right <;> cases hscopes
  · exact .error _
  · exact .ok ‹_›

theorem sameOn_assignIn {name : String} (hname : ¬named name) {value : Scalar}
    {before after : List Scope} (h : assignIn name value before = .ok after) :
    List.Forall₂ (Scope.SameOn named) before after := by
  fun_induction assignIn name value before generalizing after with
  | case1 => cases h
  | case2 scope rest found hfound hmutable =>
    cases h
    exact .cons (Scope.sameOn_update hname scope value) (List.forall₂_refl _)
  | case3 => cases h
  | case4 scope rest hnone changed hchanged ih =>
    cases h
    exact .cons (refl scope) (ih hchanged)
  | case5 => cases h

theorem sameOn_assign {name : String} (hname : ¬named name) {value : Scalar} {before after : Env}
    (h : before.assign name value = .ok after) : before.SameOn named after :=
  sameOn_assignIn hname (scopes_assign h)

end Env

theorem evalExpr_eq_of_sameOn {named : String → Prop} {env other : Env}
    (h : env.SameOn named other) : ∀ {node : Node},
      (∀ mention ∈ node.mentions, named mention.2) → evalExpr env node = evalExpr other node
  | .identifier name, hnode => by
    have hname : named name := hnode (.read, name) (List.mem_singleton.2 rfl)
    rw [evalExpr, evalExpr, Env.get, Env.get, h.lookup? hname]
  | .binary left op right, hnode => by
    rw [Node.mentions, List.forall_mem_append] at hnode
    rw [evalExpr, evalExpr, evalExpr_eq_of_sameOn h hnode.1, evalExpr_eq_of_sameOn h hnode.2]
  | .number _, _ | .string _, _ | .boolean _, _ | .comment _, _ => rfl
  | .branch .., _ | .loop .., _ | .declare .., _ | .assign .., _ | .write .., _ | .ret _, _ => rfl

/-! ## Two runs -/

namespace Machine

open Outcome

/-- The machines differ in their logs and in variables of other names at most. -/
structure Shares (named : String → Prop) (machine other : Machine) : Prop where
  env : machine.env.SameOn named other.env
  sink : other.sink = machine.sink

/-- Two runs have left machines that share what is named, and have kept what is not. -/
structure Parted (named : String → Prop) (machine other left right : Machine) : Prop extends
    left.Shares named right where
  kept : machine.env.SameOn (¬named ·) left.env
  twinKept : other.env.SameOn (¬named ·) right.env

/-- The runs agree on what is named and keep what is not. -/
def Confines (named : String → Prop) : StepRelation := fun _ run twin ↦
  ∀ machine other, machine.Shares named other →
    Agree (Parted named machine other) (run machine) (twin other)

variable {named : String → Prop}

theorem Shares.parted {machine other left right : Machine} (h : left.Shares named right)
    (henv : left.env = machine.env) (htwin : right.env = other.env) :
    Parted named machine other left right :=
  ⟨h, henv ▸ .refl _, htwin ▸ .refl _⟩

theorem sharesSink_parted (machine other : Machine) :
    SharesSink (Parted named machine other) :=
  ⟨fun h ↦ h.sink, fun h _ ↦ ⟨⟨h.env, rfl⟩, h.kept, h.twinKept⟩⟩

theorem Parted.trans {machine other left right last twin : Machine}
    (h : Parted named machine other left right) (hlast : Parted named left right last twin) :
    Parted named machine other last twin :=
  ⟨hlast.toShares, h.kept.trans hlast.kept, h.twinKept.trans hlast.twinKept⟩

theorem confines_eval {node : Node} (h : ∀ mention ∈ node.mentions, named mention.2) :
    Confines named Scalar (eval node) (eval node) := by
  intro machine other hshares
  unfold eval yield
  rw [evalExpr_eq_of_sameOn hshares.env h]
  cases evalExpr other.env node with
  | ok value => exact .done value (hshares.parted rfl rfl)
  | error error => exact .failed error (hshares.parted rfl rfl)

theorem confines_update {operation : Env → Except Error Env}
    (hmatched : ∀ {env other : Env}, env.SameOn named other →
      Matched (Env.SameOn named) (operation env) (operation other))
    (hkept : ∀ {before after : Env}, operation before = .ok after →
      before.SameOn (¬named ·) after) :
    Confines named Unit (update operation) (update operation) := by
  intro machine other hshares
  have hresult := hmatched hshares.env
  unfold update
  cases hleft : operation machine.env with
  | ok after =>
    cases hright : operation other.env with
    | ok reached =>
      rw [hleft, hright] at hresult
      cases hresult with
      | ok hsame => exact .done () ⟨⟨hsame, hshares.sink⟩, hkept hleft, hkept hright⟩
    | error error =>
      rw [hleft, hright] at hresult
      cases hresult
  | error error =>
    rw [hleft] at hresult
    generalize operation other.env = right at hresult
    cases hresult
    exact .failed error (hshares.parted rfl rfl)

theorem Confines.bind {α β : Type} {run twin : Machine → Outcome α}
    {next follower : α → Machine → Outcome β} (h : Confines named α run twin)
    (hnext : ∀ value, Confines named β (next value) (follower value)) :
    Confines named β (fun machine ↦ (run machine).bind fun machine value ↦ next value machine)
      fun machine ↦ (twin machine).bind fun machine value ↦ follower value machine := by
  intro machine other hshares
  have hrun := h machine other hshares
  dsimp only
  generalize run machine = left at hrun
  generalize twin other = right at hrun
  cases hrun with
  | done value hparted =>
    exact (hnext value _ _ hparted.toShares).mono fun _ _ hlast ↦ hparted.trans hlast
  | failed error hparted => exact .failed error hparted
  | outOfFuel => exact .outOfFuel

theorem confines_assignValue {name : String} {node : Node} (hname : named name)
    (hnode : ∀ mention ∈ node.mentions, named mention.2) :
    Confines named Unit (assignValue name node) (assignValue name node) := by
  intro machine other hshares
  have hassign : Confines named Unit
      (fun machine ↦ (machine.eval node).bind fun machine value ↦
        machine.update (Env.assign name value))
      fun machine ↦ (machine.eval node).bind fun machine value ↦
        machine.update (Env.assign name value) :=
    (confines_eval hnode).bind fun value ↦
      confines_update (fun h ↦ h.assign hname value)
        fun h ↦ Env.sameOn_assign (not_not_intro hname) h
  -- The variable is in sight of both runs or of neither.
  unfold assignValue Env.has
  rw [hshares.env.lookup? hname]
  split
  · exact hassign machine other hshares
  · exact .failed _ (hshares.parted rfl rfl)

theorem Parted.leaveScope {machine other left right : Machine}
    (h : Parted named machine.pushScope other.pushScope left right)
    (hdepth : other.env.depth = machine.env.depth) :
    Parted named machine other (left.leaveScope machine.env.depth)
      (right.leaveScope other.env.depth) where
  env := by
    rw [hdepth]
    exact h.env.truncate (Nat.succ_pos _)
  sink := h.sink
  kept := h.kept.of_push
  twinKept := h.twinKept.of_push

theorem Confines.withScope {α : Type} {run twin : Machine → Outcome α}
    (h : Confines named α run twin) :
    Confines named α (Machine.withScope run) (Machine.withScope twin) := by
  intro machine other hshares
  have hinner := h machine.pushScope other.pushScope ⟨hshares.env.push, hshares.sink⟩
  unfold Machine.withScope
  dsimp only
  generalize run machine.pushScope = left at hinner
  generalize twin other.pushScope = right at hinner
  cases hinner with
  | done value hparted => exact .done value (hparted.leaveScope hshares.env.depth_eq)
  | failed error hparted => exact .failed error (hparted.leaveScope hshares.env.depth_eq)
  | outOfFuel => exact .outOfFuel

/-- Doing nothing with names but with those that are named respects the rest. -/
theorem confines_respects (named : String → Prop) (blockScope : Bool) :
    (Confines named).Respects blockScope fun mention ↦ named mention.2 where
  outOfFuel _ _ _ := .outOfFuel
  done value _ _ h := .done value (h.parted rfl rfl)
  misuse {_ error} _ _ _ h := .failed error (h.parted rfl rfl)
  eval := confines_eval
  declare hname value isMutable :=
    confines_update (fun h ↦ h.declare hname value isMutable)
      fun h ↦ Env.sameOn_declare (not_not_intro hname) h
  assign := confines_assignValue
  write text machine other h := (sharesSink_parted machine other).write text (h.parted rfl rfl)
  flush machine other h := (sharesSink_parted machine other).flush (h.parted rfl rfl)
  record add _ _ h machine other hshares :=
    (h { machine with log := add machine.log } { other with log := add other.log }
      ⟨hshares.env, hshares.sink⟩).mono fun _ _ hparted ↦
        ⟨hparted.toShares, hparted.kept, hparted.twinKept⟩
  bind := .bind
  withScope _ _ _ := .withScope

end Machine

theorem Outcome.Agree.rel_seen {α : Type} {R : Machine → Machine → Prop} {left right : Outcome α}
    (h : Agree R left right) {Q : Ending α → Ending α → Prop}
    (hQ : ∀ machine other result, R machine other →
      Q (machine.env, machine.sink, result) (other.env, other.sink, result)) :
    Option.Rel Q left.seen right.seen := by
  cases h with
  | done value h => exact .some (hQ _ _ (.ok value) h)
  | failed error h => exact .some (hQ _ _ (.error error) h)
  | outOfFuel => exact .none

/-- From environments that agree on the names in a program, the program ends with the same result
and the same output or does not end, the environments that it leaves agree on these names again, and
all other variables are in each what they were. -/
theorem interpret_agrees_on_names (blockScope : Bool) (fuel : Nat) (program : Program)
    {env other : Env} (h : env.SameOn (· ∈ Node.names program) other) (sink : Sink)
    (log twinLog : Log) :
    Option.Rel
      (fun left right : Ending (Option Int) ↦ left.2 = right.2 ∧
        left.1.SameOn (· ∈ Node.names program) right.1 ∧
        env.SameOn (· ∉ Node.names program) left.1 ∧
        other.SameOn (· ∉ Node.names program) right.1)
      (Machine.interpret blockScope fuel program ⟨env, sink, log⟩).seen
      (Machine.interpret blockScope fuel program ⟨other, sink, twinLog⟩).seen := by
  have hnames : ∀ mention ∈ Node.mentionsBody program, mention.2 ∈ Node.names program :=
    fun _ hmention ↦ List.mem_map_of_mem hmention
  have hagree : Outcome.Agree _ _ _ :=
    (Machine.confines_respects (· ∈ Node.names program) blockScope).interpret fuel hnames
      ⟨env, sink, log⟩ ⟨other, sink, twinLog⟩ ⟨h, rfl⟩
  refine hagree.rel_seen fun machine twin result hparted ↦ ?_
  exact ⟨by rw [hparted.sink], hparted.env, hparted.kept, hparted.twinKept⟩

/-- Declares and assigns in a loop, writes a variable, and fails in the second round. -/
def tallyProgram : Program :=
  [.loop (.declare "i" (.boolean true) true) (.boolean true) (.assign "i" (.boolean false))
    [.branch (.identifier "i")
      [.assign "x" (.string "b"), .declare "y" (.boolean true) false,
        .write true none (some (.identifier "x"))]
      [] (some [.assign "k" (.boolean false)])]]

/-- Two scopes that `tallyProgram` has to do with, each with one more variable. -/
def tallyEnv (inner outer : String × Variable) : Env :=
  ⟨[inner, ("x", ⟨.string "a", true⟩)], [[("k", ⟨.boolean true, false⟩), outer]], []⟩

/-- The extra variables have other names, values and mutabilities in the two environments. -/
theorem interpret_agrees_on_names_tally :
    ∃ left right : Ending (Option Int),
      (Machine.interpret true 6 tallyProgram
        ⟨tallyEnv ("p", ⟨.string "p", true⟩) ("q", ⟨.string "q", false⟩), .unlimited,
          .empty .quiet⟩).seen = some left ∧
      (Machine.interpret true 6 tallyProgram
        ⟨tallyEnv ("q", ⟨.boolean true, false⟩) ("r", ⟨.string "r", true⟩), .unlimited,
          .empty .trace⟩).seen = some right ∧
      left.2.2 = .error (.immutableAssignment "k") ∧ left.2 = right.2 ∧
      left.1.SameOn (· ∈ Node.names tallyProgram) right.1 := by
  refine ⟨_, _, rfl, rfl, rfl, ?_⟩
  have h := @interpret_agrees_on_names true 6 tallyProgram
    (tallyEnv ("p", ⟨.string "p", true⟩) ("q", ⟨.string "q", false⟩))
    (tallyEnv ("q", ⟨.boolean true, false⟩) ("r", ⟨.string "r", true⟩))
    (by decide) .unlimited (.empty .quiet) (.empty .trace)
  cases h with
  | some h => exact ⟨h.1, h.2.1⟩

end Scriptlet
