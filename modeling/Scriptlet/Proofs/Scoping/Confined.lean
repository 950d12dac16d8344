import Scriptlet.Proofs.Environment.Run

/-!
# Blocks leak nothing

With block scopes on, a branch or a loop leaves every scope that was open before it, the innermost
included, with the names and the mutability that it had, however the statement ends. All that can
have changed is the values of variables that were mutable. Conditions are evaluated without a
scope of their own, but they change nothing; everything else happens in a scope that has been left.
-/

namespace Scriptlet

namespace Scope

/-- The two scopes have the same names, each with the same mutability, and differ at most in the
values of mutable variables. -/
def Revalued (before after : Scope) : Prop :=
  ∀ name, Option.Rel (fun held now ↦ now.isMutable = held.isMutable ∧
    (held.isMutable = false → now = held)) (before.lookup name) (after.lookup name)

theorem revalued_of_kept {before after : Scope} (hkept : before.Kept after)
    (hnames : before.SameNames after) : before.Revalued after := by
  intro name
  cases hbefore : before.lookup name with
  | none =>
    have hafter : after.lookup name = none := by
      rw [← Option.not_isSome_iff_eq_none, ← hnames name, hbefore]
      exact Bool.false_ne_true
    rw [hafter]
    exact .none
  | some held =>
    obtain ⟨now, hnow, hmutable, hvalue⟩ := hkept name held hbefore
    rw [hnow]
    refine .some ⟨hmutable, fun himmutable ↦ ?_⟩
    calc
      now = ⟨now.value, now.isMutable⟩ := rfl
      _ = ⟨held.value, held.isMutable⟩ := by rw [hvalue himmutable, hmutable]

end Scope

namespace Env

theorem Sealed.refl (env : Env) : env.Sealed env := ⟨.refl env, fun _ ↦ rfl⟩

/-- A sealed change revalues every scope. -/
theorem Sealed.revalued {before after : Env} (h : before.Sealed after) :
    List.Forall₂ Scope.Revalued before.scopes after.scopes := by
  have hnames : List.Forall₂ Scope.SameNames before.scopes after.scopes :=
    .cons h.innermost h.sameNames
  refine List.forall₂_iff_get.2 ⟨h.kept.length_eq, fun index hbefore hafter ↦ ?_⟩
  exact Scope.revalued_of_kept (h.kept.get hbefore hafter) (hnames.get hbefore hafter)

end Env

/-- The statements that have blocks: branches and loops. -/
def Node.hasBlocks : Node → Bool
  | branch .. | loop .. => true
  | _ => false

namespace Machine

section Blocks

variable {run : Runner} (hrun : ∀ node, SafeStep (run node))

include hrun

theorem sealed_runBody {body : List Node} {machine after : Machine}
    (h : (runBody true run body machine).machine? = some after) :
    machine.env.Sealed after.env :=
  sealed_withScope (safeStep_runBlock hrun body) h

/-- The induction is on the branches that are left to try. -/
theorem sealed_runBranches {otherwise : Option (List Node)} {branches : List (Node × List Node)}
    {machine after : Machine}
    (h : (runBranches true run otherwise branches machine).machine? = some after) :
    machine.env.Sealed after.env := by
  induction branches with
  | nil =>
    cases otherwise with
    | some body => exact sealed_runBody hrun h
    | none =>
      cases h
      exact Env.Sealed.refl _
  | cons branch rest ih =>
    obtain ⟨condition, body⟩ := branch
    rw [runBranches] at h
    obtain ⟨value, hvalue⟩ | ⟨error, herror⟩ := eval_cases condition machine
    · rw [hvalue, Outcome.bind_done] at h
      split at h
      · exact sealed_runBody hrun h
      · exact ih h
    · rw [herror] at h
      cases h
      exact Env.Sealed.refl _

theorem sealed_execWith {fuel : Nat} {node : Node} (hnode : node.hasBlocks = true)
    {machine after : Machine}
    (h : (execWith true run fuel node machine).machine? = some after) :
    machine.env.Sealed after.env := by
  cases node with
  | branch condition body elseIfs otherwise => exact sealed_runBranches hrun h
  | loop init condition update body =>
    exact sealed_withScope (safeStep_runLoop true hrun fuel init condition update body) h
  | _ => cases hnode

end Blocks

/-- With block scopes, a branch or a loop that has ended, in whichever way, has opened and closed
its scopes in balance, has left every open scope its names with their mutability, and has changed
no value but that of mutable variables. -/
theorem revalued_of_exec {node : Node} (hnode : node.hasBlocks = true) {fuel : Nat}
    {machine after : Machine} (h : (exec true fuel node machine).machine? = some after) :
    after.env.depth = machine.env.depth ∧
      List.Forall₂ Scope.Revalued machine.env.scopes after.env.scopes ∧
      after.env.functions = machine.env.functions := by
  cases fuel with
  | zero => cases h
  | succ fuel =>
    have hsealed := sealed_execWith (safeStep_exec true fuel) hnode h
    exact ⟨hsealed.depth, hsealed.revalued, hsealed.functions⟩

/-- A loop that declares in its header and in both its bodies, assigns to a variable around it,
hides that variable, and fails in its second round. -/
def leakyLoop : Node :=
  .loop (.declare "i" (.boolean true) true) (.boolean true) (.assign "i" (.boolean false))
    [.branch (.identifier "i")
      [.assign "x" (.string "b"), .declare "x" (.string "inner") true,
        .declare "y" (.boolean true) false]
      [(.boolean true, [.declare "z" (.boolean true) true, .assign "k" (.boolean false)])] none]

theorem revalued_of_exec_leakyLoop :
    ∃ after, exec true 5 leakyLoop ⟨nestedEnv (.string "a"), .unlimited, .empty .quiet⟩ =
        .failed after (.immutableAssignment "k") ∧
      after.env = nestedEnv (.string "b") ∧
      List.Forall₂ Scope.Revalued (nestedEnv (.string "a")).scopes
        (nestedEnv (.string "b")).scopes := by
  refine ⟨_, rfl, rfl, ?_⟩
  exact (@revalued_of_exec leakyLoop rfl 5 ⟨nestedEnv (.string "a"), .unlimited, .empty .quiet⟩ _
    rfl).2.1

end Machine

end Scriptlet
