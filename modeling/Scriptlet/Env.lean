import Scriptlet.Error
import Scriptlet.Scalar

/-!
# Environments

Variables live in a stack of scopes that is never empty. A name is looked up from the innermost
scope outward and declared in the innermost one, so that an inner declaration hides an outer one
for as long as its scope is open. Functions are kept in one table beside the scopes.
-/

namespace Scriptlet

structure Variable where
  value : Scalar
  isMutable : Bool
deriving DecidableEq, Inhabited

/-- The variables of one scope, each name at most once. -/
abbrev Scope := List (String × Variable)

namespace Scope

/-- Gives the variable called `name` a new value. -/
def update (name : String) (value : Scalar) : Scope → Scope
  | [] => []
  | (other, held) :: rest =>
    if other == name then (other, { held with value := value }) :: rest
    else (other, held) :: update name value rest

/-- Changing a value changes no name and no mutability. -/
theorem map_update (name : String) (value : Scalar) (scope : Scope) :
    (scope.update name value).map (fun entry ↦ (entry.1, entry.2.isMutable)) =
      scope.map fun entry ↦ (entry.1, entry.2.isMutable) := by
  induction scope with
  | nil => rfl
  | cons entry rest ih =>
    unfold update
    split
    · rfl
    · simp [ih]

theorem lookup_update (name other : String) (value : Scalar) (scope : Scope) :
    (scope.update name value).lookup other =
      if other = name then (scope.lookup other).map fun held ↦ { held with value := value }
      else scope.lookup other := by
  induction scope with
  | nil => simp [update]
  | cons entry rest ih =>
    obtain ⟨key, held⟩ := entry
    unfold update
    by_cases hkey : key = name
    · subst hkey
      by_cases hother : other = key
      · subst hother
        simp
      · have hbeq : (other == key) = false := beq_false_of_ne hother
        simp [List.lookup_cons, hbeq, hother]
    · by_cases hother : other = key
      · subst hother
        simp [hkey]
      · have hbeq : (other == key) = false := beq_false_of_ne hother
        simp [hkey, List.lookup_cons, hbeq, ih]

end Scope

structure Env where
  innermost : Scope
  /-- The scopes around the innermost one, the global scope last. -/
  enclosing : List Scope
  /-- The bodies of the declared functions. -/
  functions : List (String × String)
deriving DecidableEq, Inhabited

namespace Env

/-- Only the global scope, with nothing in it. -/
def empty : Env := ⟨[], [], []⟩

/-- All scopes, innermost first. -/
def scopes (env : Env) : List Scope := env.innermost :: env.enclosing

def depth (env : Env) : Nat := env.enclosing.length + 1

def push (env : Env) : Env := { env with innermost := [], enclosing := env.scopes }

/-- Leaves the innermost scope. The global scope stays. -/
def pop (env : Env) : Except Error Env :=
  match env.enclosing with
  | [] => .error .popGlobalScope
  | scope :: rest => .ok { env with innermost := scope, enclosing := rest }

/-- Leaves scopes until at most `depth` of them are open. The global scope stays. -/
def truncate (depth : Nat) (env : Env) : Env :=
  match env.scopes.drop (env.depth - depth) with
  | [] => env
  | scope :: rest => { env with innermost := scope, enclosing := rest }

def declare (name : String) (value : Scalar) (isMutable : Bool) (env : Env) : Except Error Env :=
  match env.innermost.lookup name with
  | some _ => .error (.duplicateDeclaration name)
  | none => .ok { env with innermost := env.innermost ++ [(name, ⟨value, isMutable⟩)] }

/-- Assigns in the innermost scope that declares the name, if any. -/
def assignIn (name : String) (value : Scalar) : List Scope → Except Error (List Scope)
  | [] => .error (.undefinedVariable name)
  | scope :: rest =>
    match scope.lookup name with
    | some found =>
      if found.isMutable then .ok (scope.update name value :: rest)
      else .error (.immutableAssignment name)
    | none =>
      match assignIn name value rest with
      | .ok rest => .ok (scope :: rest)
      | .error e => .error e

def assign (name : String) (value : Scalar) (env : Env) : Except Error Env :=
  match assignIn name value env.scopes with
  | .ok (scope :: rest) => .ok { env with innermost := scope, enclosing := rest }
  | .ok [] => .ok env
  | .error e => .error e

/-- The variable that a name refers to. -/
def lookup? (name : String) (env : Env) : Option Variable :=
  env.scopes.findSome? fun scope ↦ scope.lookup name

def get (name : String) (env : Env) : Except Error Variable :=
  match env.lookup? name with
  | some found => .ok found
  | none => .error (.undefinedVariable name)

def has (name : String) (env : Env) : Bool := (env.lookup? name).isSome

def declareFunction (name body : String) (env : Env) : Except Error Env :=
  match env.functions.lookup name with
  | some _ => .error (.duplicateFunction name)
  | none => .ok { env with functions := env.functions ++ [(name, body)] }

def getFunction (name : String) (env : Env) : Except Error String :=
  match env.functions.lookup name with
  | some body => .ok body
  | none => .error (.undefinedFunction name)

/-! ## How the operations change the scopes -/

theorem depth_eq_length (env : Env) : env.depth = env.scopes.length := rfl

@[simp] theorem scopes_push (env : Env) : env.push.scopes = [] :: env.scopes := rfl

@[simp] theorem pop_push (env : Env) : env.push.pop = .ok env := rfl

theorem scopes_pop {env rest : Env} (h : env.pop = .ok rest) :
    env.scopes = env.innermost :: rest.scopes := by
  unfold pop at h
  split at h
  · cases h
  · rename_i scope others henclosing
    cases h
    simp [scopes, henclosing]

theorem scopes_truncate (env : Env) {depth : Nat} (h : 0 < depth) :
    (env.truncate depth).scopes = env.scopes.drop (env.depth - depth) := by
  unfold truncate
  split
  · rename_i hnil
    have hlength := congrArg List.length hnil
    simp only [List.length_drop, List.length_nil, ← depth_eq_length] at hlength
    have hpos : 0 < env.depth := Nat.succ_pos _
    omega
  · rename_i scope rest hcons
    exact hcons.symm

@[simp] theorem functions_truncate (env : Env) (depth : Nat) :
    (env.truncate depth).functions = env.functions := by
  unfold truncate
  split <;> rfl

theorem scopes_assign {name : String} {value : Scalar} {env rest : Env}
    (h : env.assign name value = .ok rest) : assignIn name value env.scopes = .ok rest.scopes := by
  unfold assign at h
  split at h
  · rename_i scope others hassign
    cases h
    exact hassign
  · rename_i hassign
    unfold assignIn scopes at hassign
    repeat' split at hassign
    all_goals cases hassign
  · cases h

/-! ## The listing of visible variables -/

/-- Whether one text comes before another in the order of their code points. -/
def precedes : List Char → List Char → Bool
  | _, [] => false
  | [], _ :: _ => true
  | a :: as, b :: bs => a.toNat < b.toNat || (a.toNat == b.toNat && precedes as bs)

/-- Inserts a variable into a listing in order, unless its name is there already. -/
def insertNew (name : String) (found : Variable) : Scope → Scope
  | [] => [(name, found)]
  | (other, held) :: rest =>
    if name == other then (other, held) :: rest
    else if precedes name.toList other.toList then (name, found) :: (other, held) :: rest
    else (other, held) :: insertNew name found rest

/-- A listing together with the variables of a scope that it does not have yet. -/
def extend (listing scope : Scope) : Scope :=
  scope.foldl (fun listing (name, found) ↦ insertNew name found listing) listing

/-- Every visible variable once, in ascending order of the names. -/
def visible (env : Env) : Scope := env.scopes.foldl extend []

end Env

end Scriptlet
