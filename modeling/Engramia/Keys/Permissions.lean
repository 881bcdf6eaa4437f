import Mathlib.Data.List.Basic

/-!
The four roles of an API key, what each may do, and which roles its holder may give to
a new key. `owner` has the wildcard in place of a list.
-/
namespace Engramia.Keys

inductive Role where
  | reader
  | editor
  | admin
  | owner
deriving DecidableEq, Repr

def Role.text : Role → String
  | .reader => "reader"
  | .editor => "editor"
  | .admin => "admin"
  | .owner => "owner"

def readerPerms : List String :=
  ["health", "metrics", "recall", "feedback:read", "skills:search", "jobs:list", "jobs:read",
    "analytics:read"]

def editorPerms : List String :=
  readerPerms ++
    ["learn", "evaluate", "compose", "evolve", "analyze_failures", "skills:register", "aging",
      "feedback:decay", "jobs:cancel", "patterns:delete_own", "analytics:rollup"]

def adminPerms : List String :=
  editorPerms ++
    ["patterns:delete", "import", "export", "keys:create", "keys:list", "keys:revoke",
      "keys:rotate", "governance:read", "governance:write", "governance:admin",
      "governance:delete", "audit:read", "billing:read", "billing:manage", "credentials:read",
      "credentials:write", "credentials:role_models:write", "credentials:failover_chain:write",
      "credentials:role_cost_limits:write"]

def ownerPerms : List String := ["*"]

/-- `PERMISSIONS`. -/
def permissions : Role → List String
  | .reader => readerPerms
  | .editor => editorPerms
  | .admin => adminPerms
  | .owner => ownerPerms

/-- The test of `require_permission`. -/
def Role.permits (role : Role) (perm : String) : Bool :=
  "*" ∈ permissions role || perm ∈ permissions role

def roleRank : Role → Nat
  | .reader => 0
  | .editor => 1
  | .admin => 2
  | .owner => 3

/-- `_MAX_ASSIGNABLE`: the highest role that each role may give to a new key. -/
def maxAssignable : Role → Role
  | .owner => .owner
  | .admin => .editor
  | .editor => .reader
  | .reader => .reader

theorem maxAssignable_le (r : Role) : roleRank (maxAssignable r) ≤ roleRank r := by
  cases r with
  | reader => decide
  | editor => decide
  | admin => decide
  | owner => decide

theorem maxAssignable_mono {r r' : Role} (h : roleRank r ≤ roleRank r') :
    roleRank (maxAssignable r) ≤ roleRank (maxAssignable r') := by
  cases r with
  | reader => exact Nat.zero_le _
  | editor => exact Nat.zero_le _
  | admin =>
      cases r' with
      | reader => exact absurd h (by decide)
      | editor => exact absurd h (by decide)
      | admin => decide
      | owner => decide
  | owner =>
      cases r' with
      | reader => exact absurd h (by decide)
      | editor => exact absurd h (by decide)
      | admin => exact absurd h (by decide)
      | owner => decide

theorem permits_owner (perm : String) : Role.owner.permits perm = true := by
  rw [Role.permits, Bool.or_eq_true, decide_eq_true_iff]
  exact .inl (List.mem_singleton_self _)

theorem permissions_subset {r r' : Role} (h : roleRank r ≤ roleRank r') (hr : r' ≠ .owner) :
    permissions r ⊆ permissions r' := by
  have heditor : readerPerms ⊆ editorPerms := List.subset_append_left _ _
  have hadmin : editorPerms ⊆ adminPerms := List.subset_append_left _ _
  cases r' with
  | owner => exact absurd rfl hr
  | reader =>
      cases r with
      | reader => exact List.Subset.refl _
      | editor => exact absurd h (by decide)
      | admin => exact absurd h (by decide)
      | owner => exact absurd h (by decide)
  | editor =>
      cases r with
      | reader => exact heditor
      | editor => exact List.Subset.refl _
      | admin => exact absurd h (by decide)
      | owner => exact absurd h (by decide)
  | admin =>
      cases r with
      | reader => exact List.Subset.trans heditor hadmin
      | editor => exact hadmin
      | admin => exact List.Subset.refl _
      | owner => exact absurd h (by decide)

theorem permits_mono {r r' : Role} (h : roleRank r ≤ roleRank r') {perm : String}
    (hperm : r.permits perm = true) : r'.permits perm = true := by
  by_cases hr : r' = .owner
  · rw [hr]
    exact permits_owner perm
  · have hsub := permissions_subset h hr
    rw [Role.permits, Bool.or_eq_true, decide_eq_true_iff, decide_eq_true_iff] at hperm ⊢
    cases hperm with
    | inl hall => exact .inl (hsub hall)
    | inr hown => exact .inr (hsub hown)

end Engramia.Keys
