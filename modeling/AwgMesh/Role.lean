import Mathlib.Data.List.Basic

/-! # Node roles -/

namespace AwgMesh

inductive Role where
  | client
  | master
  | egress
  | ingress
  | balancer
  | unknown (got : String)
  deriving DecidableEq

namespace Role

def ofString : String → Role
  | "client" => .client
  | "master" => .master
  | "egress" => .egress
  | "ingress" => .ingress
  | "balancer" => .balancer
  | got => .unknown got

def text : Role → String
  | .client => "client"
  | .master => "master"
  | .egress => "egress"
  | .ingress => "ingress"
  | .balancer => "balancer"
  | .unknown got => got

def isValid : Role → Bool
  | .unknown _ => false
  | _ => true

end Role

inductive RoleError where
  | empty
  | unknown (got : String)
  | clientExclusive
  deriving DecidableEq

def RoleError.message (quote : String → String) : RoleError → String
  | .empty => "role: at least one role is required"
  | .unknown got =>
    "role: unknown role " ++ quote got ++ " (allowed: client, master, egress, ingress, balancer)"
  | .clientExclusive => "role: 'client' is exclusive and cannot be combined with other roles"

/-- The loop of `ValidateComposability`. -/
def scanRoles : List Role → (seen : List Role) → (hasClient : Bool) →
    Except RoleError (List Role × Bool)
  | [], seen, hasClient => .ok (seen, hasClient)
  | r :: rs, seen, hasClient =>
    match r with
    | .unknown got => .error (.unknown got)
    | r => scanRoles rs (seen.insert r) (hasClient || r == .client)

def validateComposability (roles : List Role) : Except RoleError Unit :=
  if roles = [] then .error .empty
  else match scanRoles roles [] false with
    | .error err => .error err
    | .ok (seen, hasClient) =>
      if hasClient && seen.length > 1 then .error .clientExclusive else .ok ()

theorem scanRoles_ok {roles seen seen' : List Role} {hasClient hasClient' : Bool}
    (h : scanRoles roles seen hasClient = .ok (seen', hasClient')) :
    (∀ r, r ∈ seen ∨ r ∈ roles → r ∈ seen') ∧
      (hasClient = true ∨ Role.client ∈ roles → hasClient' = true) := by
  induction roles generalizing seen hasClient with
  | nil =>
    cases h
    exact ⟨fun r hr => hr.resolve_right nofun, fun hc => hc.resolve_right nofun⟩
  | cons a rest ih =>
    cases a with
    | unknown got => cases h
    | _ =>
      obtain ⟨hseen, hclient⟩ := ih h
      refine ⟨fun r hr => hseen r ?_, fun hc => hclient ?_⟩
      · rcases hr with hr | hr
        · exact .inl (List.mem_insert_of_mem hr)
        · rcases List.mem_cons.mp hr with rfl | hr
          · exact .inl List.mem_insert_self
          · exact .inr hr
      · rcases hc with hc | hc
        · exact .inl (by rw [hc]; rfl)
        · rcases List.mem_cons.mp hc with hc | hc
          · exact .inl (by simp [← hc])
          · exact .inr hc

theorem validateComposability_client {roles : List Role} {u : Unit}
    (h : validateComposability roles = .ok u) (hclient : Role.client ∈ roles) {r : Role}
    (hr : r ∈ roles) : r = .client := by
  unfold validateComposability at h
  split at h
  · cases h
  cases hscan : scanRoles roles [] false with
  | error err => rw [hscan] at h; cases h
  | ok res =>
    obtain ⟨seen, hasClient⟩ := res
    obtain ⟨hseen, hhas⟩ := scanRoles_ok hscan
    rw [hscan, hhas (.inr hclient)] at h
    by_cases hlen : seen.length > 1
    · simp [hlen] at h
    · have hone : ∀ a ∈ seen, ∀ b ∈ seen, a = b := by
        cases seen with
        | nil => nofun
        | cons a seen =>
          cases seen with
          | nil => simp
          | cons b seen => simp at hlen
      exact hone r (hseen r (.inr hr)) _ (hseen _ (.inr hclient))

end AwgMesh
