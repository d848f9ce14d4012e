import Rps.Base.Table

/-! The policy enforcer: the map of registered policies and the revocation queue.

Every function here runs under the map guard of its key and is one atomic step.
Which registration a policy comes from, and which one an event was sent for, is
not in the source: `registration` numbers them for the theorems, and nothing
branches on it. -/
namespace Rps.Controller
open Base

def revokeQueueCapacity : Nat := 4096

inductive ResourceKind where
  | tunnel
  | proxyAccount
  deriving DecidableEq

structure ResourceKey where
  kind : ResourceKind
  id : String
  deriving DecidableEq

def tunnelKey (id : String) : ResourceKey := ⟨.tunnel, id⟩

def proxyAccountKey (id : String) : ResourceKey := ⟨.proxyAccount, id⟩

/-- `str::strip_prefix`. -/
def stripPrefix (pre s : String) : Option String :=
  if pre.toList.isPrefixOf s.toList then some (String.ofList (s.toList.drop pre.length)) else none

theorem stripPrefix_append (pre id : String) : stripPrefix pre (pre ++ id) = some id := by
  have hpre : pre.toList.isPrefixOf (pre ++ id).toList = true := by
    rw [String.toList_append, List.isPrefixOf_iff_prefix]
    exact List.prefix_append _ _
  rw [stripPrefix, if_pos hpre, String.toList_append, ← String.length_toList, List.drop_left,
    String.ofList_toList]

def resourceKeyFromRoute (routeId : String) : Option ResourceKey :=
  match stripPrefix "http-proxy:" routeId <|> stripPrefix "socks5:" routeId <|>
      stripPrefix "socks5-udp:" routeId with
  | some id => some (proxyAccountKey id)
  | none => some (tunnelKey routeId)

inductive RevokeReason where
  | expired
  | trafficExhausted
  deriving DecidableEq

def RevokeReason.asStr : RevokeReason → String
  | .expired => "expired"
  | .trafficExhausted => "traffic_exhausted"

structure PolicyState where
  expiresAt : Option Int
  trafficLimitBytes : Option Nat
  usedBytes : Nat
  revoked : Bool
  registration : Nat
  deriving DecidableEq

structure RevokeEvent where
  key : ResourceKey
  reason : RevokeReason
  registration : Nat
  deriving DecidableEq

/-- `revokeTx` is what is in the channel, oldest first. -/
structure PolicyEnforcer where
  policies : Table ResourceKey PolicyState := ∅
  revokeTx : List RevokeEvent := []
  registrations : Nat := 0
  deriving DecidableEq

namespace PolicyEnforcer

def register (p : PolicyEnforcer) (key : ResourceKey) (expiresAt : Option Int)
    (trafficLimitBytes : Option Nat) (usedBytes : Nat) : PolicyEnforcer :=
  {p with
    policies := p.policies.insert key ⟨expiresAt, trafficLimitBytes, usedBytes, false, p.registrations⟩
    registrations := p.registrations + 1}

def remove (p : PolicyEnforcer) (key : ResourceKey) : PolicyEnforcer :=
  {p with policies := p.policies.erase key}

/-- The flag is set once; an event that finds the queue full is dropped. -/
def revokeOnce (p : PolicyEnforcer) (key : ResourceKey) (policy : PolicyState) (reason : RevokeReason) :
    PolicyEnforcer :=
  if policy.revoked then p
  else
    {p with
      policies := p.policies.insert key {policy with revoked := true}
      revokeTx :=
        if p.revokeTx.length < revokeQueueCapacity then p.revokeTx ++ [⟨key, reason, policy.registration⟩]
        else p.revokeTx}

/-- `now >= expires_at`, for a policy that has an expiry. -/
def expiredAt (now : Int) (policy : PolicyState) : Bool :=
  match policy.expiresAt with
  | some expiresAt => expiresAt ≤ now
  | none => false

/-- `used_bytes >= limit`, for a policy that has a limit. -/
def exhausted (policy : PolicyState) : Bool :=
  match policy.trafficLimitBytes with
  | some limit => limit ≤ policy.usedBytes
  | none => false

def allowed (now : Int) (p : PolicyEnforcer) (key : ResourceKey) : Bool × PolicyEnforcer :=
  match p.policies.lookup key with
  | none => (true, p)
  | some policy =>
    if policy.revoked then (false, p)
    else if expiredAt now policy then (false, p.revokeOnce key policy .expired)
    else if exhausted policy then (false, p.revokeOnce key policy .trafficExhausted)
    else (true, p)

/-- `u64::saturating_add`. -/
def saturatingAdd (a b : Nat) : Nat := min (a + b) (2 ^ 64 - 1)

def recordRouteUsage (p : PolicyEnforcer) (routeId : String) (rxBytes txBytes : Nat) : PolicyEnforcer :=
  match resourceKeyFromRoute routeId with
  | none => p
  | some key =>
    match p.policies.lookup key with
    | none => p
    | some policy =>
      let delta := saturatingAdd rxBytes txBytes
      if delta = 0 then p
      else
        -- `fetch_add` wraps; the value compared with the limit saturates.
        let used := saturatingAdd policy.usedBytes delta
        let policy := {policy with usedBytes := (policy.usedBytes + delta) % 2 ^ 64}
        let p := {p with policies := p.policies.insert key policy}
        match policy.trafficLimitBytes with
        | some limit => if limit ≤ used then p.revokeOnce key policy .trafficExhausted else p
        | none => p

/-- What `expired_keys` does at one entry of the map: an entry that has expired
and is not revoked is revoked, and returned to the caller as well. -/
def expiredKey (now : Int) (p : PolicyEnforcer) (key : ResourceKey) : Option RevokeEvent × PolicyEnforcer :=
  match p.policies.lookup key with
  | none => (none, p)
  | some policy =>
    if expiredAt now policy && !policy.revoked then
      (some ⟨key, .expired, policy.registration⟩, p.revokeOnce key policy .expired)
    else (none, p)

/-! ### What a call can do -/

def hasRoom (p : PolicyEnforcer) : Bool := p.revokeTx.length < revokeQueueCapacity

/-- The policy of the key is due to be revoked: `allowed` will set its flag. -/
def due (now : Int) (p : PolicyEnforcer) (key : ResourceKey) : Bool :=
  match p.policies.lookup key with
  | some policy => !policy.revoked && (expiredAt now policy || exhausted policy)
  | none => false

/-- The sweep will find the policy of the key: it has expired and is not revoked. -/
def expires (now : Int) (p : PolicyEnforcer) (key : ResourceKey) : Bool :=
  match p.policies.lookup key with
  | some policy => expiredAt now policy && !policy.revoked
  | none => false

/-- These bytes take the policy of their route over its limit: `record_route_usage`
will set its flag. -/
def exhausts (p : PolicyEnforcer) (routeId : String) (rxBytes txBytes : Nat) : Bool :=
  let delta := saturatingAdd rxBytes txBytes
  match (resourceKeyFromRoute routeId).bind p.policies.lookup with
  | some policy =>
    !policy.revoked && decide (delta ≠ 0) &&
      match policy.trafficLimitBytes with
      | some limit => limit ≤ saturatingAdd policy.usedBytes delta
      | none => false
  | none => false

/-- The flag of a policy is set, with the usage it has by then, and its event goes
into the queue if there is room. -/
def flip (p : PolicyEnforcer) (key : ResourceKey) (policy : PolicyState) (used : Nat) (reason : RevokeReason) :
    PolicyEnforcer :=
  {p with
    policies := p.policies.insert key {policy with usedBytes := used, revoked := true}
    revokeTx :=
      if p.revokeTx.length < revokeQueueCapacity then p.revokeTx ++ [⟨key, reason, policy.registration⟩]
      else p.revokeTx}

/-- What `allowed` and `record_route_usage` can do: nothing, count, or set a flag.
`R` is what is known of the queue when a flag is set. -/
inductive Call (p : PolicyEnforcer) (R : Prop) : PolicyEnforcer → Prop where
  | keep : Call p R p
  | count (key : ResourceKey) (policy : PolicyState) (used : Nat) : p.policies.lookup key = some policy →
      Call p R {p with policies := p.policies.insert key {policy with usedBytes := used}}
  | flip (key : ResourceKey) (policy : PolicyState) (used : Nat) (reason : RevokeReason) :
      p.policies.lookup key = some policy → policy.revoked = false → R →
      Call p R (p.flip key policy used reason)

theorem Call.mono {p p' : PolicyEnforcer} {R Q : Prop} (h : Call p R p') (hRQ : R → Q) : Call p Q p' := by
  cases h with
  | keep => exact .keep
  | count key policy used hl => exact .count key policy used hl
  | flip key policy used reason hl hrev hr => exact .flip key policy used reason hl hrev (hRQ hr)

theorem revokeOnce_eq_flip {p : PolicyEnforcer} {key : ResourceKey} {policy : PolicyState}
    (h : policy.revoked = false) (reason : RevokeReason) :
    p.revokeOnce key policy reason = p.flip key policy policy.usedBytes reason := by
  simp [revokeOnce, flip, h]

theorem allowed_call (now : Int) (p : PolicyEnforcer) (key : ResourceKey) {R : Prop}
    (hroom : p.due now key = true → R) : Call p R (p.allowed now key).2 := by
  unfold allowed due at *
  cases hl : p.policies.lookup key with
  | none => exact .keep
  | some policy =>
    simp only [hl] at hroom ⊢
    cases hr : policy.revoked with
    | true => exact .keep
    | false =>
      simp only [Bool.false_eq_true, if_false]
      split
      · rename_i hexp
        rw [revokeOnce_eq_flip hr]
        exact .flip key policy _ _ hl hr (hroom (by simp [hr, hexp]))
      · split
        · rename_i hexh
          rw [revokeOnce_eq_flip hr]
          exact .flip key policy _ _ hl hr (hroom (by simp [hr, hexh]))
        · exact .keep

theorem recordRouteUsage_call (p : PolicyEnforcer) (routeId : String) (rxBytes txBytes : Nat) {R : Prop}
    (hroom : p.exhausts routeId rxBytes txBytes = true → R) :
    Call p R (p.recordRouteUsage routeId rxBytes txBytes) := by
  unfold recordRouteUsage exhausts at *
  cases hkey : resourceKeyFromRoute routeId with
  | none => exact .keep
  | some key =>
    cases hl : p.policies.lookup key with
    | none =>
      simp only [hl]
      exact .keep
    | some policy =>
      simp only [hkey, hl, Option.bind_some] at hroom ⊢
      split
      · exact .keep
      · rename_i hdelta
        have hcount := Call.count (R := R) key policy
          ((policy.usedBytes + saturatingAdd rxBytes txBytes) % 2 ^ 64) hl
        cases hlimit : policy.trafficLimitBytes with
        | none => simpa [hlimit] using hcount
        | some limit =>
          simp only [hlimit] at hroom ⊢
          split
          · rename_i hle
            cases hr : policy.revoked with
            | true =>
              rw [revokeOnce, if_pos rfl]
              simpa [hlimit, hr] using hcount
            | false =>
              have hflip := Call.flip (R := R) key policy
                ((policy.usedBytes + saturatingAdd rxBytes txBytes) % 2 ^ 64) .trafficExhausted hl hr
                (hroom (by simp [hr, hdelta, hle]))
              rw [revokeOnce_eq_flip rfl]
              simpa [flip, hlimit, hr, AList.insert_insert] using hflip
          · simpa [hlimit] using hcount

/-- At one entry the sweep either does nothing or sets the flag and returns the
event besides. -/
theorem expiredKey_cases (now : Int) (p : PolicyEnforcer) (key : ResourceKey) :
    p.expiredKey now key = (none, p) ∨
    ∃ policy, p.policies.lookup key = some policy ∧ policy.revoked = false ∧ p.expires now key = true ∧
      p.expiredKey now key =
        (some ⟨key, .expired, policy.registration⟩, p.flip key policy policy.usedBytes .expired) := by
  unfold expiredKey expires
  cases hl : p.policies.lookup key with
  | none => exact .inl rfl
  | some policy =>
    simp only
    split
    · rename_i hexp
      simp only [Bool.and_eq_true, Bool.not_eq_true'] at hexp
      refine .inr ⟨policy, rfl, hexp.2, by simp [hexp.1, hexp.2], ?_⟩
      rw [revokeOnce_eq_flip hexp.2]
    · exact .inl rfl

end PolicyEnforcer

end Rps.Controller
