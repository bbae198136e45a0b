import Sandbox.Auth.State

/-!
# Refresh Token Families

The refresh tokens that descend from one code exchange form a family. A
token is consumed by reading and removing it in one step and written back as
rotated, so that a second presentation is recognised. A family is revoked as
a whole through the set of its keys, and the families of a session are listed
through a set of references.

## Main definitions

* `RefreshFamilyRef`, `encodeFamilyRef`, `decodeFamilyRef`: References.
* `createRefreshTokenFamily`, `rotateRefreshToken`: Issuing.
* `consumeRefreshToken`: Using a token once.
* `revokeRefreshTokenFamily`, `listRefreshFamilies`,
  `describeRefreshTokenFamily`: The sets.

## Theorems

* `decodeFamilyRef_encodeFamilyRef`: A reference survives its encoding.
* `exec_consumeRefreshToken`: What presenting a token alone gives.
-/

namespace Sandbox.Auth

open Interleave Ttl

/-- A family of a session, with the service and tenant it is for. -/
structure RefreshFamilyRef where
  familyId : String
  clientId : String
  tenantId : String
  deriving DecidableEq

def refSeparator : Char := ':'

def encodeFamilyRef (ref : RefreshFamilyRef) : String :=
  join refSeparator [ref.clientId, ref.tenantId, ref.familyId]

def decodeFamilyRef (member : String) : Option RefreshFamilyRef :=
  match split refSeparator member with
  | clientId :: tenantId :: familyId :: _ => some ⟨familyId, clientId, tenantId⟩
  | _ => none

/-- A reference whose parts have no colon survives its encoding. -/
theorem decodeFamilyRef_encodeFamilyRef {ref : RefreshFamilyRef}
    (hclient : ':' ∉ ref.clientId.toList) (htenant : ':' ∉ ref.tenantId.toList)
    (hfamily : ':' ∉ ref.familyId.toList) :
    decodeFamilyRef (encodeFamilyRef ref) = some ref := by
  unfold decodeFamilyRef encodeFamilyRef
  rw [split_join (List.cons_ne_nil _ _)]
  intro part hpart
  simp only [List.mem_cons, List.not_mem_nil, or_false] at hpart
  rcases hpart with rfl | rfl | rfl
  · exact hclient
  · exact htenant
  · exact hfamily

/-- What a new token is for. -/
structure NewRefreshTokenInput where
  clientId : String
  userId : String
  tenantId : String
  sid : String
  ssoSessionId : String
  scope : String
  authTime : Int
  deriving DecidableEq

/-- The record of a new token in a family. -/
def NewRefreshTokenInput.record (input : NewRefreshTokenInput) (familyId : String) :
    RefreshToken where
  familyId := familyId
  clientId := input.clientId
  userId := input.userId
  tenantId := input.tenantId
  sid := input.sid
  ssoSessionId := input.ssoSessionId
  scope := input.scope
  authTime := input.authTime
  status := .active

/-- What a successor of a token is for. -/
def RefreshToken.input (token : RefreshToken) : NewRefreshTokenInput where
  clientId := token.clientId
  userId := token.userId
  tenantId := token.tenantId
  sid := token.sid
  ssoSessionId := token.ssoSessionId
  scope := token.scope
  authTime := token.authTime

structure IssuedRefreshToken where
  /-- The value for the client. Only its digest is stored. -/
  value : String
  record : RefreshToken
  deriving DecidableEq

def storeRefreshToken (deps : Deps) (input : NewRefreshTokenInput) (familyId : String) :
    AuthProg IssuedRefreshToken := do
  let value ← randomToken 32
  let record := input.record familyId
  refreshTokens.setLogged (.tokenStored familyId (deps.keyOf value)) (deps.keyOf value) record
    refreshTokenTtl
  pure ⟨value, record⟩

/-- Issue the first token of a new family. -/
def createRefreshTokenFamily (deps : Deps) (input : NewRefreshTokenInput) :
    AuthProg IssuedRefreshToken := do
  let familyId ← randomToken 16
  -- The token comes first, then the set of its family and that of its `sid`.
  let issued ← storeRefreshToken deps input familyId
  let _ ← Prog.both
    (refreshTokenFamilies.addLogged (.tokenIndexed familyId (deps.keyOf issued.value)) familyId
      (deps.keyOf issued.value) refreshTokenTtl)
    (sidRefreshFamilies.add input.sid
      (encodeFamilyRef ⟨familyId, input.clientId, input.tenantId⟩) refreshTokenTtl)
  pure issued

/-- The families of a session. -/
def listRefreshFamilies (sid : String) : AuthProg (List RefreshFamilyRef) := do
  let members ← sidRefreshFamilies.members sid
  pure (members.filterMap decodeFamilyRef)

inductive ConsumeResult
  | consumed (token : RefreshToken)
  | unknown
  | reused (token : RefreshToken)

/-- Use a token once. What is read is written back as rotated, or as it was if
    it was not active any more. -/
def consumeRefreshToken (deps : Deps) (value : String) : AuthProg ConsumeResult := do
  let key := deps.keyOf value
  let stored ← refreshTokens.getAndDelete key
  match stored with
  | none => pure .unknown
  | some token =>
      -- A token that was used stays readable, so that it can be told from an unknown one.
      if token.status ≠ .active then
        refreshTokens.set key token refreshTokenTtl
        pure (.reused token)
      else
        refreshTokens.set key { token with status := .rotated } refreshTokenTtl
        pure (.consumed token)

/-- Issue the successor of a consumed token. -/
def rotateRefreshToken (deps : Deps) (current : RefreshToken) : AuthProg IssuedRefreshToken := do
  let next ← storeRefreshToken deps current.input current.familyId
  refreshTokenFamilies.addLogged (.tokenIndexed current.familyId (deps.keyOf next.value))
    current.familyId (deps.keyOf next.value) refreshTokenTtl
  pure next

/-- Write a token back as revoked, if it was found. -/
def revokeStored (key : String) (stored : Option RefreshToken) : AuthProg Unit :=
  match stored with
  | none => pure ()
  | some token => refreshTokens.set key { token with status := .revoked } refreshTokenTtl

/-- Revoke every token of a family. -/
def revokeRefreshTokenFamily (familyId : String) : AuthProg Unit := do
  let keys ← refreshTokenFamilies.membersLogged (fun _ => .familyRead familyId) familyId
  -- All tokens are read before the first is written back.
  let records ← Prog.all (keys.map fun key => refreshTokens.get key)
  let _ ← Prog.all ((keys.zip records).map fun x => revokeStored x.1 x.2)
  Prog.emit (.familyRevoked familyId)

/-- The first token of a family that is still there. -/
def describeRefreshTokenFamily (familyId : String) : AuthProg (Option RefreshToken) := do
  let keys ← refreshTokenFamilies.members familyId
  let records ← Prog.all (keys.map fun key => refreshTokens.get key)
  pure (records.findSome? id)

/-- Presenting a token with nothing else running. -/
theorem exec_consumeRefreshToken {deps : Deps} {value : String} {s s' : State} {es : List Event}
    {a : ConsumeResult} (h : Exec s (consumeRefreshToken deps value) es a s') :
    match Ttl.get s.refreshTokens s.now (deps.keyOf value) with
    | none => a = .unknown
    | some token => a = if token.status = .active then .consumed token else .reused token := by
  rcases exec_bind h with ⟨stored, s₁, _, _, htake, hrest, _⟩
  have hstored : stored = Ttl.get s.refreshTokens s.now (deps.keyOf value) :=
    (exec_atomic htake).2.1
  rw [← hstored]
  cases stored with
  | none => exact (exec_done hrest).2.1
  | some token =>
      dsimp only at hrest ⊢
      -- Either way the token is written back as spent, and only the answer differs.
      by_cases hactive : token.status = .active
      · rw [if_neg (not_not_intro hactive)] at hrest
        rcases exec_bind hrest with ⟨_, _, _, _, _, hdone, _⟩
        rw [if_pos hactive]
        exact (exec_done hdone).2.1
      · rw [if_pos hactive] at hrest
        rcases exec_bind hrest with ⟨_, _, _, _, _, hdone, _⟩
        rw [if_neg hactive]
        exact (exec_done hdone).2.1

end Sandbox.Auth
