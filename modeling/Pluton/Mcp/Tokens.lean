-- SUMMARY: The native tokens of the MCP gateway: what admits a request, and what changes a token.
import Pluton.Mcp.Database

/-!
# Native tokens

`backend/src/mcp/NativeTokenStore.ts` and `setPolicy` of `McpStore.ts`. A change of a token
that is not its creation counts up its revision.
-/
namespace Pluton.Mcp

open EStateM

variable (env : Env)

def Database.token (db : Database) (id : String) : Option NativeToken :=
  db.tokens.find? (·.id == id)

/-- `active`; the clock is read last. -/
def active (id : String) : Program NativeToken := do
  let w ← get
  match w.database.token id with
  | none => throw (fault 401 "invalid_token")
  | some token => do
    refuseIf (token.revokedAt.isSome || token.disabled) (fault 401 "invalid_token")
    let t ← now env
    refuseIf (token.expiresAt ≤ t) (fault 401 "invalid_token")
    pure token

/-- Does the token grant the tool, for the plan if one is named? -/
def NativeToken.grants (token : NativeToken) (tool : String) (planId : Option String) : Bool :=
  token.configuration.tools.contains tool &&
    (if "pluton_request_".isPrefixOf tool then token.configuration.mode != .read
      else token.configuration.mode != .write) &&
    planId.all token.configuration.planIds.contains

def can (id tool : String) (planId : Option String) : Program Bool := do
  let token ← active env id
  pure (token.grants tool planId)

/-! ## Changes -/

/-- The largest number of tokens. -/
def tokenLimit : Nat := 1000

/-- `create`; `id` is the one that is drawn. -/
def createToken (value : TokenInput) (actor id : String) : Program Unit := transaction do
  let w ← get
  refuseIf (tokenLimit ≤ w.database.tokens.length) (fault 409 "token_limit")
  let createdAt ← now env
  let t ← now env
  refuseIf (w.database.token id).isSome internalError
  setDatabase fun db => { db with tokens := db.tokens ++
    [{ id := id, configuration := value, issuer := actor, createdAt := createdAt,
       expiresAt := t + value.ttlHours * 3600000 }] }

def edit (id : String) (value : TokenInput) : Program Unit := transaction do
  let _ ← active env id
  updateTokens (·.id == id) fun token =>
    { token with configuration := value, revision := token.revision + 1 }

def setDisabled (id : String) (disabled : Bool) : Program Unit := transaction do
  let w ← get
  refuseIf ((w.database.token id).all (·.revokedAt.isSome)) (fault 404 "not_found")
  updateTokens (·.id == id) fun token =>
    { token with disabled := disabled, revision := token.revision + 1 }

/-- `revoked_at=coalesce(revoked_at,?),revision=revision+1` -/
def revoked (t : Nat) (token : NativeToken) : NativeToken :=
  { token with revokedAt := token.revokedAt <|> some t, revision := token.revision + 1 }

def revoke (id : String) : Program Unit := transaction do
  let w ← get
  refuseIf (w.database.token id).isNone (fault 404 "not_found")
  let t ← now env
  updateTokens (·.id == id) (revoked t)

/-- `rotate`; `newId` is the one that is drawn. -/
def rotate (id : String) (ttlHours : Nat) (actor newId : String) : Program Unit := transaction do
  let old ← active env id
  createToken env { old.configuration with ttlHours := ttlHours } actor newId
  revoke env id

def revokeAll : Program Unit := transaction do
  let t ← now env
  updateTokens (fun _ => true) (revoked t)

def setPolicy (policy : Policy) : Program Unit := transaction do
  setDatabase fun db => { db with policy := policy }

end Pluton.Mcp
