import Pkc.Library.Runs
import Pkc.Publish.Tables
import Mathlib.Data.List.MinMax

/-!
# Fetching the record of a community

The update loop of a remote community fetches its record again and again, over IPFS or through any
number of gateways at once, and keeps the CIDs it has consumed in `_updateCidsAlreadyLoaded`, so
that an unchanged record is not fetched and verified again.

* An attempt to fetch runs as a set of tasks: one over IPFS (`_fetchCommunityIpnsP2PAndVerify`), or
  one for each gateway (`_fetchCommunityFromGateways`).  A task stands at one of its awaits
  (`Phase`); what the network or the verifier answers is the action that resumes it, so every order
  of answers is a list of actions.
* The CID is recorded as soon as the body is there, before the record is parsed, its delegation
  chain walked, its anchor claim proven and its signature checked.
* The tasks of gateways that lose the race outlive the attempt that started them.
* `updateOnce` retries an attempt that failed with a retriable error, and otherwise applies the
  record it got if it is newer, unless the community changed its key in the meantime.

The body of a CID is fixed, so what it parses to is a function of the CID (`Env.parse`).
-/

set_option autoImplicit false

namespace Pkc
namespace LoadedCids

/-! ## Errors -/

/-- The error codes the update loop tells apart. -/
inductive ErrorCode
  | communitySignatureIsInvalid
  | invalidCommunityIpfsSchema
  | communityIpnsRecordPointsToDifferentAddressThanWeExpected
  | overDownloadLimit
  | invalidJson
  | noResolverForName
  | gatewayIpnsRecordChainInvalid
  | ipnsMaxHopsExceeded
  | resolvedIpnsToUnsupportedValue
  | communityRecordAnchorClaimIsNotEndorsed
  | gatewayAbortingLoadingCommunityBecauseWeAlreadyLoadedThisRecord
  | other (code : String)
deriving DecidableEq, Repr

/-- What a step of a fetch throws. -/
inductive LoadError
  /-- A `PKCError`, with `details.status` and `details.responseEtag`. -/
  | pkcError (code : ErrorCode) (status : Option Nat) (responseEtag : Option String)
  | abortError
  /-- Any other `Error`. -/
  | error (message : String)
deriving DecidableEq, Repr

/-- A `PKCError` without a response in its details. -/
def LoadError.code (code : ErrorCode) : LoadError := .pkcError code none none

def LoadError.isSignatureError : LoadError → Bool
  | .pkcError code _ _ => code = .communitySignatureIsInvalid
  | _ => false

def LoadError.isOverDownloadLimit : LoadError → Bool
  | .pkcError code _ _ => code = .overDownloadLimit
  | _ => false

/-- What an attempt throws. -/
inductive FetchError
  | single (e : LoadError)
  /-- `FailedToFetchCommunityFromGatewaysError`. -/
  | fromGateways (gatewayToError : List LoadError)
deriving DecidableEq, Repr

/-- `_isRetriableErrorWhenLoading` on the error of one fetch. -/
def LoadError.isRetriableErrorWhenLoading : LoadError → Bool
  | .pkcError code _ _ =>
    match code with
    | .gatewayAbortingLoadingCommunityBecauseWeAlreadyLoadedThisRecord | .other _ => true
    | _ => false
  | .abortError | .error _ => false

/-- `_isRetriableErrorWhenLoading`: through gateways an invalid signature may be a stale cache. -/
def FetchError.isRetriableErrorWhenLoading : FetchError → Bool
  | .single e => e.isRetriableErrorWhenLoading
  | .fromGateways gatewayToError =>
    gatewayToError.any fun e => e.isSignatureError || e.isRetriableErrorWhenLoading

/-! ## Records -/

/-- The fields of a community record a fetch looks at. -/
structure CommunityIpfs where
  updatedAt : Nat
  /-- The schema asks for a positive timestamp. -/
  updatedAt_pos : 0 < updatedAt
  /-- `getPKCAddressFromPublicKeySync(signature.publicKey)`. -/
  signatureAddress : String
  /-- `anchor.publicKey`: the community the signer says it publishes for. -/
  anchor : Option String
  name : Option String
deriving DecidableEq, Repr

/-- Why a body is not a community record. -/
inductive ParseError
  | invalidJson
  | invalidSchema
deriving DecidableEq, Repr

def ParseError.toLoadError : ParseError → LoadError
  | .invalidJson => .code .invalidJson
  | .invalidSchema => .code .invalidCommunityIpfsSchema

/-- The pure functions a fetch calls. -/
structure Env where
  /-- What the body of a CID parses to. -/
  parse : Cid → Except ParseError CommunityIpfs
  /-- The CID of an etag header, in version 0, if it is one. -/
  cidOfEtag : String → Option Cid
  areEquivalentCommunityAddresses : String → String → Bool

/-- `LimitedSet.add`: a set of at most `maxSize` values in the order they were added last. -/
def limitedSetAdd {α : Type} [DecidableEq α] (maxSize : Nat) (set : List α) (value : α) : List α :=
  if value ∈ set then set.erase value ++ [value]
  else (if maxSize ≤ set.length then set.tail else set) ++ [value]

/-! ## The state -/

/-- Where a task waits.  From the moment the body is there it carries the CID and the record. -/
inductive Phase
  /-- Over IPFS the IPNS name is being resolved, from a gateway the response is awaited. -/
  | requesting
  /-- The headers of the gateway did not end the request. -/
  | receiving (etag : Option String)
  /-- Over IPFS the body of the resolved CID is being fetched. -/
  | fetching (cid : Cid) (ipnsHops : List String)
  /-- The delegation chain is being walked through the gateway. -/
  | walking (cid : Cid) (record : CommunityIpfs) (etag : Option String)
  /-- The chain of the anchor the record claims is being resolved. -/
  | proving (cid : Cid) (record : CommunityIpfs) (ipnsHops : List String) (etag : Option String)
  /-- The signature is being verified. -/
  | checking (cid : Cid) (record : CommunityIpfs) (ipnsHops : List String) (etag : Option String)
  | loaded (cid : Cid) (record : CommunityIpfs) (ipnsHops : List String)
  /-- Over IPFS: resolved to a CID that was loaded before. -/
  | confirmed
  | failed (e : LoadError)
deriving DecidableEq, Repr

/-- One fetch of an attempt. -/
structure Task where
  /-- `none` over IPFS. -/
  gateway : Option String
  ipnsName : String
  phase : Phase := .requesting
  /-- The attempt has looked at what the task ended with. -/
  handled : Bool := false
  /-- The attempt that started the task is still the one under way. -/
  current : Bool := true
deriving DecidableEq, Repr

/-- What an attempt ends with. -/
inductive Outcome
  | community (record : CommunityIpfs) (cid : Cid)
  /-- `undefined`: the current record was loaded before. -/
  | nothing
  | failed (e : FetchError)
deriving DecidableEq, Repr

/-- Where `updateOnce` stands. -/
inductive Loop
  | idle
  /-- Between two attempts.  `discard`: the key changed or the loop was stopped since it began. -/
  | retrying (discard : Bool)
  /-- `aborted`: the stop signal of this attempt has fired. -/
  | fetching (discard aborted : Bool) (outcome : Option Outcome)
deriving DecidableEq, Repr

structure State where
  updateCidsAlreadyLoaded : List Cid
  gatewayEtagsOfLoadedRecords : List String
  address : String
  publicKey : Option String
  ipnsHops : List String
  communityIpfs : Option CommunityIpfs
  updateCid : Option Cid
  loop : Loop
  tasks : List Task
  /-- History: the CIDs whose record was applied to the community. -/
  applied : List Cid
  /-- History: the CIDs whose body an attempt refused with an error that is not retriable. -/
  rejected : List Cid
deriving DecidableEq, Repr

/-- An instance with no record yet, or with the record another instance has loaded. -/
def initial (address : String) (publicKey : Option String)
    (loaded : Option (Cid × CommunityIpfs)) : State where
  updateCidsAlreadyLoaded := []
  gatewayEtagsOfLoadedRecords := []
  address := address
  publicKey := publicKey
  ipnsHops := []
  communityIpfs := loaded.map Prod.snd
  updateCid := loaded.map Prod.fst
  loop := .idle
  tasks := []
  applied := (loaded.map Prod.fst).toList
  rejected := []

/-! ## The parts of a task -/

/-- How the update loop would see the task fail with `e`. -/
def Task.error (t : Task) (e : LoadError) : FetchError :=
  match t.gateway with
  | none => .single e
  | some _ => .fromGateways [e]

/-- The update loop gives the record up: the error is neither an abort nor retriable. -/
def Task.definitive (t : Task) (e : LoadError) : Bool :=
  e ≠ .abortError && !(t.error e).isRetriableErrorWhenLoading

def Phase.ended : Phase → Bool
  | .loaded .. | .confirmed | .failed _ => true
  | _ => false

def Phase.isFailed : Phase → Bool
  | .failed _ => true
  | _ => false

namespace State

def setPhase (s : State) (i : Nat) (t : Task) (phase : Phase) : State :=
  { s with tasks := s.tasks.set i { t with phase := phase } }

def setHandled (s : State) (i : Nat) (t : Task) : State :=
  { s with tasks := s.tasks.set i { t with handled := true } }

/-- `_updateCidsAlreadyLoaded.add(cid)`. -/
def addCid (s : State) (cid : Cid) : State :=
  { s with updateCidsAlreadyLoaded := limitedSetAdd 30 s.updateCidsAlreadyLoaded cid }

/-- `_gatewayEtagsOfLoadedRecords.add(etag)`, if there is one. -/
def addEtag (s : State) (etag : Option String) : State :=
  { s with gatewayEtagsOfLoadedRecords :=
      etag.toList.foldl (limitedSetAdd 5) s.gatewayEtagsOfLoadedRecords }

/-- The task throws after the CID was recorded. -/
def reject (s : State) (i : Nat) (t : Task) (cid : Cid) (e : LoadError) : State :=
  { s.setPhase i t (.failed e) with
    rejected := if t.definitive e then cid :: s.rejected else s.rejected }

/-- The checks `_findErrorInCommunityRecord` makes before it verifies the signature. -/
def isExpectedCommunity (env : Env) (s : State) (record : CommunityIpfs) (ipnsHops : List String) :
    Bool :=
  let recordAddress := record.name.getD record.signatureAddress
  env.areEquivalentCommunityAddresses recordAddress s.address ||
    s.publicKey.any (env.areEquivalentCommunityAddresses recordAddress) ||
    env.areEquivalentCommunityAddresses record.signatureAddress (ipnsHops.getLastD "")

/-- Over IPFS the chain is adopted at once, through gateways when a winner is selected. -/
def adoptHops (s : State) (t : Task) (ipnsHops : List String) : State :=
  { s with ipnsHops := if t.gateway.isNone then ipnsHops else s.ipnsHops }

/-- `_findErrorInCommunityRecord`, up to the await of `verifyCommunity`. -/
def findErrorInCommunityRecord (env : Env) (s : State) (i : Nat) (t : Task) (cid : Cid)
    (record : CommunityIpfs) (ipnsHops : List String) (etag : Option String) : State :=
  let s := s.adoptHops t ipnsHops
  if s.isExpectedCommunity env record ipnsHops then
    s.setPhase i t (.checking cid record ipnsHops etag)
  else s.reject i t cid (.code .communityIpnsRecordPointsToDifferentAddressThanWeExpected)

/-- The anchor whose chain has to prove the claim of the record, if it needs a proof. -/
def claimToProve (env : Env) (record : CommunityIpfs) (ipnsHops : List String) : Option String :=
  if 1 < ipnsHops.length then none
  else record.anchor.filter fun claimedAnchor =>
    !env.areEquivalentCommunityAddresses claimedAnchor (ipnsHops.headD "")

/-- `_proveAnchorClaimIfUnwalked`, up to the await of the chain of the claimed anchor. -/
def proveAnchorClaimIfUnwalked (env : Env) (s : State) (i : Nat) (t : Task) (cid : Cid)
    (record : CommunityIpfs) (ipnsHops : List String) (etag : Option String) : State :=
  match claimToProve env record ipnsHops with
  | none => s.findErrorInCommunityRecord env i t cid record ipnsHops etag
  | some _ => s.setPhase i t (.proving cid record ipnsHops etag)

/-- What follows the fetch of the body over IPFS. -/
def receiveIpfs (env : Env) (s : State) (i : Nat) (t : Task) (cid : Cid) (ipnsHops : List String) :
    State :=
  let s := s.addCid cid
  match env.parse cid with
  | .error e => s.reject i t cid e.toLoadError
  | .ok record => s.proveAnchorClaimIfUnwalked env i t cid record ipnsHops none

/-- Determine the terminal IPNS name: a record that the community itself signed needs no walk. -/
def determineTerminalIpnsName (env : Env) (s : State) (i : Nat) (t : Task) (cid : Cid)
    (record : CommunityIpfs) (etag : Option String) : State :=
  if env.areEquivalentCommunityAddresses record.signatureAddress t.ipnsName then
    s.proveAnchorClaimIfUnwalked env i t cid record [t.ipnsName] etag
  else s.setPhase i t (.walking cid record etag)

/-- `throwIfGatewayRespondsWithInvalidCommunity`, up to its first await after the CID of the body
is known. -/
def receiveFromGateway (env : Env) (s : State) (i : Nat) (t : Task) (cid : Cid)
    (etag : Option String) : State :=
  if cid ∈ s.updateCidsAlreadyLoaded then
    s.setPhase i t
      (.failed (.code .gatewayAbortingLoadingCommunityBecauseWeAlreadyLoadedThisRecord))
  else
    let s := s.addCid cid
    match env.parse cid with
    | .error e => s.reject i t cid e.toLoadError
    | .ok record => s.determineTerminalIpnsName env i t cid record etag

end State

/-- `_normalizedEtagOfResponse`. -/
def normalizedEtag (etag : String) : String :=
  match etag.toList with
  | 'W' :: '/' :: rest => String.ofList rest
  | _ => etag

namespace State

/-- `checkResponseHeadersIfOldCid`. -/
def checkResponseHeadersIfOldCid (env : Env) (s : State) (i : Nat) (t : Task)
    (etag : Option String) : State :=
  let alreadyLoaded : Phase :=
    .failed (.code .gatewayAbortingLoadingCommunityBecauseWeAlreadyLoadedThisRecord)
  match etag.filter fun etag => etag ≠ "" with
  | none => s.setPhase i t (.receiving none)
  | some etag =>
    if normalizedEtag etag ∈ s.gatewayEtagsOfLoadedRecords then s.setPhase i t alreadyLoaded
    else
      match env.cidOfEtag etag with
      | none => s.setPhase i t (.receiving (normalizedEtag etag))
      | some cid =>
        if cid ∈ s.updateCidsAlreadyLoaded ∨ s.updateCid = some cid then
          (s.addEtag (normalizedEtag etag)).setPhase i t alreadyLoaded
        else s.setPhase i t (.receiving (normalizedEtag etag))

/-! ## The parts of an attempt -/

def currentTasks (s : State) : List Task := s.tasks.filter fun t => t.current

/-- `communityIpfs?.updatedAt || 0`. -/
def currentUpdatedAt (s : State) : Nat := (s.communityIpfs.map CommunityIpfs.updatedAt).getD 0

end State

/-- What a gateway has delivered so far. -/
def Task.communityRecord (t : Task) : Option (CommunityIpfs × Cid × List String) :=
  match t.phase with
  | .loaded cid record ipnsHops => some (record, cid, ipnsHops)
  | _ => none

/-- `selectWinningGatewayCommunity`: the latest record, if it is newer than the current one. -/
def selectWinningGatewayCommunity (currentUpdatedAt : Nat) (gatewayFetches : List Task) :
    Option (CommunityIpfs × Cid × List String) :=
  match (gatewayFetches.filterMap Task.communityRecord).argmax fun best => best.1.updatedAt with
  | none => none
  | some best => if currentUpdatedAt < best.1.updatedAt then some best else none

/-- The gateway says that its record was loaded before. -/
def LoadError.confirmsCurrentRecord : LoadError → Bool
  | .pkcError code status _ =>
    status = some 304 || code = .gatewayAbortingLoadingCommunityBecauseWeAlreadyLoadedThisRecord
  | _ => false

/-- The entity-tag a 304 response echoes. -/
def LoadError.etagFrom304 : LoadError → Option String
  | .pkcError _ (some 304) responseEtag =>
    (responseEtag.filter fun etag => etag ≠ "").map normalizedEtag
  | _ => none

/-- The errors of the gateways that failed. -/
def gatewayToError (gatewayFetches : List Task) : List LoadError :=
  gatewayFetches.filterMap fun t =>
    match t.phase with
    | .failed e => some e
    | _ => none

namespace State

/-- What the attempt makes of its tasks when one of them has just ended. -/
def settle (s : State) (discard aborted : Bool) : State :=
  match s.currentTasks with
  | [{ gateway := none, ipnsName := _, phase, handled := _, current := _ }] =>
    match phase with
    | .loaded cid record _ =>
      { s with loop := .fetching discard aborted (some (.community record cid)) }
    | .confirmed => { s with loop := .fetching discard aborted (some .nothing) }
    | .failed e => { s with loop := .fetching discard aborted (some (.failed (.single e))) }
    | _ => s
  | gatewayFetches =>
    if gatewayFetches.all fun t => t.handled && t.phase.isFailed then
      let errors := gatewayToError gatewayFetches
      if aborted then
        { s with loop := .fetching discard aborted (some (.failed (.single .abortError))) }
      else
        { s with
          gatewayEtagsOfLoadedRecords :=
            (errors.filterMap LoadError.etagFrom304).foldl (limitedSetAdd 5)
              s.gatewayEtagsOfLoadedRecords
          loop := .fetching discard aborted (some
            (if errors.any LoadError.confirmsCurrentRecord then .nothing
            else .failed (.fromGateways errors))) }
    else
      match selectWinningGatewayCommunity s.currentUpdatedAt gatewayFetches with
      | none => s
      | some (record, cid, ipnsHops) =>
        { s with
          ipnsHops := ipnsHops
          loop := .fetching discard aborted (some (.community record cid)) }

/-- `initCommunityIpfsPropsNoMerge` and the new `updateCid`. -/
def apply (s : State) (record : CommunityIpfs) (cid : Cid) : State :=
  { s with
    communityIpfs := some record
    updateCid := some cid
    publicKey := (record.anchor.orElse fun _ => s.ipnsHops.head?).orElse fun _ =>
      some record.signatureAddress
    applied := cid :: s.applied }

/-- The tasks still running go on without their attempt. -/
def leaveAttempt (s : State) : State :=
  { s with tasks := (s.tasks.filter fun t => !t.phase.ended).map fun t => { t with current := false } }

/-- What `_retryLoadingCommunityAddress` and `updateOnce` do with what an attempt ended with. -/
def finish (s : State) (discard : Bool) (outcome : Outcome) : State :=
  let s := s.leaveAttempt
  match outcome with
  | .failed e =>
    if e.isRetriableErrorWhenLoading then { s with loop := .retrying discard }
    else { s with loop := .idle }
  | .nothing => { s with loop := .idle }
  | .community record cid =>
    if discard then { s with loop := .idle }
    else if s.currentUpdatedAt < record.updatedAt then { s.apply record cid with loop := .idle }
    else { s with loop := .idle }

end State

/-- `updateCid` counts as loaded. -/
def State.addUpdateCid (s : State) : State :=
  match s.updateCid with
  | none => s
  | some cid => s.addCid cid

/-- The transport of an attempt. -/
inductive Transport
  | p2p
  | gateways (urls : List String)

def Transport.tasks (ipnsName : String) : Transport → List Task
  | .p2p => [{ gateway := none, ipnsName := ipnsName }]
  | .gateways urls => urls.map fun url => { gateway := some url, ipnsName := ipnsName }

/-- The update was stopped or the key changed: what the loop is doing is of no use any more. -/
def Loop.abort : Loop → Loop
  | .idle => .idle
  | .retrying _ => .retrying true
  | .fetching _ _ outcome => .fetching true true outcome

/-! ## The steps -/

/-- What happens next; the answers are those of the network and of the verifier. -/
inductive Action
  | updateOnce
  /-- The name of the community does not resolve. -/
  | nameFailed (e : LoadError)
  | fetch (ipnsName : String) (transport : Transport)
  /-- `resolveIpnsToCidP2P` of the community's IPNS name. -/
  | resolved (i : Nat) (answer : Except LoadError (Cid × List String))
  /-- `_fetchCidP2P`. -/
  | fetched (i : Nat) (answer : Except LoadError Unit)
  /-- The status line and the headers of a gateway, with its etag. -/
  | responded (i : Nat) (answer : Except LoadError (Option String))
  /-- The body of a gateway, by its CID. -/
  | body (i : Nat) (answer : Except LoadError Cid)
  /-- `_resolveIpnsChainViaGateway` of the community's IPNS name. -/
  | walked (i : Nat) (answer : Except LoadError (List String × Cid))
  /-- The chain of the claimed anchor. -/
  | proved (i : Nat) (answer : Except LoadError (List String))
  /-- `verifyCommunity`. -/
  | verified (i : Nat) (answer : Except LoadError Bool)
  /-- The attempt looks at a task that ended. -/
  | handled (i : Nat)
  /-- The stop signal ends a race of gateways. -/
  | abortAttempt
  | finish
  | applyKeyMigration (newPublicKey : String)
  | stopUpdatingLoop

/-- One step; an answer for a task that is not waiting for it is not possible. -/
def step (env : Env) (s : State) : Action → Option State
  | .updateOnce =>
    match s.loop with
    | .idle => some { s with loop := .retrying false }
    | _ => none
  | .nameFailed e =>
    match s.loop with
    | .retrying _ =>
      some (if e.isRetriableErrorWhenLoading then s else { s with loop := .idle })
    | _ => none
  | .fetch ipnsName transport =>
    match s.loop with
    | .retrying discard =>
      some { s.addUpdateCid with
        loop := .fetching discard false none
        tasks := s.tasks ++ transport.tasks ipnsName }
    | _ => none
  | .resolved i answer => do
    let t ← s.tasks[i]?
    match t.gateway, t.phase, answer with
    | none, .requesting, .error e => some (s.setPhase i t (.failed e))
    | none, .requesting, .ok (cid, ipnsHops) =>
      let s := { s with ipnsHops := ipnsHops }
      some (s.setPhase i t
        (if cid ∈ s.updateCidsAlreadyLoaded then .confirmed else .fetching cid ipnsHops))
    | _, _, _ => none
  | .fetched i answer => do
    let t ← s.tasks[i]?
    match t.phase, answer with
    | .fetching cid _, .error e =>
      some (if e.isOverDownloadLimit then (s.addCid cid).reject i t cid e
        else s.setPhase i t (.failed e))
    | .fetching cid ipnsHops, .ok () => some (s.receiveIpfs env i t cid ipnsHops)
    | _, _ => none
  | .responded i answer => do
    let t ← s.tasks[i]?
    match t.gateway, t.phase, answer with
    | some _, .requesting, .error e => some (s.setPhase i t (.failed e))
    | some _, .requesting, .ok etag => some (s.checkResponseHeadersIfOldCid env i t etag)
    | _, _, _ => none
  | .body i answer => do
    let t ← s.tasks[i]?
    match t.phase, answer with
    | .receiving _, .error e => some (s.setPhase i t (.failed e))
    | .receiving etag, .ok cid => some (s.receiveFromGateway env i t cid etag)
    | _, _ => none
  | .walked i answer => do
    let t ← s.tasks[i]?
    match t.phase, answer with
    | .walking cid _ _, .error e => some (s.reject i t cid e)
    | .walking cid record etag, .ok (ipnsHops, terminalCid) =>
      some (if terminalCid = cid ∧
          env.areEquivalentCommunityAddresses record.signatureAddress (ipnsHops.getLastD "") then
        s.proveAnchorClaimIfUnwalked env i t cid record ipnsHops etag
      else s.reject i t cid (.code .gatewayIpnsRecordChainInvalid))
    | _, _ => none
  | .proved i answer => do
    let t ← s.tasks[i]?
    match t.phase, answer with
    | .proving cid _ _ _, .error e => some (s.reject i t cid e)
    | .proving cid record ipnsHops etag, .ok provenHops =>
      some (if env.areEquivalentCommunityAddresses (provenHops.getLastD "") (ipnsHops.headD "") then
        s.findErrorInCommunityRecord env i t cid record provenHops etag
      else s.reject i t cid (.code .communityRecordAnchorClaimIsNotEndorsed))
    | _, _ => none
  | .verified i answer => do
    let t ← s.tasks[i]?
    match t.phase, answer with
    | .checking cid _ _ _, .error e => some (s.reject i t cid e)
    | .checking cid _ _ _, .ok false => some (s.reject i t cid (.code .communitySignatureIsInvalid))
    | .checking cid record ipnsHops etag, .ok true =>
      some ((s.addEtag etag).setPhase i t (.loaded cid record ipnsHops))
    | _, _ => none
  | .handled i => do
    let t ← s.tasks[i]?
    if t.current && !t.handled && t.phase.ended then
      match s.loop with
      | .fetching discard aborted none => some ((s.setHandled i t).settle discard aborted)
      | .fetching _ _ (some _) => some (s.setHandled i t) -- the attempt has settled before
      | _ => none
    else none
  | .abortAttempt =>
    match s.loop with
    | .fetching true true none => -- the signal of an attempt fires only with what it discards
      some { s with loop := .fetching true true (some (.failed (.single .abortError))) }
    | _ => none
  | .finish =>
    match s.loop with
    | .fetching discard _ (some outcome) => some (s.finish discard outcome)
    | _ => none
  | .applyKeyMigration newPublicKey =>
    some { s with
      updateCidsAlreadyLoaded := []
      communityIpfs := none
      updateCid := none
      publicKey := some newPublicKey
      ipnsHops := [newPublicKey]
      loop := s.loop.abort }
  | .stopUpdatingLoop =>
    some { s with
      updateCidsAlreadyLoaded := []
      gatewayEtagsOfLoadedRecords := []
      loop := s.loop.abort }

end LoadedCids
end Pkc
