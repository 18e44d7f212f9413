import Pkc.Library.Results
import Pkc.Signer.VerificationCaches

/-!
# Whose record an accepted community record is

A community is addressed by the name of an IPNS key.  The key signs an IPNS record that points to
the file of the community, or to the name of another key, the minter, that signs the community in
its place.

* `resolveIpns` walks such a chain, over IPFS or through a gateway that is not trusted; what a
  request of the walk answers is a record that the key of the name has signed (`Resolver`).
* `fetchCommunityIpnsP2PAndVerify` and `validateGatewayResponse` load a record, and prove the anchor
  it claims (`proveAnchorClaimIfUnwalked`) before they verify it against the chain.
* Over a gateway a record that the requested key has signed itself is accepted without a walk.
* `Identified` says of an accepted record that the key that signed it is where the chain of the
  community's identity ends.  `identified_or_signedByName` proves it of every record that is
  accepted with a walk.
* The verification cache may answer in place of `verifyCommunity`; its keys have the signature and
  the chain, and one signature is of one key (`Env.Named`).
-/

set_option autoImplicit false

namespace Pkc
namespace Signatures

open Memo
open Validation (present areEquivalentNames isEthAliasDomain isStringDomain)

/-! ## Walking a chain -/

/-- `value.split("/")`. -/
def pathSegments (value : String) : List String :=
  (value.toList.splitOn '/').map String.ofList

/-- `value.startsWith("/ipfs/")`. -/
def isIpfsPath (value : String) : Bool := "/ipfs/".toList.isPrefixOf value.toList

def isIpnsPath (value : String) : Bool :=
  match pathSegments value with
  | _ :: ns :: name :: _ => ns = "ipns" && name ≠ ""
  | _ => false

/-- `value.split("/")[2]`. -/
def nameOfPath (value : String) : String := (pathSegments value).getD 2 ""

/-- `BaseClientsManager.MAX_IPNS_HOPS`. -/
def maxIpnsHops : Nat := 1

/-- Over which a record is loaded. -/
inductive Transport
  | p2p
  | gateway
deriving DecidableEq, Repr

/-- The errors of a fetch. -/
inductive FetchRefusal
  | ERR_RESOLVED_IPNS_P2P_TO_UNDEFINED
  | ERR_RESOLVED_IPNS_TO_UNSUPPORTED_VALUE
  | ERR_CID_IS_INVALID
  | ERR_IPNS_MAX_HOPS_EXCEEDED
  | ERR_GATEWAY_IPNS_RECORD_CHAIN_INVALID
  | ERR_COMMUNITY_RECORD_ANCHOR_CLAIM_IS_NOT_ENDORSED
  | ERR_THE_COMMUNITY_IPNS_RECORD_POINTS_TO_DIFFERENT_ADDRESS_THAN_WE_EXPECTED
  | ERR_COMMUNITY_SIGNATURE_IS_INVALID (refusal : Refusal)
  /-- The CID was loaded before: over IPFS that is no error, and there is no record either. -/
  | alreadyLoaded
  /-- There is no body, or it is not the text of a community record. -/
  | noCommunityRecord
deriving DecidableEq, Repr

namespace Transport

/-- There is no value; over a gateway also if its record is not signed by the key of the name. -/
def undefinedValue : Transport → FetchRefusal
  | .p2p => .ERR_RESOLVED_IPNS_P2P_TO_UNDEFINED
  | .gateway => .ERR_GATEWAY_IPNS_RECORD_CHAIN_INVALID

/-- The value is neither a path of a file nor one of a name. -/
def unsupportedValue : Transport → FetchRefusal
  | .p2p => .ERR_RESOLVED_IPNS_TO_UNSUPPORTED_VALUE
  | .gateway => .ERR_GATEWAY_IPNS_RECORD_CHAIN_INVALID

def invalidCid : Transport → FetchRefusal
  | .p2p => .ERR_CID_IS_INVALID
  | .gateway => .ERR_GATEWAY_IPNS_RECORD_CHAIN_INVALID

end Transport

/-- What the requests of one walk answer: for its hop and its name a value, if the record that has
it is signed by the key of the name.  `Signed name value` is that the key signed such a record. -/
structure Resolver (Signed : String → String → Prop) where
  answer : Nat → String → Option String
  signed : ∀ {hop name value}, answer hop name = some value → Signed name value

section Walk

variable {Signed : String → String → Prop} (transport : Transport) (resolver : Resolver Signed)
  (parseCid : String → Option Cid)

/-- The walk from a name, after the names in `ipnsHops`: `resolveIpnsToCidP2P` and
`_resolveIpnsChainViaGateway`.  They try the two kinds of path in another order, but no path is of
both kinds; `parseCid` reads the CID of a path, over a gateway in version 0. -/
def resolveIpns : Nat → List String → String → Except FetchRefusal (List String × Cid)
  | remaining, ipnsHops, currentName =>
    match resolver.answer ipnsHops.length currentName with
    | none => .error transport.undefinedValue
    | some value =>
      if isIpfsPath value then
        match parseCid value with
        | none => .error transport.invalidCid
        | some cid => .ok (ipnsHops ++ [currentName], cid)
      else if isIpnsPath value then
        match remaining with
        | 0 => .error .ERR_IPNS_MAX_HOPS_EXCEEDED
        | remaining + 1 => resolveIpns remaining (ipnsHops ++ [currentName]) (nameOfPath value)
      else .error transport.unsupportedValue

/-- A chain of names: the key of each has signed a record that points to the next one, and the key
of the last one a record that points to a file. -/
inductive IpnsChain (Signed : String → String → Prop) : List String → Prop
  | terminal {name value : String} (hsigned : Signed name value)
    (hvalue : isIpfsPath value = true) : IpnsChain Signed [name]
  | hop {name value : String} {names : List String} (hsigned : Signed name value)
    (hvalue : isIpnsPath value = true) (hnames : IpnsChain Signed (nameOfPath value :: names)) :
    IpnsChain Signed (name :: nameOfPath value :: names)

variable {transport resolver parseCid}

/-- **A walk that ends has walked a chain.** -/
theorem chain_of_resolveIpns {remaining : Nat} {ipnsHops : List String} {currentName : String}
    {hops : List String} {cid : Cid}
    (h : resolveIpns transport resolver parseCid remaining ipnsHops currentName =
      .ok (hops, cid)) :
    ∃ names, hops = ipnsHops ++ currentName :: names ∧ IpnsChain Signed (currentName :: names) := by
  fun_induction resolveIpns with
  | case1 => simp at h
  | case2 => simp at h
  | case3 remaining ipnsHops currentName value hvalue hipfs cid' hcid =>
    rw [Except.ok.injEq, Prod.mk.injEq] at h
    exact ⟨[], h.1.symm, .terminal (resolver.signed hvalue) hipfs⟩
  | case4 => simp at h
  | case5 ipnsHops currentName value hvalue hipfs hipns remaining ih =>
    obtain ⟨names, rfl, hchain⟩ := ih h
    exact ⟨nameOfPath value :: names, by simp, .hop (resolver.signed hvalue) hipns hchain⟩
  | case6 => simp at h

end Walk

/-! ## Loading a record -/

/-- What a fetch reads of its instance. -/
structure Loader where
  address : String
  publicKey : Option String
  validatePages : Bool
  updateCidsAlreadyLoaded : List Cid

/-- What one fetch is answered: the two walks it may make, and bodies.  Over IPFS the body is that
of a CID, a gateway answers the name with one. -/
structure Answers (Signed : String → String → Prop) where
  resolver : Resolver Signed
  /-- Of the walk from the anchor that the record claims. -/
  resolverOfClaimedAnchor : Resolver Signed
  parseCid : String → Option Cid
  fetchCidP2P : Cid → Option String
  resText : Option String
  /-- The community record in a text, as far as the schema is about the shape of its fields. -/
  parseJson : String → Option CommunityIpfs

section Fetch

variable (env : Env)

/-- The name, or the address of an old record if that is a domain. -/
def CommunityIpfs.nameFromWire (community : CommunityIpfs) : Option String :=
  (community.record.stringOf "name").or
    ((community.record.stringOf "address").filter isStringDomain)

/-- `getPKCAddressFromPublicKeySync(signature.publicKey)`. -/
def recordSignatureAddress (community : CommunityIpfs) : String :=
  env.addressOfPublicKey community.signature.publicKey

def deriveAddressFromWireRecord (community : CommunityIpfs) : String :=
  (present community.nameFromWire).getD (recordSignatureAddress env community)

/-- None of the identities that are expected is the record's. -/
def pointsToDifferentAddress (loader : Loader) (community : CommunityIpfs)
    (communityIpnsHops : List String) : Bool :=
  let recordAddress := deriveAddressFromWireRecord env community
  let addressMatchesInstance := areEquivalentNames env.toEnv recordAddress loader.address
  let addressMatchesPublicKey :=
    (present loader.publicKey).any fun publicKey =>
      areEquivalentNames env.toEnv recordAddress publicKey
  let signatureKeyMatchesTerminal :=
    areEquivalentNames env.toEnv (recordSignatureAddress env community)
      (communityIpnsHops.getLastD "")
  !addressMatchesInstance && !addressMatchesPublicKey && !signatureKeyMatchesTerminal

def findErrorInCommunityRecord (loader : Loader) (community : CommunityIpfs)
    (communityIpnsHops : List String) (stores : Stores Cache String) :
    Option FetchRefusal × Stores Cache String :=
  if pointsToDifferentAddress env loader community communityIpnsHops then
    (some .ERR_THE_COMMUNITY_IPNS_RECORD_POINTS_TO_DIFFERENT_ADDRESS_THAN_WE_EXPECTED, stores)
  else
    match verifyCommunity env community communityIpnsHops loader.validatePages none stores with
    | (.error refusal, stores) => (some (.ERR_COMMUNITY_SIGNATURE_IS_INVALID refusal), stores)
    | (.ok (), stores) => (none, stores)

variable {Signed : String → String → Prop}

/-- The schema has an anchor be an IPNS name. -/
def parseCommunityIpfsSchemaPassthrough (answers : Answers Signed) (text : String) :
    Except FetchRefusal CommunityIpfs :=
  match answers.parseJson text with
  | none => .error .noCommunityRecord
  | some community =>
    if community.anchorPublicKey.all fun anchor => (env.peerIdFromString anchor).isSome then
      .ok community
    else .error .noCommunityRecord

/-- The chain to verify a record against.  A chain of one name has walked nothing that could
contradict the anchor a record claims, so that anchor has its own chain walked, which must end at
the name. -/
def proveAnchorClaimIfUnwalked (community : CommunityIpfs) (ipnsHops : List String)
    (resolveChainOfClaimedAnchor : String → Except FetchRefusal (List String)) :
    Except FetchRefusal (List String) :=
  if ipnsHops.length > 1 then .ok ipnsHops
  else
    match present community.anchorPublicKey with
    | none => .ok ipnsHops
    | some claimedAnchor =>
      let loadedName := ipnsHops.headD ""
      if areEquivalentNames env.toEnv claimedAnchor loadedName then .ok ipnsHops
      else
        (resolveChainOfClaimedAnchor claimedAnchor).bind fun provenHops =>
          if areEquivalentNames env.toEnv (provenHops.getLastD "") loadedName then .ok provenHops
          else .error .ERR_COMMUNITY_RECORD_ANCHOR_CLAIM_IS_NOT_ENDORSED

/-- Walks the claimed anchor's chain over the transport that served the record. -/
def hopsOfClaimedAnchor (transport : Transport) (answers : Answers Signed)
    (claimedAnchor : String) : Except FetchRefusal (List String) :=
  (resolveIpns transport answers.resolverOfClaimedAnchor answers.parseCid maxIpnsHops []
    claimedAnchor).map Prod.fst

/-- `_fetchCommunityIpnsP2PAndVerify` up to the verification: the record, and its chain. -/
def loadP2P (loader : Loader) (answers : Answers Signed) (ipnsName : String) :
    Except FetchRefusal (CommunityIpfs × List String) :=
  (resolveIpns .p2p answers.resolver answers.parseCid maxIpnsHops [] ipnsName).bind
    fun (ipnsHops, latestCommunityCid) =>
      if latestCommunityCid ∈ loader.updateCidsAlreadyLoaded then .error .alreadyLoaded
      else
        match answers.fetchCidP2P latestCommunityCid with
        | none => .error .noCommunityRecord
        | some rawCommunityJsonString =>
          (parseCommunityIpfsSchemaPassthrough env answers rawCommunityJsonString).bind
            fun community =>
              (proveAnchorClaimIfUnwalked env community ipnsHops
                (hopsOfClaimedAnchor .p2p answers)).map fun provenHops => (community, provenHops)

/-- The chain of a record a gateway serves for a name.  No walk for a record that the key of the
name has signed; else the chain must end at the record and at the key that signed it. -/
def hopsOfGatewayRecord (answers : Answers Signed) (ipnsName : String) (community : CommunityIpfs)
    (calculatedCommunityCidFromBody : Cid) : Except FetchRefusal (List String) :=
  if areEquivalentNames env.toEnv (recordSignatureAddress env community) ipnsName then
    .ok [ipnsName]
  else
    (resolveIpns .gateway answers.resolver answers.parseCid maxIpnsHops [] ipnsName).bind
      fun (ipnsHops, terminalCidV0) =>
        if terminalCidV0 ≠ calculatedCommunityCidFromBody then
          .error .ERR_GATEWAY_IPNS_RECORD_CHAIN_INVALID
        else if areEquivalentNames env.toEnv (recordSignatureAddress env community)
            (ipnsHops.getLastD "") then .ok ipnsHops
        else .error .ERR_GATEWAY_IPNS_RECORD_CHAIN_INVALID

/-- `throwIfGatewayRespondsWithInvalidCommunity` up to the verification. -/
def loadGateway (loader : Loader) (answers : Answers Signed) (ipnsName : String) :
    Except FetchRefusal (CommunityIpfs × List String) :=
  match answers.resText with
  | none => .error .noCommunityRecord
  | some resText =>
    let calculatedCommunityCidFromBody := env.calculateIpfsHash resText
    if calculatedCommunityCidFromBody ∈ loader.updateCidsAlreadyLoaded then .error .alreadyLoaded
    else
      (parseCommunityIpfsSchemaPassthrough env answers resText).bind fun community =>
        (hopsOfGatewayRecord env answers ipnsName community calculatedCommunityCidFromBody).bind
          fun ipnsHops =>
            (proveAnchorClaimIfUnwalked env community ipnsHops
              (hopsOfClaimedAnchor .gateway answers)).map fun provenHops => (community, provenHops)

def load : Transport → Loader → Answers Signed → String →
    Except FetchRefusal (CommunityIpfs × List String)
  | .p2p => loadP2P env
  | .gateway => loadGateway env

/-- A fetch: the record it accepts with its chain, and what it leaves in the caches. -/
def fetchCommunity (transport : Transport) (loader : Loader) (answers : Answers Signed)
    (ipnsName : String) (stores : Stores Cache String) :
    Except FetchRefusal (CommunityIpfs × List String) × Stores Cache String :=
  match load env transport loader answers ipnsName with
  | .error e => (.error e, stores)
  | .ok (community, provenHops) =>
    match findErrorInCommunityRecord env loader community provenHops stores with
    | (some e, stores) => (.error e, stores)
    | (none, stores) => (.ok (community, provenHops), stores)

end Fetch

/-! ## The verification cache -/

/-- What is assumed of keys, hashes and names: hashes do not collide, a signature is the base64 text
of 64 bytes (86 letters, whether they are padded or not) and verifies for one text and one key only,
and the names that are IPNS keys have no comma and are no domains. -/
structure Env.Named (env : Env) : Prop extends env.Exact where
  signature_letters : ∀ {buffer signature publicKey : String},
    env.verifyBufferEd25519 buffer signature publicKey = true → ∃ letters padding,
      letters.length = 86 ∧ signature.toList = letters ++ List.replicate padding '='
  address : ∀ publicKey, env.peerIdFromString (env.addressOfPublicKey publicKey) =
    env.getPeerIdFromPublicKey publicKey
  no_comma : ∀ {name : String}, (env.peerIdFromString name).isSome = true → ',' ∉ name.toList
  not_domain : ∀ {name : String}, (env.peerIdFromString name).isSome = true →
    isEthAliasDomain env.toEnv name = false
  not_empty : env.peerIdFromString "" = none

section Caches

variable {env : Env}

variable (env) in
/-- The record is signed, by the key at the end of the chain. -/
structure SignedByTerminal (community : CommunityIpfs) (communityIpnsHops : List String) :
    Prop where
  signed : verifyJsonSignature env community.toFields community.signature = true
  terminal : env.peerIdFromString (communityIpnsHops.getLastD "") =
    env.getPeerIdFromPublicKey community.signature.publicKey
  isKey : (env.getPeerIdFromPublicKey community.signature.publicKey).isSome = true

variable (env) in
/-- A key of the cache for communities is one of a record that the end of its chain has signed. -/
def OfSigned (k : Cache × String) : Prop :=
  k.1 = .communityVerificationCache → ∃ community communityIpnsHops validatePages,
    communityKey env community communityIpnsHops validatePages = k ∧
      SignedByTerminal env community communityIpnsHops

/-- What the rules that are tried before the lookup say of a record that passes them. -/
theorem communityRules_of_refusal {community : CommunityIpfs} {communityIpnsHops : List String}
    (h : communityRefusal env community communityIpnsHops = none) :
    verifyJsonSignature env community.toFields community.signature = true ∧
      (1 < communityIpnsHops.length → community.anchorPublicKey = communityIpnsHops.head?) := by
  rw [communityRefusal] at h
  split at h
  · cases h
  · rw [Option.map_eq_none_iff, Validation.Rules.refusal_eq_none] at h
    simp only [Validation.Rules.Passes, communityRules, List.forall_mem_cons] at h
    obtain ⟨-, -, hanchor, hsigned, -⟩ := h
    refine ⟨by simpa using hsigned, fun hlength => ?_⟩
    simpa [hlength] using hanchor

theorem terminal_of_communityPeerIdRefusal {community : CommunityIpfs}
    {communityIpnsHops : List String}
    (h : communityPeerIdRefusal env community communityIpnsHops = none) :
    env.peerIdFromString (communityIpnsHops.getLastD "") =
      env.getPeerIdFromPublicKey community.signature.publicKey ∧
      (env.getPeerIdFromPublicKey community.signature.publicKey).isSome = true := by
  rw [communityPeerIdRefusal] at h
  split at h
  · rename_i communityPeerId signaturePeerId hcommunity hsignature
    split at h
    · cases h
    · rename_i heq
      rw [not_not] at heq
      rw [hcommunity, hsignature, heq]
      exact ⟨rfl, rfl⟩
  · cases h

/-- The key of a verification that applies its own rules is one of a signed record. -/
theorem ofSigned_of_ownRules {v : Verification} (hrefusal : v.refusal env = none)
    (hown : v.OwnRules env) : ∀ k, v.key env = some k → OfSigned env k := by
  rintro k hk hcache
  match v with
  | .commentIpfs comment calculatedCommentCid publicKey name =>
    cases hk
    exact absurd hcache (by simp [commentKey])
  | .commentUpdate update community comment validatePages validateUpdateSignature =>
    cases hk
    exact absurd hcache (by simp [commentUpdateKey])
  | .pageIpfs comments pageCid community parentComment validatePages validateUpdateSignature =>
    obtain ⟨cid, -, rfl⟩ := Option.map_eq_some_iff.1 hk
    exact absurd hcache (by simp)
  | .communityIpfs community communityIpnsHops validatePages =>
    obtain ⟨hterminal, hkey⟩ := terminal_of_communityPeerIdRefusal hown
    exact ⟨community, communityIpnsHops, validatePages, Option.some.inj hk,
      (communityRules_of_refusal hrefusal).1, hterminal, hkey⟩

/-- A verification establishes that its key is one of a signed record, also if its lookup is left
out. -/
theorem establishes_ofSigned (v : Verification) (lookup : Bool) :
    Establishes (OfSigned env) (v.refusal env = none ∧ ∀ k, v.key env = some k → OfSigned env k)
      (andThen (reject (v.refusal env))
        (memo Cache.max lookup (v.key env) (v.inner env))) := by
  have hcheck (w : Verification) :
      Establishes (OfSigned env) (∀ k, w.key env = some k → OfSigned env k) (w.check env) := by
    refine establishes_check (S := fun _ => True) (G := fun v => ∀ k, v.key env = some k →
      OfSigned env k) (fun _ _ _ _ => trivial) (fun v _ hrefusal hown _ =>
        ofSigned_of_ownRules hrefusal hown) ?_ (fun v _ _ k hk hG => hG k hk) w trivial
    intro v _ _ k hk hJ k' hk'
    rwa [← Option.some.inj (hk.symm.trans hk')]
  refine establishes_reject.andThen fun hrefusal => ?_
  refine (establishes_inner fun w _ => hcheck w).memo
    (fun h => ofSigned_of_ownRules hrefusal h.1) ?_
    fun k hk h => ofSigned_of_ownRules hrefusal h.1 k hk
  intro k _ hk hJ k' hk'
  rwa [← Option.some.inj (hk.symm.trans hk')]

theorem establishes_call (call : Call) :
    ∃ G, Establishes (OfSigned env) G (call.check env) := by
  obtain ⟨verification, cacheIfValid⟩ := call
  have hcheck := @establishes_ofSigned env verification true
  rw [← Verification.check_eq] at hcheck
  cases verification with
  | communityIpfs community communityIpnsHops validatePages =>
    exact ⟨_, establishes_ofSigned (.communityIpfs community communityIpnsHops validatePages) _⟩
  | _ => exact ⟨_, hcheck⟩

/-- Whatever was verified before, the caches hold keys of signed records. -/
theorem justified_calls (before : List Call) :
    Justified (OfSigned env) (run (before.map (Call.check env)) Stores.empty) := by
  refine justified_run (fun check hmem => ?_) justified_empty
  obtain ⟨call, -, rfl⟩ := List.mem_map.1 hmem
  exact establishes_call call

/-! ## The keys of the cache -/

theorem takeWhile_append_cons {p : Char → Bool} {c : Char} (hc : p c = false) (l m : List Char) :
    (l ++ c :: m).takeWhile p = l.takeWhile p := by
  induction l with
  | nil => simp [hc]
  | cons a l ih => simp [List.takeWhile_cons, ih]

/-- The last of a list of names that are joined by commas is what stands behind the last comma. -/
theorem takeWhile_reverse_intercalate : ∀ {names : List String}, ',' ∉ (names.getLastD "").toList →
    (String.intercalate "," names).toList.reverse.takeWhile (· ≠ ',') =
      (names.getLastD "").toList.reverse
  | [], _ => rfl
  | [name], h => by
    rw [String.intercalate_singleton]
    have hall : ∀ c ∈ name.toList.reverse, (decide (c ≠ ',')) = true := by
      rintro c hc
      rw [List.mem_reverse] at hc
      simpa using fun heq : c = ',' => h (heq ▸ hc)
    have hnil := @List.takeWhile_append_of_pos _ _ _ [] hall
    simpa using hnil
  | name :: next :: names, h => by
    have hlast : (name :: next :: names).getLastD "" = (next :: names).getLastD "" := by simp
    rw [hlast] at h ⊢
    have ih := takeWhile_reverse_intercalate h
    have hcomma : ",".toList = [','] := rfl
    rw [String.intercalate_cons_cons, ← ih]
    rw [String.toList_append, String.toList_append, hcomma, List.reverse_append,
      List.reverse_append]
    exact takeWhile_append_cons (by simp) _ _

/-- Where the padding ends can be seen from what is behind it. -/
theorem eq_of_replicate_append {c : Char} {n m : Nat} {xs ys : List Char} (hxs : xs.head? ≠ some c)
    (hys : ys.head? ≠ some c) (h : List.replicate n c ++ xs = List.replicate m c ++ ys) :
    n = m ∧ xs = ys := by
  induction n generalizing m with
  | zero =>
    cases m with
    | zero => exact ⟨rfl, h⟩
    | succ m => exact absurd (congrArg List.head? h) hxs
  | succ n ih =>
    cases m with
    | zero => exact absurd (congrArg List.head? h).symm hys
    | succ m => exact (ih (List.cons.inj h).2).imp_left (congrArg Nat.succ)

/-- **A key of the cache belongs to one signature and to chains with one end.** -/
theorem eq_of_communityKey_eq (henv : env.Named) {community community' : CommunityIpfs}
    {hops hops' : List String} {validatePages validatePages' : Bool}
    (hsigned : verifyJsonSignature env community.toFields community.signature = true)
    (hsigned' : verifyJsonSignature env community'.toFields community'.signature = true)
    (h : communityKey env community hops validatePages =
      communityKey env community' hops' validatePages') :
    community.signature.publicKey = community'.signature.publicKey ∧
      (',' ∉ (hops.getLastD "").toList → ',' ∉ (hops'.getLastD "").toList →
        hops.getLastD "" = hops'.getLastD "") := by
  have htext := congrArg String.toList (henv.sha256_injective (Prod.ext_iff.1 h).2)
  simp only [String.toList_append, List.append_assoc] at htext
  obtain ⟨-, hsigned⟩ := (Bool.and_eq_true _ _).mp hsigned
  obtain ⟨-, hsigned'⟩ := (Bool.and_eq_true _ _).mp hsigned'
  obtain ⟨letters, n, hletters, hsignature⟩ := henv.signature_letters hsigned
  obtain ⟨letters', m, hletters', hsignature'⟩ := henv.signature_letters hsigned'
  have hfirst (validatePages : Bool) (rest : List Char) :
      ((toString validatePages).toList ++ rest).head? ≠ some '=' := by
    cases validatePages <;> exact fun h => absurd (Option.some.inj h) (by decide)
  rw [hsignature, hsignature', List.append_assoc, List.append_assoc] at htext
  obtain ⟨rfl, hpadded⟩ := List.append_inj htext (hletters.trans hletters'.symm)
  obtain ⟨rfl, hrest⟩ := eq_of_replicate_append (hfirst _ _) (hfirst _ _) hpadded
  -- `true` and `false` differ in their first letter
  have hhops : (String.intercalate "," hops).toList = (String.intercalate "," hops').toList := by
    cases validatePages <;> cases validatePages'
    · exact List.append_cancel_left hrest
    · exact absurd (List.cons.inj hrest).1 (by decide)
    · exact absurd (List.cons.inj hrest).1 (by decide)
    · exact List.append_cancel_left hrest
  refine ⟨?_, fun hcomma hcomma' => ?_⟩
  · have heq := String.toList_inj.1 (hsignature.trans hsignature'.symm)
    rw [heq] at hsigned
    exact (henv.signature_exact hsigned hsigned').2
  · have hreverse := takeWhile_reverse_intercalate hcomma
    rw [hhops, takeWhile_reverse_intercalate hcomma', List.reverse_inj] at hreverse
    exact (String.toList_inj.1 hreverse).symm

/-- **A verification that passes is of a record that the end of its chain has signed**, whether its
key was found or not. -/
theorem signedByTerminal_of_verifyCommunity (henv : env.Named) {community : CommunityIpfs}
    {communityIpnsHops : List String} {validatePages : Bool} {stores : Stores Cache String}
    (hstores : Justified (OfSigned env) stores)
    (hlast : (env.getPeerIdFromPublicKey community.signature.publicKey).isSome = true →
      (env.peerIdFromString (communityIpnsHops.getLastD "")).isSome = true)
    (hok : (verifyCommunity env community communityIpnsHops validatePages none stores).1 = .ok ()) :
    SignedByTerminal env community communityIpnsHops ∧
      (1 < communityIpnsHops.length → community.anchorPublicKey = communityIpnsHops.head?) := by
  let v : Verification := .communityIpfs community communityIpnsHops validatePages
  obtain ⟨hrefusal, hkey⟩ := (establishes_ofSigned v true stores hstores).2 hok
  obtain ⟨hsigned, hanchor⟩ := communityRules_of_refusal hrefusal
  obtain ⟨community', hops', validatePages', hk, hverified⟩ := hkey _ rfl rfl
  obtain ⟨hpublicKey, heq⟩ := eq_of_communityKey_eq henv hverified.signed hsigned hk
  have hisKey := hverified.isKey
  have hterminal := hverified.terminal
  rw [hpublicKey] at hisKey hterminal
  have hlast' : (env.peerIdFromString (hops'.getLastD "")).isSome = true := hterminal ▸ hisKey
  rw [heq (henv.no_comma hlast') (henv.no_comma (hlast hisKey))] at hterminal
  exact ⟨⟨hsigned, hterminal, hisKey⟩, hanchor⟩

end Caches

/-! ## The chain of a record -/

section Identity

variable {env : Env} {Signed : String → String → Prop}

variable (env Signed) in
/-- The identity of the community is where a chain starts that ends at the key that signed the
record; the chain is that of the name that was asked for, or of the anchor that the record claims.
-/
structure Identified (ipnsName : String) (community : CommunityIpfs)
    (communityIpnsHops : List String) : Prop where
  signedBy : SignedByTerminal env community communityIpnsHops
  chain : IpnsChain Signed communityIpnsHops
  start : communityIpnsHops.head? = some ipnsName ∨
    communityIpnsHops.head? = community.anchorPublicKey
  identity : communityIpnsHops.head? =
    some (communityIdentityIpnsName community communityIpnsHops)

variable (env) in
/-- The key of the name that was asked for has signed the record, which claims no other anchor. -/
structure SignedByName (ipnsName : String) (community : CommunityIpfs)
    (communityIpnsHops : List String) : Prop where
  unwalked : communityIpnsHops = [ipnsName]
  signedBy : SignedByTerminal env community [ipnsName]
  identity : communityIdentityIpnsName community communityIpnsHops = ipnsName

theorem eq_of_areEquivalentNames {a b : String} (h : areEquivalentNames env.toEnv a b = true)
    (hdomain : isEthAliasDomain env.toEnv a = false) : a = b := by
  simpa [areEquivalentNames, hdomain] using h

theorem isKey_of_parse {answers : Answers Signed} {text : String} {community : CommunityIpfs}
    (h : parseCommunityIpfsSchemaPassthrough env answers text = .ok community) :
    ∀ anchor, community.anchorPublicKey = some anchor →
      (env.peerIdFromString anchor).isSome = true := by
  rw [parseCommunityIpfsSchemaPassthrough] at h
  split at h
  · cases h
  · split at h
    · rename_i hanchor
      obtain rfl := Except.ok.inj h
      intro anchor heq
      simpa [heq] using hanchor
    · cases h

/-- The claim is not walked, or its walk is adopted. -/
theorem hops_of_prove {community : CommunityIpfs} {ipnsHops provenHops : List String}
    {resolve : String → Except FetchRefusal (List String)}
    (h : proveAnchorClaimIfUnwalked env community ipnsHops resolve = .ok provenHops) :
    (provenHops = ipnsHops ∧ (ipnsHops.length ≤ 1 → ∀ anchor,
      present community.anchorPublicKey = some anchor →
        areEquivalentNames env.toEnv anchor (ipnsHops.headD "") = true)) ∨
      ∃ anchor, present community.anchorPublicKey = some anchor ∧
        resolve anchor = .ok provenHops := by
  rw [proveAnchorClaimIfUnwalked] at h
  split at h
  · rename_i hlength
    exact .inl ⟨(Except.ok.inj h).symm, fun hle => absurd hle (by omega)⟩
  · split at h
    · rename_i hnone
      exact .inl ⟨(Except.ok.inj h).symm, fun _ anchor hsome => by simp [hnone] at hsome⟩
    · rename_i claimedAnchor hclaimed
      dsimp only at h
      split at h
      · rename_i hequivalent
        refine .inl ⟨(Except.ok.inj h).symm, fun _ anchor hsome => ?_⟩
        rwa [← Option.some.inj (hclaimed.symm.trans hsome)]
      · obtain ⟨hops, hresolve, hrest⟩ := Results.bind_eq_ok.1 h
        split at hrest
        · obtain rfl := Except.ok.inj hrest
          exact .inr ⟨claimedAnchor, hclaimed, hresolve⟩
        · cases hrest

theorem chain_of_hopsOfClaimedAnchor {transport : Transport} {answers : Answers Signed}
    {anchor : String} {hops : List String}
    (h : hopsOfClaimedAnchor transport answers anchor = .ok hops) :
    IpnsChain Signed hops ∧ hops.head? = some anchor := by
  obtain ⟨⟨hops', cid⟩, hresolve, rfl⟩ := Results.map_eq_ok.1 h
  obtain ⟨names, rfl, hchain⟩ := chain_of_resolveIpns hresolve
  exact ⟨hchain, rfl⟩

/-- How a record was loaded: with a walk from the name that was asked for, or over a gateway as one
that the key of the name has signed. -/
theorem hops_of_load {transport : Transport} {loader : Loader} {answers : Answers Signed}
    {ipnsName : String} {community : CommunityIpfs} {hops : List String}
    (h : load env transport loader answers ipnsName = .ok (community, hops)) :
    (∀ anchor, community.anchorPublicKey = some anchor →
      (env.peerIdFromString anchor).isSome = true) ∧
    ∃ ipnsHops, proveAnchorClaimIfUnwalked env community ipnsHops
        (hopsOfClaimedAnchor transport answers) = .ok hops ∧
      ((IpnsChain Signed ipnsHops ∧ ipnsHops.head? = some ipnsName) ∨
        (transport = .gateway ∧ ipnsHops = [ipnsName] ∧ areEquivalentNames env.toEnv
          (recordSignatureAddress env community) ipnsName = true)) := by
  cases transport with
  | p2p =>
    obtain ⟨⟨ipnsHops, cid⟩, hresolve, h⟩ := Results.bind_eq_ok.1 h
    obtain ⟨names, rfl, hchain⟩ := chain_of_resolveIpns hresolve
    dsimp only at h
    split at h
    · cases h
    · split at h
      · cases h
      · obtain ⟨community', hparse, h⟩ := Results.bind_eq_ok.1 h
        obtain ⟨provenHops, hprove, heq⟩ := Results.map_eq_ok.1 h
        obtain ⟨rfl, rfl⟩ := Prod.mk.inj heq
        exact ⟨isKey_of_parse hparse, _, hprove, .inl ⟨hchain, rfl⟩⟩
  | gateway =>
    rw [load, loadGateway] at h
    split at h
    · cases h
    · dsimp only at h
      split at h
      · cases h
      · obtain ⟨community', hparse, h⟩ := Results.bind_eq_ok.1 h
        obtain ⟨ipnsHops, hhops, h⟩ := Results.bind_eq_ok.1 h
        obtain ⟨provenHops, hprove, heq⟩ := Results.map_eq_ok.1 h
        obtain ⟨rfl, rfl⟩ := Prod.mk.inj heq
        refine ⟨isKey_of_parse hparse, ipnsHops, hprove, ?_⟩
        rw [hopsOfGatewayRecord] at hhops
        split at hhops
        · rename_i hequivalent
          exact .inr ⟨rfl, (Except.ok.inj hhops).symm, hequivalent⟩
        · obtain ⟨⟨walked, cid⟩, hresolve, hhops⟩ := Results.bind_eq_ok.1 hhops
          obtain ⟨names, rfl, hchain⟩ := chain_of_resolveIpns hresolve
          dsimp only at hhops
          split at hhops
          · cases hhops
          · split at hhops
            · obtain rfl := Except.ok.inj hhops
              exact .inl ⟨hchain, rfl⟩
            · cases hhops

theorem verifyCommunity_of_fetchCommunity {transport : Transport} {loader : Loader}
    {answers : Answers Signed} {ipnsName : String} {stores : Stores Cache String}
    {community : CommunityIpfs} {hops : List String}
    (h : (fetchCommunity env transport loader answers ipnsName stores).1 = .ok (community, hops)) :
    load env transport loader answers ipnsName = .ok (community, hops) ∧
      (verifyCommunity env community hops loader.validatePages none stores).1 = .ok () := by
  rw [fetchCommunity] at h
  split at h
  · cases h
  · rename_i community' hops' hload
    split at h
    · cases h
    · rename_i stores' hfind
      obtain ⟨rfl, rfl⟩ := Prod.mk.inj (Except.ok.inj h)
      refine ⟨hload, ?_⟩
      rw [findErrorInCommunityRecord] at hfind
      split at hfind
      · cases hfind
      · split at hfind
        · cases hfind
        · rename_i hverify
          rw [hverify]

theorem isKey_getLastD_of_chain
    (hnames : ∀ {name value}, Signed name value → (env.peerIdFromString name).isSome = true)
    {names : List String} (h : IpnsChain Signed names) :
    (env.peerIdFromString (names.getLastD "")).isSome = true := by
  induction h with
  | terminal hsigned _ => exact hnames hsigned
  | hop _ _ _ ih => simpa using ih

/-- The identity of a community whose one hop its claim is compared with. -/
theorem identity_of_single (henv : env.Named) {community : CommunityIpfs} {ipnsName : String}
    (hanchors : ∀ anchor, community.anchorPublicKey = some anchor →
      (env.peerIdFromString anchor).isSome = true)
    (hclaim : ∀ anchor, present community.anchorPublicKey = some anchor →
      areEquivalentNames env.toEnv anchor ipnsName = true) :
    communityIdentityIpnsName community [ipnsName] = ipnsName := by
  rw [communityIdentityIpnsName]
  cases hanchor : community.anchorPublicKey with
  | none => rfl
  | some anchor =>
    have hkey := hanchors anchor hanchor
    have hnotEmpty : anchor ≠ "" := by
      rintro rfl
      simp [henv.not_empty] at hkey
    have hpresent : present community.anchorPublicKey = some anchor := by
      simp [hanchor, present, hnotEmpty]
    exact eq_of_areEquivalentNames (hclaim anchor hpresent) (henv.not_domain hkey)

/-- The identity of a community is the first name of a chain that was walked. -/
theorem identity_of_chain (henv : env.Named) {community : CommunityIpfs} {ipnsHops : List String}
    {ipnsName : String} (hchain : IpnsChain Signed ipnsHops)
    (hhead : ipnsHops.head? = some ipnsName)
    (hanchors : ∀ anchor, community.anchorPublicKey = some anchor →
      (env.peerIdFromString anchor).isSome = true)
    (hlong : 1 < ipnsHops.length → community.anchorPublicKey = ipnsHops.head?)
    (hclaim : ipnsHops.length ≤ 1 → ∀ anchor, present community.anchorPublicKey = some anchor →
      areEquivalentNames env.toEnv anchor (ipnsHops.headD "") = true) :
    communityIdentityIpnsName community ipnsHops = ipnsName := by
  cases hchain with
  | @terminal name value _ _ =>
    obtain rfl := Option.some.inj hhead
    exact identity_of_single henv hanchors (hclaim (by simp))
  | hop _ _ _ =>
    rw [communityIdentityIpnsName, hlong (by simp), hhead]
    rfl

/-- **The identity of an accepted record.**  Whatever was verified before, a record that is accepted
is signed by the key at the end of the chain that starts at the identity of its community; over a
gateway, if the name that was asked for is the key that signed the record, the chain is not walked.
-/
theorem identified_or_signedByName (henv : env.Named)
    (hnames : ∀ {name value}, Signed name value → (env.peerIdFromString name).isSome = true)
    (before : List Call) {transport : Transport} {loader : Loader} {answers : Answers Signed}
    {ipnsName : String} {community : CommunityIpfs} {communityIpnsHops : List String}
    (h : (fetchCommunity env transport loader answers ipnsName
      (run (before.map (Call.check env)) Stores.empty)).1 = .ok (community, communityIpnsHops)) :
    Identified env Signed ipnsName community communityIpnsHops ∨
      (transport = .gateway ∧ SignedByName env ipnsName community communityIpnsHops) := by
  obtain ⟨hload, hverify⟩ := verifyCommunity_of_fetchCommunity h
  obtain ⟨hanchors, ipnsHops, hprove, hroute⟩ := hops_of_load hload
  have hsigned (hlast : (env.getPeerIdFromPublicKey community.signature.publicKey).isSome = true →
      (env.peerIdFromString (communityIpnsHops.getLastD "")).isSome = true) :=
    signedByTerminal_of_verifyCommunity henv (justified_calls before) hlast hverify
  obtain ⟨rfl, hclaim⟩ | ⟨anchor, hanchor, hresolve⟩ := hops_of_prove hprove
  · obtain ⟨hchain, hhead⟩ | ⟨rfl, rfl, hequivalent⟩ := hroute
    · obtain ⟨hsignedBy, hlong⟩ := hsigned fun _ => isKey_getLastD_of_chain hnames hchain
      have hidentity := identity_of_chain henv hchain hhead hanchors hlong hclaim
      exact .inl ⟨hsignedBy, hchain, .inl hhead, by rw [hidentity, hhead]⟩
    · -- the signing key's address is no domain, so it is the name itself
      obtain ⟨hsignedBy, -⟩ := hsigned fun hkey => by
        rw [← henv.address] at hkey
        rwa [← eq_of_areEquivalentNames hequivalent (henv.not_domain hkey)]
      exact .inr ⟨rfl, rfl, hsignedBy, identity_of_single henv hanchors (hclaim le_rfl)⟩
  · obtain ⟨hchain, hhead⟩ := chain_of_hopsOfClaimedAnchor hresolve
    obtain ⟨hclaimed, -⟩ := Option.filter_eq_some_iff.1 hanchor
    obtain ⟨hsignedBy, -⟩ := hsigned fun _ => isKey_getLastD_of_chain hnames hchain
    refine .inl ⟨hsignedBy, hchain, .inr (hhead.trans hclaimed.symm), ?_⟩
    rw [communityIdentityIpnsName, hclaimed, hhead]
    rfl

end Identity

/-! ## A minter's record -/

section Minter

open Json

/-- The members of a record that the minter signs, with the anchor that it claims. -/
def mintedFields (anchor : Option String) : Fields :=
  (anchor.map fun anchor => ("anchor", .obj [("publicKey", .str anchor)])).toList ++
    [("encryption", .obj [("publicKey", .str "minter")])]

def mintedCommunity (anchor : Option String) : CommunityIpfs where
  record :=
    { fields := mintedFields anchor
      signature :=
        { type := "ed25519"
          signature := String.ofList (List.replicate 86 'A')
          publicKey := "minter"
          signedPropertyNames := (mintedFields anchor).map Prod.fst }
      unparsed := by cases anchor <;> rfl }
  posts := none

/-- A key is its own name. -/
def keyOf (name : String) : Option String :=
  if name = "minter" ∨ name = "anchor" then some name else none

/-- The minter has signed its record, and nothing else. -/
def minter (anchor : Option String) : Env where
  toEnv := { Validation.lenient with addressOfPublicKey := id }
  sha256 := id
  calculateIpfsHash := id
  deterministicStringify := StoredComment.text
  stringify := StoredComment.text
  encode := StoredComment.textFields
  verifyBufferEd25519 := fun buffer signature publicKey =>
    buffer = StoredComment.textFields (mintedFields anchor) &&
      signature = String.ofList (List.replicate 86 'A') && publicKey = "minter"
  peerIdFromString := keyOf
  getPeerIdFromPublicKey := keyOf

theorem eq_of_keyOf_isSome {name : String} (h : (keyOf name).isSome = true) :
    name = "minter" ∨ name = "anchor" := by
  by_contra hother
  simp [keyOf, hother] at h

theorem named_minter (anchor : Option String) : (minter anchor).Named where
  sha256_injective := Function.injective_id
  calculateIpfsHash_injective := Function.injective_id
  signature_exact {_ _ _ _ _} h h' := by
    simp only [minter, Bool.and_eq_true, decide_eq_true_eq] at h h'
    exact ⟨h.1.1.trans h'.1.1.symm, h.2.trans h'.2.symm⟩
  signature_letters {_ _ _} h := by
    simp only [minter, Bool.and_eq_true, decide_eq_true_eq] at h
    exact ⟨List.replicate 86 'A', 0, List.length_replicate, by rw [h.1.2]; decide⟩
  address _ := rfl
  no_comma {name} h := by
    obtain rfl | rfl := eq_of_keyOf_isSome h <;> decide
  not_domain {name} h := by
    have hlenient : ∀ name ∈ ["minter", "anchor"],
        isEthAliasDomain (minter none).toEnv name = false := by decide +kernel
    obtain rfl | rfl := eq_of_keyOf_isSome h
    · exact hlenient "minter" (by simp)
    · exact hlenient "anchor" (by simp)
  not_empty := rfl

/-- The anchor's key has signed a record that points to the minter, and the minter one that points
to the file. -/
def Delegated (name value : String) : Prop :=
  (name = "anchor" ∧ value = "/ipns/minter") ∨ (name = "minter" ∧ value = "/ipfs/file")

def delegatedResolver : Resolver Delegated where
  answer _ name :=
    if name = "anchor" then some "/ipns/minter"
    else if name = "minter" then some "/ipfs/file" else none
  signed {hop name value} h := by
    split at h
    · exact .inl ⟨‹_›, (Option.some.inj h).symm⟩
    · split at h
      · exact .inr ⟨‹_›, (Option.some.inj h).symm⟩
      · cases h

/-- Nothing is resolved. -/
def noResolver (Signed : String → String → Prop) : Resolver Signed where
  answer _ _ := none
  signed h := nomatch h

/-- Every text is the record of the minter. -/
def answersWith {Signed : String → String → Prop} (resolver : Resolver Signed)
    (anchor : Option String) : Answers Signed where
  resolver := resolver
  resolverOfClaimedAnchor := resolver
  parseCid value := some (nameOfPath value)
  fetchCidP2P := some
  resText := some "file"
  parseJson _ := some (mintedCommunity anchor)

def loaderOf (address : String) : Loader where
  address := address
  publicKey := none
  validatePages := true
  updateCidsAlreadyLoaded := []

/-- The chains of the records that are accepted. -/
def acceptedHops {Signed : String → String → Prop} (env : Env) (transport : Transport)
    (answers : Answers Signed) (ipnsName : String) : Option (List String) :=
  ((fetchCommunity env transport (loaderOf ipnsName) answers ipnsName
    (run (([] : List Call).map (Call.check env)) Stores.empty)).1.toOption).map Prod.snd

theorem exists_of_acceptedHops {Signed : String → String → Prop} {env : Env}
    {transport : Transport} {answers : Answers Signed} {ipnsName : String} {hops : List String}
    (h : acceptedHops env transport answers ipnsName = some hops) :
    ∃ community, (fetchCommunity env transport (loaderOf ipnsName) answers ipnsName
      (run (([] : List Call).map (Call.check env)) Stores.empty)).1 = .ok (community, hops) := by
  obtain ⟨⟨community, _⟩, haccepted, rfl⟩ := Option.map_eq_some_iff.1 h
  refine ⟨community, ?_⟩
  revert haccepted
  cases (fetchCommunity env transport (loaderOf ipnsName) answers ipnsName
    (run (([] : List Call).map (Call.check env)) Stores.empty)).1 with
  | error e => exact nofun
  | ok accepted => exact fun haccepted => congrArg Except.ok (Option.some.inj haccepted)

/-- The minter addressed directly: the anchor its record claims is proven, and the chain adopted. -/
theorem identified_minter : ∃ community,
    Identified (minter (some "anchor")) Delegated "minter" community ["anchor", "minter"] ∨
      (Transport.p2p = .gateway ∧
        SignedByName (minter (some "anchor")) "minter" community ["anchor", "minter"]) := by
  have haccepted : acceptedHops (minter (some "anchor")) .p2p
      (answersWith delegatedResolver (some "anchor")) "minter" = some ["anchor", "minter"] := by
    decide +kernel
  obtain ⟨community, h⟩ := exists_of_acceptedHops haccepted
  exact ⟨community, identified_or_signedByName (named_minter _)
    (by rintro name value (⟨rfl, -⟩ | ⟨rfl, -⟩) <;> rfl) [] h⟩

/-- **A record is accepted of which no chain was resolved**: no key has signed an IPNS record, and
the gateway serves what the key of the name has signed. -/
theorem accepted_without_chain : ∃ (community : CommunityIpfs) (communityIpnsHops : List String),
    (minter none).Named ∧
      (fetchCommunity (minter none) .gateway (loaderOf "minter")
        (answersWith (noResolver fun _ _ => False) none) "minter"
        (run (([] : List Call).map (Call.check (minter none))) Stores.empty)).1 =
          .ok (community, communityIpnsHops) ∧
      ¬ Identified (minter none) (fun _ _ => False) "minter" community communityIpnsHops := by
  have haccepted : acceptedHops (minter none) .gateway
      (answersWith (noResolver fun _ _ => False) none) "minter" = some ["minter"] := by
    decide +kernel
  obtain ⟨community, h⟩ := exists_of_acceptedHops haccepted
  refine ⟨community, ["minter"], named_minter _, h, fun hidentified => ?_⟩
  cases hidentified.chain with
  | terminal hsigned _ => exact hsigned

end Minter

end Signatures
end Pkc
