import Pkc.Community.MarkedCids

/-!
# Attempts after a failed one

What the invariant of the loaded CIDs is for: a CID that no record has settled and no task carries
can still be loaded.

* `laterAttempt` is an attempt over IPFS that resolves to the CID; `laterAttempt_applies` follows it
  to the state in which the record is applied.
* `not_refused` says that a gateway's body is refused only because its CID is in the set.
* `markedCids_settled` is the result over every run whose steps all meet the condition `Kept`, and
  `proof_timeout_hides_record` a run that does not.
-/

set_option autoImplicit false

namespace Pkc
namespace LoadedCids

open Runs

/-! ## A later attempt -/

section LaterAttempt

variable {env : Env} {s u u' : State} {ipnsName : String} {phase phase' : Phase} {cid : Cid}
  {record : CommunityIpfs} {ipnsHops provenHops : List String}

/-- An attempt over IPFS that resolves to the CID and gets a good answer to everything it asks. -/
def laterAttempt (env : Env) (s : State) (ipnsName : String) (cid : Cid) (record : CommunityIpfs)
    (ipnsHops provenHops : List String) : List Action :=
  let i := s.tasks.length
  [.updateOnce, .fetch ipnsName .p2p, .resolved i (.ok (cid, ipnsHops)), .fetched i (.ok ())] ++
    (match State.claimToProve env record ipnsHops with
      | none => []
      | some _ => [.proved i (.ok provenHops)]) ++
    [.verified i (.ok true), .handled i, .finish]

/-- What the answers have to be good for: the chain of a claimed anchor ends at the signer, and the
record is that of the community. -/
def Genuine (env : Env) (s : State) (record : CommunityIpfs) (ipnsHops provenHops : List String) :
    Prop :=
  match State.claimToProve env record ipnsHops with
  | none => s.isExpectedCommunity env record ipnsHops = true
  | some _ =>
    env.areEquivalentCommunityAddresses (provenHops.getLastD "") (ipnsHops.headD "") = true ∧
      s.isExpectedCommunity env record provenHops = true

/-- The state of the attempt while its task waits in `phase`. -/
structure AttemptAt (s : State) (ipnsName : String) (phase : Phase) (u : State) : Prop where
  tasks : u.tasks = s.tasks ++ [{ gateway := none, ipnsName := ipnsName, phase := phase }]
  loop : u.loop = .fetching false false none
  address : u.address = s.address
  publicKey : u.publicKey = s.publicKey
  communityIpfs : u.communityIpfs = s.communityIpfs

theorem AttemptAt.task (h : AttemptAt s ipnsName phase u) :
    u.tasks[s.tasks.length]? = some { gateway := none, ipnsName := ipnsName, phase := phase } := by
  rw [h.tasks, List.getElem?_concat_length]

theorem AttemptAt.setPhase (h : AttemptAt s ipnsName phase u) (phase' : Phase) :
    AttemptAt s ipnsName phase' (u.setPhase s.tasks.length
      { gateway := none, ipnsName := ipnsName, phase := phase } phase') := by
  refine ⟨?_, h.loop, h.address, h.publicKey, h.communityIpfs⟩
  rw [State.setPhase, h.tasks, List.set_append_right _ _ le_rfl, Nat.sub_self]
  rfl

/-- Fields an attempt does not look at. -/
theorem AttemptAt.congr (h : AttemptAt s ipnsName phase u) (htasks : u'.tasks = u.tasks)
    (hloop : u'.loop = u.loop) (haddress : u'.address = u.address)
    (hpublicKey : u'.publicKey = u.publicKey) (hcommunity : u'.communityIpfs = u.communityIpfs) :
    AttemptAt s ipnsName phase u' :=
  ⟨htasks.trans h.tasks, hloop.trans h.loop, haddress.trans h.address,
    hpublicKey.trans h.publicKey, hcommunity.trans h.communityIpfs⟩

theorem AttemptAt.check (h : AttemptAt s ipnsName phase u)
    (hexpected : s.isExpectedCommunity env record ipnsHops = true) :
    AttemptAt s ipnsName (.checking cid record ipnsHops none)
      (u.findErrorInCommunityRecord env s.tasks.length
        { gateway := none, ipnsName := ipnsName, phase := phase } cid record ipnsHops none) := by
  have hsame : (u.adoptHops { gateway := none, ipnsName := ipnsName, phase := phase }
      ipnsHops).isExpectedCommunity env record ipnsHops = true := by
    rw [← hexpected, State.isExpectedCommunity, State.isExpectedCommunity, State.adoptHops]
    simp only [h.address, h.publicKey]
  rw [State.findErrorInCommunityRecord, if_pos hsame]
  have hadopt : AttemptAt s ipnsName phase
      (u.adoptHops { gateway := none, ipnsName := ipnsName, phase := phase } ipnsHops) :=
    h.congr rfl rfl rfl rfl rfl
  exact hadopt.setPhase _

variable (env ipnsName) in
theorem attempt_fetch {discard : Bool} (hloop : s.loop = .retrying discard) :
    ∃ u, step env s (.fetch ipnsName .p2p) = some u ∧
      u.updateCidsAlreadyLoaded = s.addUpdateCid.updateCidsAlreadyLoaded ∧
      u.loop = .fetching discard false none ∧
      u.tasks = s.tasks ++ [{ gateway := none, ipnsName := ipnsName }] ∧
      u.address = s.address ∧ u.publicKey = s.publicKey ∧ u.communityIpfs = s.communityIpfs := by
  have hrest : s.addUpdateCid = { s with
      updateCidsAlreadyLoaded := s.addUpdateCid.updateCidsAlreadyLoaded } := by
    rw [State.addUpdateCid]
    split <;> rfl
  rw [step, hloop]
  refine ⟨_, rfl, rfl, rfl, rfl, ?_, ?_, ?_⟩ <;> rw [hrest]

variable (env ipnsHops) in
theorem attempt_resolved (h : AttemptAt s ipnsName .requesting u)
    (hcid : cid ∉ u.updateCidsAlreadyLoaded) :
    ∃ u', step env u (.resolved s.tasks.length (.ok (cid, ipnsHops))) = some u' ∧
      AttemptAt s ipnsName (.fetching cid ipnsHops) u' := by
  have hadopt : AttemptAt s ipnsName .requesting { u with ipnsHops := ipnsHops } :=
    h.congr rfl rfl rfl rfl rfl
  refine ⟨_, ?_, hadopt.setPhase (.fetching cid ipnsHops)⟩
  simp only [step, h.task, Option.bind_eq_bind, Option.bind_some, if_neg hcid]

theorem attempt_fetched (h : AttemptAt s ipnsName (.fetching cid ipnsHops) u)
    (hparse : env.parse cid = .ok record) (hgenuine : Genuine env s record ipnsHops provenHops) :
    ∃ u', step env u (.fetched s.tasks.length (.ok ())) = some u' ∧
      AttemptAt s ipnsName (match State.claimToProve env record ipnsHops with
        | none => .checking cid record ipnsHops none
        | some _ => .proving cid record ipnsHops none) u' := by
  have hadd : AttemptAt s ipnsName (.fetching cid ipnsHops) (u.addCid cid) :=
    h.congr rfl rfl rfl rfl rfl
  refine ⟨_, by simp only [step, h.task, Option.bind_eq_bind, Option.bind_some]; rfl, ?_⟩
  rw [Genuine] at hgenuine
  simp only [State.receiveIpfs, hparse, State.proveAnchorClaimIfUnwalked]
  cases hclaim : State.claimToProve env record ipnsHops with
  | none =>
    rw [hclaim] at hgenuine
    exact hadd.check hgenuine
  | some claimedAnchor => exact hadd.setPhase _

variable (env) in
theorem attempt_proved (h : AttemptAt s ipnsName (.proving cid record ipnsHops none) u)
    (hendorsed : env.areEquivalentCommunityAddresses (provenHops.getLastD "")
      (ipnsHops.headD "") = true)
    (hexpected : s.isExpectedCommunity env record provenHops = true) :
    ∃ u', step env u (.proved s.tasks.length (.ok provenHops)) = some u' ∧
      AttemptAt s ipnsName (.checking cid record provenHops none) u' := by
  refine ⟨_, by simp only [step, h.task, Option.bind_eq_bind, Option.bind_some, if_pos hendorsed],
    h.check hexpected⟩

variable (env) in
theorem attempt_verified (h : AttemptAt s ipnsName (.checking cid record ipnsHops none) u) :
    ∃ u', step env u (.verified s.tasks.length (.ok true)) = some u' ∧
      AttemptAt s ipnsName (.loaded cid record ipnsHops) u' := by
  have hetag : AttemptAt s ipnsName (.checking cid record ipnsHops none) (u.addEtag none) :=
    h.congr rfl rfl rfl rfl rfl
  refine ⟨_, ?_, hetag.setPhase (.loaded cid record ipnsHops)⟩
  simp only [step, h.task, Option.bind_eq_bind, Option.bind_some]

variable (env) in
theorem attempt_handled (h : AttemptAt s ipnsName (.loaded cid record ipnsHops) u)
    (hcurrent : ∀ t ∈ s.tasks, t.current = false) :
    ∃ u', step env u (.handled s.tasks.length) = some u' ∧
      u'.loop = .fetching false false (some (.community record cid)) ∧
      u'.communityIpfs = s.communityIpfs := by
  have hold : (s.tasks.filter fun t => t.current) = [] := by
    refine List.filter_eq_nil_iff.2 fun t ht => ?_
    rw [hcurrent t ht]
    nofun
  have htasks : (u.setHandled s.tasks.length (Task.mk none ipnsName
      (.loaded cid record ipnsHops) false true)).currentTasks =
      [Task.mk none ipnsName (.loaded cid record ipnsHops) true true] := by
    rw [State.currentTasks, State.setHandled, h.tasks, List.set_append_right _ _ le_rfl,
      Nat.sub_self, List.filter_append, hold]
    rfl
  refine ⟨{ u.setHandled s.tasks.length (Task.mk none ipnsName
    (.loaded cid record ipnsHops) false true) with
      loop := .fetching false false (some (.community record cid)) }, ?_, rfl, h.communityIpfs⟩
  simp only [step, h.task, Option.bind_eq_bind, Option.bind_some, h.loop, State.settle, htasks]
  rfl

variable (env) in
theorem attempt_finish
    (hloop : u.loop = .fetching false false (some (.community record cid)))
    (hnewer : u.currentUpdatedAt < record.updatedAt) :
    ∃ u', step env u .finish = some u' ∧ u'.communityIpfs = some record ∧
      u'.updateCid = some cid := by
  have hleave : u.leaveAttempt.currentUpdatedAt < record.updatedAt := hnewer
  refine ⟨_, by rw [step, hloop], ?_⟩
  rw [State.finish, if_neg Bool.false_ne_true, if_pos hleave]
  exact ⟨rfl, rfl⟩

/-- **A later attempt.**  If nothing is being fetched and the CID is not in the set, an attempt that
resolves to it applies its record. -/
theorem laterAttempt_applies (hidle : s.loop = .idle)
    (hcurrent : ∀ t ∈ s.tasks, t.current = false)
    (hcid : cid ∉ s.addUpdateCid.updateCidsAlreadyLoaded)
    (hparse : env.parse cid = .ok record) (hnewer : s.currentUpdatedAt < record.updatedAt)
    (hgenuine : Genuine env s record ipnsHops provenHops) :
    ∃ u, Run (step env) anyStep s (laterAttempt env s ipnsName cid record ipnsHops provenHops) u ∧
      u.communityIpfs = some record ∧ u.updateCid = some cid := by
  obtain ⟨u₁, hfetch, hcids, hloop, htasks, haddress, hpublicKey, hcommunity⟩ :=
    attempt_fetch env ipnsName (s := { s with loop := .retrying false }) rfl
  have hrequesting : AttemptAt s ipnsName .requesting u₁ :=
    ⟨htasks, hloop, haddress, hpublicKey, hcommunity⟩
  have haddUpdateCid : State.addUpdateCid { s with loop := .retrying false } =
      { s.addUpdateCid with loop := .retrying false } := by
    simp only [State.addUpdateCid]
    split <;> rfl
  obtain ⟨u₂, hresolved, hfetching⟩ := attempt_resolved env ipnsHops
    hrequesting (by rwa [hcids, haddUpdateCid])
  obtain ⟨u₃, hfetched, hwaiting⟩ := attempt_fetched hfetching hparse hgenuine
  have hrest : ∀ {hops u}, AttemptAt s ipnsName (.checking cid record hops none) u →
      ∃ u', Run (step env) anyStep u
          [.verified s.tasks.length (.ok true), .handled s.tasks.length, .finish] u' ∧
        u'.communityIpfs = some record ∧ u'.updateCid = some cid := by
    intro hops u hchecking
    obtain ⟨u₄, hverified, hloaded⟩ := attempt_verified env hchecking
    obtain ⟨u₅, hhandled, hloop, hcommunity⟩ := attempt_handled env hloaded hcurrent
    have hnewer' : u₅.currentUpdatedAt < record.updatedAt := by
      rwa [State.currentUpdatedAt, hcommunity]
    obtain ⟨u₆, hfinish, happlied⟩ := attempt_finish env hloop hnewer'
    exact ⟨u₆, .cons trivial hverified (.cons trivial hhandled (.cons trivial hfinish (.nil _))),
      happlied⟩
  have hstart : step env s .updateOnce = some { s with loop := .retrying false } := by
    rw [step, hidle]
  rw [laterAttempt]
  rw [Genuine] at hgenuine
  cases hclaim : State.claimToProve env record ipnsHops with
  | none =>
    rw [hclaim] at hwaiting
    obtain ⟨u, hrun, happlied⟩ := hrest hwaiting
    exact ⟨u, .cons trivial hstart (.cons trivial hfetch (.cons trivial hresolved
      (.cons trivial hfetched hrun))), happlied⟩
  | some claimedAnchor =>
    rw [hclaim] at hwaiting hgenuine
    obtain ⟨u₄, hproved, hchecking⟩ := attempt_proved env hwaiting hgenuine.1 hgenuine.2
    obtain ⟨u, hrun, happlied⟩ := hrest hchecking
    exact ⟨u, .cons trivial hstart (.cons trivial hfetch (.cons trivial hresolved
      (.cons trivial hfetched (.cons trivial hproved hrun)))), happlied⟩

end LaterAttempt

/-! ## The copy of a gateway -/

/-- The gateway's body is refused as that of a record loaded before. -/
def refused : Phase :=
  .failed (.code .gatewayAbortingLoadingCommunityBecauseWeAlreadyLoadedThisRecord)

section Refused

variable {env : Env} {s s' : State} {i : Nat} {t t' : Task} {cid : Cid}

theorem phase_setPhase {phase : Phase} (h : (s.setPhase i t phase).tasks[i]? = some t') :
    t'.phase = phase := by
  have hi := (List.getElem?_eq_some_iff.1 h).1
  rw [State.setPhase, List.length_set] at hi
  rw [State.setPhase, List.getElem?_set_self hi] at h
  cases h
  rfl

theorem not_refused_proveAnchorClaimIfUnwalked {record : CommunityIpfs} {ipnsHops : List String}
    {etag : Option String} (h : (s.proveAnchorClaimIfUnwalked env i t cid record ipnsHops
      etag).tasks[i]? = some t') : t'.phase ≠ refused := by
  rw [State.proveAnchorClaimIfUnwalked] at h
  split at h
  · rw [State.findErrorInCommunityRecord] at h
    split at h
    · rw [phase_setPhase h]
      intro hrefused
      cases hrefused
    · rw [phase_setPhase (s := s.adoptHops t ipnsHops) h]
      intro hrefused
      cases hrefused
  · rw [phase_setPhase h]
    intro hrefused
    cases hrefused

/-- A body is refused only if its CID is in the set. -/
theorem not_refused (hcid : cid ∉ s.updateCidsAlreadyLoaded)
    (hstep : step env s (.body i (.ok cid)) = some s') (ht' : s'.tasks[i]? = some t') :
    t'.phase ≠ refused := by
  replace hstep := Option.bind_eq_some_iff.1 hstep
  obtain ⟨t, -, hstep⟩ := hstep
  split at hstep
  · rename_i hanswer
    cases hanswer
  · rename_i etag cid' hphase hanswer
    cases hanswer
    cases hstep
    rw [State.receiveFromGateway, if_neg hcid] at ht'
    cases hparse : env.parse cid with
    | error e =>
      simp only [hparse] at ht'
      rw [phase_setPhase (s := s.addCid cid) ht']
      intro hrefused
      cases e with
      | _ => cases hrefused
    | ok record =>
      simp only [hparse, State.determineTerminalIpnsName] at ht'
      split at ht'
      · exact not_refused_proveAnchorClaimIfUnwalked ht'
      · rw [phase_setPhase ht']
        intro hrefused
        cases hrefused
  · cases hstep

end Refused

/-! ## The result -/

section Result

variable {env : Env} {address : String} {publicKey : Option String}
  {loaded : Option (Cid × CommunityIpfs)} {as : List Action} {s : State} {cid : Cid}

theorem inv_initial : Inv env (initial address publicKey loaded) where
  marked _ hcid := absurd hcid List.not_mem_nil
  parsed _ ht := absurd ht List.not_mem_nil
  latest _ ht := absurd ht List.not_mem_nil
  updateCid cid hcid := by
    rw [initial] at hcid ⊢
    exact Option.mem_toList.2 hcid
  idle _ _ ht := absurd ht List.not_mem_nil

theorem Inv.not_marked (h : Inv env s) (hsettled : ¬ Settled env s cid)
    (hprocessing : ¬ Processing s cid) : cid ∉ s.updateCidsAlreadyLoaded := fun hcid =>
  (h.marked cid hcid).elim hsettled hprocessing

/-- **What the set of loaded CIDs says.**  In every state of a run whose steps all meet the
condition, a CID in the set is settled or a task still carries it.  So a CID that is neither is not
refused from a gateway, and an attempt that resolves to it applies its record. -/
theorem markedCids_settled
    (hrun : Run (step env) (Kept env) (initial address publicKey loaded) as s) :
    (∀ cid ∈ s.updateCidsAlreadyLoaded, Settled env s cid ∨ Processing s cid) ∧
      ∀ cid, ¬ Settled env s cid → ¬ Processing s cid →
        (∀ i t s', step env s (.body i (.ok cid)) = some s' → s'.tasks[i]? = some t →
          t.phase ≠ refused) ∧
        ∀ ipnsName record ipnsHops provenHops, s.loop = .idle → env.parse cid = .ok record →
          Genuine env s record ipnsHops provenHops →
            ∃ u, Run (step env) anyStep s
                (laterAttempt env s ipnsName cid record ipnsHops provenHops) u ∧
              u.communityIpfs = some record ∧ u.updateCid = some cid := by
  have h : Inv env s := hrun.invariant (fun _ _ _ h hkept hstep => inv_step h hkept hstep)
    inv_initial
  refine ⟨h.marked, fun cid hsettled hprocessing => ?_⟩
  have hcid := h.not_marked hsettled hprocessing
  refine ⟨fun i t s' hstep ht => not_refused hcid hstep ht, ?_⟩
  intro ipnsName record ipnsHops provenHops hloop hparse hgenuine
  have hcurrent : ∀ t ∈ s.tasks, t.current = false := by
    refine h.idle fun discard aborted outcome heq => ?_
    rw [hloop] at heq
    cases heq
  have hupdateCid : cid ∉ s.addUpdateCid.updateCidsAlreadyLoaded := by
    rw [State.addUpdateCid]
    split
    · exact hcid
    · rename_i updateCid hupdate
      intro hmem
      rcases mem_limitedSetAdd hmem with hmem | rfl
      · exact hcid hmem
      · exact hsettled (Or.inl (h.updateCid _ hupdate))
  have hnewer : s.currentUpdatedAt < record.updatedAt := by
    rw [State.currentUpdatedAt]
    cases hcurrent : s.communityIpfs with
    | none => exact record.updatedAt_pos
    | some current =>
      refine Nat.lt_of_not_le fun hle => hsettled (Or.inr (Or.inl (notNewer_iff.2 ?_)))
      exact ⟨record, current, hparse, hcurrent, hle⟩
  exact laterAttempt_applies hloop hcurrent hupdateCid hparse hnewer hgenuine

theorem updatedAt_minted : 0 < 100 := by decide

/-- The record a minter publishes for an anchor. -/
def mintedRecord : CommunityIpfs where
  updatedAt := 100
  updatedAt_pos := updatedAt_minted
  signatureAddress := "12D3KooMinter"
  anchor := some "12D3KooAnchor"
  name := none

/-- Every CID names that record. -/
def minted : Env where
  parse _ := .ok mintedRecord
  cidOfEtag _ := none
  areEquivalentCommunityAddresses a b := a = b

/-- A community that is addressed by its minter's key. -/
def unloaded : State := initial "12D3KooMinter" (some "12D3KooMinter") none

/-- An attempt over IPFS up to the answer about the claimed anchor. -/
def fetchBody : List Action :=
  [.fetch "12D3KooMinter" .p2p, .resolved 0 (.ok ("QmRecord", ["12D3KooMinter"])),
    .fetched 0 (.ok ())]

/-- The claim is proven and the record applied. -/
def provenClaim : List Action :=
  [.proved 0 (.ok ["12D3KooAnchor", "12D3KooMinter"]), .verified 0 (.ok true), .handled 0, .finish]

/-- The chain of the claimed anchor is not resolved in time; the next attempt follows. -/
def timedOutClaim : List Action :=
  [.proved 0 (.error (.code (.other "ERR_IPNS_RESOLUTION_P2P_TIMEOUT"))), .handled 0, .finish,
    .fetch "12D3KooMinter" .p2p, .resolved 0 (.ok ("QmRecord", ["12D3KooMinter"])), .handled 0,
    .finish]

theorem markedCids_settled_provenClaim :
    ∃ s, Run (step minted) (Kept minted) unloaded (.updateOnce :: (fetchBody ++ provenClaim)) s ∧
      ∀ cid ∈ s.updateCidsAlreadyLoaded, Settled minted s cid ∨ Processing s cid := by
  obtain ⟨s, hs⟩ : ∃ s, execOk (step minted) (Kept minted) unloaded
      (.updateOnce :: (fetchBody ++ provenClaim)) = some s :=
    Option.isSome_iff_exists.1 (by decide +kernel)
  exact ⟨s, Run.of_execOk hs, (markedCids_settled (Run.of_execOk hs)).1⟩

/-- **A record can be hidden by a timeout**: the chain of the claimed anchor is not resolved in
time, and the next attempt takes the record for one it has loaded. -/
theorem proof_timeout_hides_record : ¬ ∀ (env : Env) (address : String) (publicKey : Option String)
    (loaded : Option (Cid × CommunityIpfs)) (as : List Action) (s : State),
    Run (step env) anyStep (initial address publicKey loaded) as s →
      ∀ cid ∈ s.updateCidsAlreadyLoaded, Settled env s cid ∨ Processing s cid := by
  intro h
  have hfinal : ∃ s, exec (step minted) unloaded (.updateOnce :: (fetchBody ++ timedOutClaim)) =
      some s ∧ s.loop = .idle ∧ s.communityIpfs = none ∧ "QmRecord" ∈ s.updateCidsAlreadyLoaded ∧
      ¬ (Settled minted s "QmRecord" ∨ Processing s "QmRecord") := by
    refine ⟨_, rfl, ?_⟩
    decide +kernel
  obtain ⟨s, hs, -, -, hcid, hlost⟩ := hfinal
  exact hlost (h minted _ _ _ _ s (Run.of_exec hs) _ hcid)

end Result

end LoadedCids
end Pkc
