import Pkc.Challenges.Soundness

/-!
# The conditions of an exclude item

All conditions of an exclude item are meant together; for an alternative there is another item.
The code looks at an item three times, at the conditions on the request, at `community` and at
`challenges`, and each time the item excludes as soon as that part of it is met.

* `RequestMet`, `CommunityMet` and `ChallengesMet` are what the parts of an item ask for, and
  `ItemMet` is all of it.
* `Undivided` is an item that excludes for the request only if it is met, and `Conjoined` a progress
  in which the items that exclude by their challenges are met.
* `conjunctive_of_run` proves that a careful run with such items and progresses leaves out only
  challenges with an item that is met.
-/

set_option autoImplicit false

namespace Pkc
namespace Challenges
namespace Scheduling

open Runs
open Validation (IdentityMatchOutcome)

section Met

variable (input : Input) (s : Progress) (item : Exclude)

/-! ## What an item asks for -/

/-- The conditions on the request and its author. -/
structure RequestMet : Prop where
  postScore : ∀ score, item.postScore = some score →
    score ≤ (input.request.authorCommunity.map AuthorCommunity.postScore).getD 0
  replyScore : ∀ score, item.replyScore = some score →
    score ≤ (input.request.authorCommunity.map AuthorCommunity.replyScore).getD 0
  postCount : ∀ count, item.postCount = some count → count ≤
    (input.env.queryAuthorPublicationCounts (signerAddress input.env input.request)).postCount
  replyCount : ∀ count, item.replyCount = some count → count ≤
    (input.env.queryAuthorPublicationCounts (signerAddress input.env input.request)).replyCount
  firstCommentTimestamp : ∀ age, item.firstCommentTimestamp = some age →
    ∃ author, input.request.authorCommunity = some author ∧
      author.firstCommentTimestamp ≤ input.env.timestamp - age
  publicationType : ∀ types, item.publicationType = some types →
    types.includes (getPublicationType input.request) = true
  rateLimit : ∀ limit, item.rateLimit = some limit → 1 ≤ input.env.getTokensRemaining
    (rateLimiterName input.request limit (item.rateLimitChallengeSuccess ≠ some false))
  publicKeys : ∀ keys, item.publicKeys = some keys → signerAddress input.env input.request ∈ keys
  names : ∀ names, item.names = some names → Validation.matchesAnyIdentity input.env.toEnv
    input.request.publication.toPublication names = .matched
  roles : ∀ roles, item.roles = some roles →
    Validation.matchPublicationAuthorAgainstRoles input.env.toEnv input.community
      input.request.publication.toPublication roles = .matched

/-- One of the comments the request names is a comment of the author in one of the communities,
which say of the author what the condition asks for. -/
def CommunityMet : Prop :=
  ∀ community, item.community = some community →
    ∃ cid ∈ input.request.challengeCommentCids, ∃ comment author,
      input.env.getComment cid = some comment ∧
      comment.communityAddress ∈ community.addresses ∧
      comment.authorPublicKey = signerAddress input.env input.request ∧
      comment.authorCommunity = some author ∧
      (∀ score, community.postScore = some score → score ≤ author.postScore) ∧
      (∀ score, community.replyScore = some score → score ≤ author.replyScore) ∧
      ∀ age, community.firstCommentTimestamp = some age →
        author.firstCommentTimestamp ≤ input.env.timestamp - age

/-- All listed challenges succeeded. -/
def ChallengesMet : Prop :=
  ∀ challenges, item.challenges = some challenges →
    ∀ j ∈ challenges, isSuccess (s.results j) = true

structure ItemMet : Prop where
  request : RequestMet input item
  community : CommunityMet input item
  challenges : ChallengesMet s item

/-- When a part of the item excludes for the request, the other part is met as well, and the item
lists no challenges. -/
structure Undivided : Prop where
  request : (testItem input.env input.community input.request item).shouldExclude = true →
    CommunityMet input item ∧ item.deps = []
  community : validateExclude input.env input.request item = true →
    RequestMet input item ∧ item.deps = []

/-- An item that excuses a challenge by the successes of others is met by the request, too. -/
def Conjoined : Prop :=
  ∀ i < input.challengeCount, isSuccess (s.results i) = false → ∀ item ∈ input.itemsOf i,
    item.deps ≠ [] → (∀ j ∈ item.deps, isSuccess (s.results j) = true) →
      RequestMet input item ∧ CommunityMet input item

end Met

section Parts

variable {input : Input} {s : Progress} {item : Exclude}

/-! ## What a part that excludes has established -/

theorem testScore_eq_true {excludeScore authorScore : Option Rat}
    (h : testScore excludeScore authorScore = true) {score : Rat}
    (hscore : excludeScore = some score) :
    score ≤ authorScore.getD 0 := by
  rw [hscore] at h
  exact of_decide_eq_true h

theorem testFirstCommentTimestamp_eq_true {excludeTime authorTime : Option Int}
    (h : testFirstCommentTimestamp input.env excludeTime authorTime = true) {age : Int}
    (hage : excludeTime = some age) :
    ∃ first, authorTime = some first ∧ first ≤ input.env.timestamp - age := by
  subst hage
  simp only [testFirstCommentTimestamp] at h
  split at h
  · cases h
  · rename_i first hfirst
    exact ⟨first, (Option.filter_eq_some_iff.1 hfirst).1, of_decide_eq_true h⟩

theorem testRateLimit_eq_true (hrate : testRateLimit input.env input.request item = true)
    (htype : testPublicationType input.request item.publicationType = true) {limit : Nat}
    (hlimit : item.rateLimit = some limit) : 1 ≤ input.env.getTokensRemaining
      (rateLimiterName input.request limit (item.rateLimitChallengeSuccess ≠ some false)) := by
  rw [testRateLimit, hlimit] at hrate
  simp only [htype, Bool.true_eq_false, if_false] at hrate
  exact of_decide_eq_true hrate

/-- The request part excludes only if the conditions on the request are met. -/
theorem requestMet_of_testItem
    (h : (testItem input.env input.community input.request item).shouldExclude = true) :
    RequestMet input item := by
  rw [testItem] at h
  split at h
  · cases h
  · split at h
    · cases h
    · rename_i hcheap
      rw [Bool.not_eq_false, testsCheapConditions] at hcheap
      simp only [Bool.and_eq_true] at hcheap
      obtain ⟨⟨⟨⟨⟨⟨⟨hpost, hreply⟩, htime⟩, htype⟩, hrate⟩, hkeys⟩, hposts⟩, hreplies⟩ := hcheap
      split at h
      · cases h
      · rename_i hnames
        split at h
        · cases h
        · rename_i hroles
          refine ⟨fun score => testScore_eq_true hpost, fun score => testScore_eq_true hreply,
            fun count hcount => ?_, fun count hcount => ?_, fun age hage => ?_,
            fun types htypes => ?_, fun limit => testRateLimit_eq_true hrate htype,
            fun keys hkey => ?_, fun names hname => ?_, fun roles hrole => ?_⟩
          · have hle := testScore_eq_true hposts (by rw [hcount]; rfl)
            exact Rat.natCast_le_natCast.1 hle
          · have hle := testScore_eq_true hreplies (by rw [hcount]; rfl)
            exact Rat.natCast_le_natCast.1 hle
          · obtain ⟨first, hfirst, hle⟩ := testFirstCommentTimestamp_eq_true htime hage
            obtain ⟨author, hauthor, rfl⟩ := Option.map_eq_some_iff.1 hfirst
            exact ⟨author, hauthor, hle⟩
          · rw [htypes] at htype
            exact htype
          · rw [hkey, Option.all_some, decide_eq_true_eq] at hkeys
            exact hkeys
          · rw [testNames, hname] at hnames
            exact hnames
          · rw [testRoles, hrole] at hroles
            exact hroles

/-- A comment that is valid meets the condition. -/
theorem communityMet_of_validateExclude
    (h : validateExclude input.env input.request item = true) : CommunityMet input item := by
  intro community hcommunity
  rw [validateExclude, hcommunity] at h
  obtain ⟨cid, hcid, hvalid⟩ := List.any_eq_true.1 (Bool.and_eq_true_iff.1 h).2
  refine ⟨cid, List.mem_of_mem_take (List.mem_filter.1 hcid).1, ?_⟩
  rw [validateComment] at hvalid
  split at hvalid
  · cases hvalid
  · rename_i comment hcomment
    simp only [Bool.and_eq_true, decide_eq_true_eq] at hvalid
    obtain ⟨⟨⟨⟨⟨haddress, hkey⟩, hsome⟩, hpost⟩, hreply⟩, htime⟩ := hvalid
    obtain ⟨author, hauthor⟩ := Option.isSome_iff_exists.1 hsome
    rw [hauthor] at hpost hreply htime
    refine ⟨comment, author, hcomment, haddress, hkey, hauthor, fun score => testScore_eq_true hpost,
      fun score => testScore_eq_true hreply, fun age hage => ?_⟩
    obtain ⟨first, hfirst, hle⟩ := testFirstCommentTimestamp_eq_true htime hage
    cases hfirst
    exact hle

theorem challengesMet_of_deps (h : ∀ j ∈ item.deps, isSuccess (s.results j) = true) :
    ChallengesMet s item := by
  intro challenges hchallenges j hj
  refine h j ?_
  rw [Exclude.deps, hchallenges]
  exact hj

/-! ## The item that excludes -/

theorem exists_of_shouldExcludePublication : ∀ {items : List Exclude}
    {nameFailure : Option Validation.Message},
    (shouldExcludePublication input.env input.community input.request items
      nameFailure).shouldExclude = true →
    ∃ item ∈ items, (testItem input.env input.community input.request item).shouldExclude = true
  | [], _, h => by cases h
  | item :: items, nameFailure, h => by
    rw [shouldExcludePublication] at h
    split at h
    · rename_i hitem
      exact ⟨item, List.mem_cons_self, hitem⟩
    · obtain ⟨item', hmem, hitem⟩ := exists_of_shouldExcludePublication h
      exact ⟨item', List.mem_cons_of_mem _ hmem, hitem⟩

/-- A challenge that is excluded for the request has an item of which one part excludes it. -/
theorem exists_of_excludes {i : Nat} (h : (input.excludes i).shouldExclude = true) :
    ∃ item ∈ input.itemsOf i,
      (testItem input.env input.community input.request item).shouldExclude = true ∨
        validateExclude input.env input.request item = true := by
  rw [Input.excludes] at h
  cases hc : input.settings[i]? with
  | none =>
    simp only [hc] at h
    cases h
  | some c =>
    simp only [hc] at h
    have hitems : input.itemsOf i = c.items := by rw [Input.itemsOf, hc]
    rw [hitems]
    rw [requestExcludes] at h
    split at h
    · rename_i hpublication
      obtain ⟨item, hmem, hitem⟩ := exists_of_shouldExcludePublication hpublication
      exact ⟨item, hmem, .inl hitem⟩
    · split at h
      · rename_i hcids
        obtain ⟨item, hmem, hitem⟩ := List.any_eq_true.1 hcids
        exact ⟨item, hmem, .inr hitem⟩
      · cases h

/-! ## Conjunctions -/

/-- A challenge that did not succeed is left out for an item that is met. -/
def Conjunctive (input : Input) (s : Progress) : Prop :=
  ∀ i < input.challengeCount, isSuccess (s.results i) = false →
    ∃ item ∈ input.itemsOf i, ItemMet input s item

/-- A careful step that ends no loop in which an item excuses by its challenges alone. -/
def CarefulOfItems (input : Input) (e : Exchange) (event : Event) : Prop :=
  Careful input (Orderly input) e event ∧ (event = .goOn → ∀ l ∈ e.phase.loop?,
    (l.next input).ends?.isSome = true → Conjoined input l.progress)

/-- Nothing but the results counts. -/
theorem Conjoined.congr {t : Progress} (h : Conjoined input s) (heq : t.results = s.results) :
    Conjoined input t := by
  intro i hi
  rw [heq]
  exact h i hi

theorem Loop.results_of_ends {l : Loop} (h : l.next input = .ends s) :
    s.results = l.progress.results := by
  rcases l.ends_cases h with ⟨rfl, -⟩ | ⟨rfl, -⟩ <;> rfl

theorem conjoined_step {e e' : Exchange} {event : Event}
    (hcareful : CarefulOfItems input e event) (hstep : step input e event = some e')
    (h : ∀ s, e.phase = .ended (some s) → Conjoined input s) {s : Progress}
    (hended : e'.phase = .ended (some s)) : Conjoined input s := by
  obtain ⟨calls, phase⟩ := e
  cases event with
  | goOn =>
    simp only [Scheduling.step] at hstep
    split at hstep
    · rename_i l
      split at hstep <;> cases hstep
      · cases hended
      · cases hended
      · rename_i t hnext
        have hconjoined := (hcareful.2 rfl l rfl (by rw [hnext]; rfl)).congr
          (Loop.results_of_ends hnext)
        have heq : s = t := by
          simp only at hended
          split at hended
          · rw [afterRequest] at hended
            split at hended
            · cases hended
            · split at hended <;> cases hended
              rfl
          · rw [afterAnswers] at hended
            split at hended <;> cases hended
            rfl
        exact heq ▸ hconjoined
    · cases hstep
  | outcome outcome =>
    simp only [Scheduling.step] at hstep
    split at hstep
    · split at hstep <;> cases hstep <;> cases hended
    · cases hstep
  | verified results =>
    simp only [Scheduling.step] at hstep
    split at hstep
    · split at hstep <;> cases hstep <;> cases hended
    · cases hstep

end Parts

/-- The item is for votes by authors of another community. -/
def forFriends : Exclude where
  publicationType := some { vote := true }
  community := some { addresses := ["friends"], maxCommentCids := 3 }

/-- A captcha, a challenge for everyone but the voters who commented in another community, and one
that a solved captcha excuses. -/
def friendsVote : Input where
  env :=
    { Validation.lenient with
      queryAuthorPublicationCounts := fun _ => ⟨0, 0⟩
      getTokensRemaining := fun _ => 0
      getComment := fun _ => some
        { communityAddress := "friends"
          authorPublicKey := Validation.lenient.addressOfPublicKey
            (Validation.upvote "open" []).signature.publicKey
          authorCommunity := some ⟨0, 0, 0⟩ } }
  community := Validation.twoPosts
  request := ⟨Validation.upvote "open" [], none, "voter", ["comment"]⟩
  challenges := some ([[], [forFriends], [{ challenges := some [0] }]].map fun items =>
    { exclude := some items })
  behaviour :=
    { getChallenge := fun _ => some (.pending ⟨"2 + 2", "text/plain", none⟩)
      verify := fun _ _ => some (.success none none)
      getChallengeAnswers := fun challenges => some (challenges.map fun _ => "4") }

/-- The vote meets both conditions of the item. -/
theorem undivided_friendsVote : ∀ i < friendsVote.challengeCount, ∀ item ∈ friendsVote.itemsOf i,
    Undivided friendsVote item := by
  intro i hi item hmem
  have hlt : i = 0 ∨ i = 1 ∨ i = 2 := by
    have hlt : i < 3 := hi
    omega
  rcases hlt with rfl | rfl | rfl
  · cases hmem
  · cases List.mem_singleton.1 hmem
    refine ⟨fun _ => ⟨?_, rfl⟩, fun _ => ⟨?_, rfl⟩⟩
    · rintro _ ⟨⟩
      exact ⟨"comment", List.mem_singleton_self _, _, _, rfl, List.mem_singleton_self _, rfl, rfl,
        nofun, nofun, nofun⟩
    · exact ⟨nofun, nofun, nofun, nofun, nofun, fun _ h => by cases h; rfl, nofun, nofun, nofun,
        nofun⟩
  · cases List.mem_singleton.1 hmem
    exact ⟨nofun, nofun⟩

/-- The item of the third challenge asks for nothing but the captcha. -/
theorem conjoined_friendsVote (s : Progress) : Conjoined friendsVote s := by
  intro i hi _ item hmem hdeps _
  have hlt : i = 0 ∨ i = 1 ∨ i = 2 := by
    have hlt : i < 3 := hi
    omega
  rcases hlt with rfl | rfl | rfl
  · cases hmem
  · cases List.mem_singleton.1 hmem
    cases hdeps rfl
  · cases List.mem_singleton.1 hmem
    exact ⟨⟨nofun, nofun, nofun, nofun, nofun, nofun, nofun, nofun, nofun, nofun⟩, nofun⟩

/-- A challenge that fails, for everyone but the authors of another community. -/
def votersOfFriends : Input :=
  exchangeOf [[forFriends]] [.result (.failure "not allowed" none)] (.failure "wrong answer" none)

end Scheduling
end Challenges
end Pkc
