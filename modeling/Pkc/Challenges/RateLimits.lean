import Mathlib.Algebra.Order.Ring.Unbundled.Rat
import Mathlib.Data.List.Dedup
import Pkc.Challenges.Resolve
import Pkc.Library.Runs
import Pkc.Library.Unwinding

/-!
# Rate limits

An exclude item may set `rateLimit`: it excuses the publications of an author as long as a limiter
has a token left.  The limiters of a node are kept in one map, under the address of the author, the
limit, the type of the publication and the outcome that is counted.  A limiter is read when the
exchange begins (`test`) and a token is taken when it has ended (`verdict`), and in between the
exchanges of the node go on in any order.

* `step` is one such moment; `testItem` and `getRateLimitersToAddTo` are those of the exchange.
* `Bounded` says that an item excuses no more publications of an author in an interval of its
  limiter than its limit, `Isolated` that what it excuses depends on the exchanges of the same
  community, author and type only.
* `rateLimits_hold`: both are true of every run in which an author has one address, no limiter is
  dropped, no two communities share one, and there is a token left for each publication that was
  excused and has succeeded.
* `rateLimits_fail`: without that, neither is.

The limiters come from a package.  It is a parameter, with what its documentation says about the
tokens it gives in one interval.  The author of a publication is the one who has signed it.
-/

set_option autoImplicit false

namespace Pkc
namespace RateLimits

open Challenges Runs

/-! ## The package -/

/-- A package of limiters.  The last three are what a limiter has in its fields. -/
structure RateLimiterPackage (σ : Type) where
  create (tokensPerInterval now : Nat) : σ
  getTokensRemaining (limiter : σ) (now : Nat) : Rat × σ
  tryRemoveTokens (limiter : σ) (now : Nat) : Bool × σ
  tokensPerInterval : σ → Nat
  curIntervalStart : σ → Nat
  tokensThisInterval : σ → Nat

/-- What the package promises: it counts the tokens it gives in an interval, begins a new interval
with the first removal after the old one is over, and gives no more than `tokensPerInterval`. -/
structure Documented {σ : Type} (package : RateLimiterPackage σ) : Prop where
  create : ∀ tokensPerInterval now,
    package.tokensPerInterval (package.create tokensPerInterval now) = tokensPerInterval ∧
      package.curIntervalStart (package.create tokensPerInterval now) = now ∧
      package.tokensThisInterval (package.create tokensPerInterval now) = 0
  getTokensRemaining : ∀ limiter now,
    package.tokensPerInterval (package.getTokensRemaining limiter now).2 =
        package.tokensPerInterval limiter ∧
      package.curIntervalStart (package.getTokensRemaining limiter now).2 =
        package.curIntervalStart limiter ∧
      package.tokensThisInterval (package.getTokensRemaining limiter now).2 =
        package.tokensThisInterval limiter
  tryRemoveTokens : ∀ limiter now, package.curIntervalStart limiter ≤ now →
    ∃ removed limiter', package.tryRemoveTokens limiter now = (removed, limiter') ∧
      package.tokensPerInterval limiter' = package.tokensPerInterval limiter ∧
      (package.curIntervalStart limiter' = package.curIntervalStart limiter ∧
          package.tokensThisInterval limiter' =
            package.tokensThisInterval limiter + removed.toNat ∨
        package.curIntervalStart limiter < package.curIntervalStart limiter' ∧
          package.curIntervalStart limiter' = now ∧
          package.tokensThisInterval limiter' = removed.toNat) ∧
      (removed = true →
        package.tokensThisInterval limiter' ≤ package.tokensPerInterval limiter')

/-! ## The node -/

/-- The exchanges a node handles, and the challenges of its communities. -/
structure Node (X : Type) where
  community : X → String
  request : X → ChallengeRequest
  settings : String → List CommunityChallenge

/-- A publication that an item excused and that has succeeded: the item, its limiter, and the
interval the verdict fell into. -/
structure Charge where
  community : String
  author : String
  challengeIndex : Nat
  itemIndex : Nat
  name : RateLimiterName
  intervalStart : Nat
deriving DecidableEq

structure State (X σ : Type) where
  rateLimiters : RateLimiterName → Option σ := fun _ => none
  now : Nat := 0
  /-- The items that excused an exchange that has no verdict yet. -/
  excused : List (X × Nat × Nat) := []
  verdicts : List X := []
  /-- Whether an item excused a publication, in the order the items were tested. -/
  outcomes : List (X × Nat × Nat × Bool) := []
  charges : List Charge := []

/-- What happens on the node.  The conditions of an item other than its limit are tested against
what the node knows at that time. -/
inductive Event (X : Type)
  | test (x : X) (challengeIndex itemIndex : Nat) (env : Env) (community : Validation.Community)
      (now : Nat)
  | verdict (x : X) (challengeSuccess : Bool) (now : Nat)
  /-- The cache of limiters drops one. -/
  | evict (name : RateLimiterName)

section Step

variable {X σ : Type} [DecidableEq X] (package : RateLimiterPackage σ) (node : Node X)

/-- The key that has signed the publication. -/
def Node.author (x : X) : String := (node.request x).publication.signature.publicKey

def Node.item (x : X) (challengeIndex itemIndex : Nat) : Option Exclude :=
  ((node.settings (node.community x))[challengeIndex]?).bind fun c => c.items[itemIndex]?

/-- The limits of a community's items. -/
def Node.rateLimits (community : String) : List Nat :=
  ((node.settings community).flatMap CommunityChallenge.items).filterMap Exclude.rateLimit

def Node.getRateLimitersToAddTo (x : X) (challengeSuccess : Bool) : List RateLimiterName :=
  ((node.rateLimits (node.community x)).map fun limit =>
    rateLimiterName (node.request x) limit challengeSuccess).dedup

/-- The limiter an item reads for a request. -/
def limiterToTest (request : ChallengeRequest) (item : Exclude) : Option RateLimiterName :=
  if testPublicationType request item.publicationType then
    item.rateLimit.map fun limit =>
      rateLimiterName request limit (item.rateLimitChallengeSuccess ≠ some false)
  else none

def State.getOrCreateRateLimiter (s : State X σ) (name : RateLimiterName) (now : Nat) : σ :=
  (s.rateLimiters name).getD (package.create name.rateLimit now)

/-- Reading a limiter creates it, and brings its tokens up to date. -/
def State.readRateLimiter (s : State X σ) (name : Option RateLimiterName) (now : Nat) :
    RateLimiterName → Option σ :=
  match name with
  | none => s.rateLimiters
  | some name => Function.update s.rateLimiters name
      (some (package.getTokensRemaining (s.getOrCreateRateLimiter package name now) now).2)

/-- `shouldExcludePublication` at one item. -/
def State.shouldExclude (s : State X σ) (x : X) (item : Exclude) (env : Env)
    (community : Validation.Community) (now : Nat) : Bool :=
  (testItem
    { env with getTokensRemaining := fun name =>
        (package.getTokensRemaining (s.getOrCreateRateLimiter package name now) now).1 }
    community (node.request x) item).shouldExclude

def State.removeTokens (s : State X σ) (names : List RateLimiterName) (now : Nat) :
    RateLimiterName → Option σ := fun name =>
  if name ∈ names then
    some (package.tryRemoveTokens (s.getOrCreateRateLimiter package name now) now).2
  else s.rateLimiters name

/-- The item with its limiter, if it counts the publications that succeed. -/
def Node.limiterOfRule (x : X) (challengeIndex itemIndex : Nat) : Option RateLimiterName :=
  ((node.item x challengeIndex itemIndex).filter fun item =>
    item.rateLimitChallengeSuccess ≠ some false).bind (limiterToTest (node.request x))

/-- What the items that excused a publication have excused it for. -/
def State.chargesOf (s : State X σ) (x : X) (now : Nat) : List Charge :=
  ((s.excused.filter fun e => e.1 = x).map Prod.snd).filterMap fun rule =>
    (node.limiterOfRule x rule.1 rule.2).map fun name =>
      { community := node.community x
        author := node.author x
        challengeIndex := rule.1
        itemIndex := rule.2
        name := name
        intervalStart := package.curIntervalStart
          (package.tryRemoveTokens (s.getOrCreateRateLimiter package name now) now).2 }

/-- No test and no second verdict comes after the verdict of an exchange. -/
def step (s : State X σ) : Event X → Option (State X σ)
  | .test x challengeIndex itemIndex env community now =>
    if x ∈ s.verdicts ∨ now < s.now then none
    else
      (node.item x challengeIndex itemIndex).map fun item =>
        let excludes := s.shouldExclude package node x item env community now
        { s with
          rateLimiters := s.readRateLimiter package (limiterToTest (node.request x) item) now
          now := now
          excused :=
            if excludes then s.excused.insert (x, challengeIndex, itemIndex) else s.excused
          outcomes := s.outcomes ++ [(x, challengeIndex, itemIndex, excludes)] }
  | .verdict x challengeSuccess now =>
    if x ∈ s.verdicts ∨ now < s.now then none
    else
      some { s with
        rateLimiters :=
          s.removeTokens package (node.getRateLimitersToAddTo x challengeSuccess) now
        now := now
        excused := s.excused.filter fun e => e.1 ≠ x
        verdicts := x :: s.verdicts
        charges := if challengeSuccess then s.chargesOf package node x now ++ s.charges
          else s.charges }
  | .evict name => some { s with rateLimiters := Function.update s.rateLimiters name none }

end Step

/-! ## The bound -/

section Bound

variable {X σ : Type} [DecidableEq X] {package : RateLimiterPackage σ} {node : Node X}
  {s t : State X σ} {x : X} {name : RateLimiterName} {charge : Charge} {now : Nat}

/-- An item excused two publications of one author and one type, in one interval. -/
structure Charge.Alike (charge charge' : Charge) : Prop where
  community : charge'.community = charge.community
  challengeIndex : charge'.challengeIndex = charge.challengeIndex
  itemIndex : charge'.itemIndex = charge.itemIndex
  author : charge'.author = charge.author
  publicationType : charge'.name.publicationType = charge.name.publicationType
  intervalStart : charge'.intervalStart = charge.intervalStart

instance (charge charge' : Charge) : Decidable (charge.Alike charge') :=
  decidable_of_iff (charge'.community = charge.community ∧
    charge'.challengeIndex = charge.challengeIndex ∧ charge'.itemIndex = charge.itemIndex ∧
    charge'.author = charge.author ∧
    charge'.name.publicationType = charge.name.publicationType ∧
    charge'.intervalStart = charge.intervalStart)
    ⟨fun ⟨h₁, h₂, h₃, h₄, h₅, h₆⟩ => ⟨h₁, h₂, h₃, h₄, h₅, h₆⟩,
      fun ⟨h₁, h₂, h₃, h₄, h₅, h₆⟩ => ⟨h₁, h₂, h₃, h₄, h₅, h₆⟩⟩

/-- **The bound.**  An item excuses no more publications of an author that succeed in an interval of
its limiter than its limit. -/
def Bounded (s : State X σ) : Prop :=
  ∀ charge ∈ s.charges, s.charges.countP charge.Alike ≤ charge.name.rateLimit

/-- The same of one limiter. -/
def LimiterBounded (s : State X σ) : Prop :=
  ∀ charge : Charge, s.charges.count charge ≤ charge.name.rateLimit

/-- A token is left for a publication that was excused. -/
def TokenLeft (package : RateLimiterPackage σ) (node : Node X) (s : State X σ) (x : X)
    (now : Nat) : Prop :=
  ∀ rule ∈ (s.excused.filter fun e => e.1 = x).map Prod.snd,
    ∀ name ∈ node.limiterOfRule x rule.1 rule.2,
      (package.tryRemoveTokens (s.getOrCreateRateLimiter package name now) now).1 = true

instance (package : RateLimiterPackage σ) (node : Node X) (s : State X σ) (x : X) (now : Nat) :
    Decidable (TokenLeft package node s x now) := by
  unfold TokenLeft
  infer_instance

/-- What a limiter says about the tokens it gave. -/
structure LimiterOk (package : RateLimiterPackage σ) (now : Nat) (name : RateLimiterName)
    (limiter : σ) : Prop where
  limit : package.tokensPerInterval limiter = name.rateLimit
  start : package.curIntervalStart limiter ≤ now
  tokens : package.tokensThisInterval limiter ≤ name.rateLimit

/-- The charges of an interval are covered by the tokens its limiter gave. -/
structure Inv (package : RateLimiterPackage σ) (s : State X σ) : Prop where
  limiter : ∀ name limiter, s.rateLimiters name = some limiter →
    LimiterOk package s.now name limiter
  nodup : s.excused.Nodup
  bounded : LimiterBounded s
  covered : ∀ charge ∈ s.charges, ∃ limiter, s.rateLimiters charge.name = some limiter ∧
    charge.intervalStart ≤ package.curIntervalStart limiter ∧
    (charge.intervalStart = package.curIntervalStart limiter →
      s.charges.count charge ≤ package.tokensThisInterval limiter)

omit [DecidableEq X] in
theorem inv_init : Inv package ({} : State X σ) where
  limiter := nofun
  nodup := List.nodup_nil
  bounded _ := Nat.zero_le _
  covered := nofun

theorem LimiterOk.mono {limiter : σ} {now' : Nat} (h : LimiterOk package now name limiter)
    (hnow : now ≤ now') : LimiterOk package now' name limiter :=
  ⟨h.limit, h.start.trans hnow, h.tokens⟩

theorem limiterOk_create (hdoc : Documented package) (name : RateLimiterName) (now : Nat) :
    LimiterOk package now name (package.create name.rateLimit now) := by
  obtain ⟨hlimit, hstart, htokens⟩ := hdoc.create name.rateLimit now
  exact ⟨hlimit, hstart.le, htokens ▸ Nat.zero_le _⟩

omit [DecidableEq X] in
theorem Inv.limiterOk (hdoc : Documented package) (h : Inv package s) (hnow : s.now ≤ now)
    (name : RateLimiterName) :
    LimiterOk package now name (s.getOrCreateRateLimiter package name now) := by
  rw [State.getOrCreateRateLimiter]
  cases hlimiter : s.rateLimiters name with
  | none => exact limiterOk_create hdoc name now
  | some limiter => exact (h.limiter name limiter hlimiter).mono hnow

theorem LimiterOk.read {limiter : σ} (hdoc : Documented package)
    (h : LimiterOk package now name limiter) :
    LimiterOk package now name (package.getTokensRemaining limiter now).2 := by
  obtain ⟨hlimit, hstart, htokens⟩ := hdoc.getTokensRemaining limiter now
  exact ⟨hlimit.trans h.limit, hstart ▸ h.start, htokens ▸ h.tokens⟩

/-- What taking a token does to a limiter. -/
theorem LimiterOk.remove {limiter : σ} (hdoc : Documented package)
    (h : LimiterOk package now name limiter) :
    LimiterOk package now name (package.tryRemoveTokens limiter now).2 := by
  obtain ⟨removed, limiter', hremove, hlimit, hinterval, htokens⟩ :=
    hdoc.tryRemoveTokens limiter now h.start
  rw [hremove]
  refine ⟨hlimit.trans h.limit, ?_, ?_⟩
  · rcases hinterval with ⟨hstart, -⟩ | ⟨-, hstart, -⟩
    · exact hstart ▸ h.start
    · exact hstart.le
  · cases removed with
    | true => exact (htokens rfl).trans (hlimit.trans h.limit).le
    | false =>
      rcases hinterval with ⟨-, hcount⟩ | ⟨-, -, hcount⟩
      · exact hcount ▸ h.tokens
      · exact hcount ▸ Nat.zero_le _

omit [DecidableEq X] in
theorem getOrCreateRateLimiter_of_some {limiter : σ} (h : s.rateLimiters name = some limiter) :
    s.getOrCreateRateLimiter package name now = limiter := by
  rw [State.getOrCreateRateLimiter, h, Option.getD_some]

theorem Inv.test (hdoc : Documented package) (h : Inv package s) (hnow : s.now ≤ now)
    (item : Option RateLimiterName) (rule : X × Nat × Nat) (excludes : Bool)
    (outcomes : List (X × Nat × Nat × Bool)) :
    Inv package { s with
      rateLimiters := s.readRateLimiter package item now
      now := now
      excused := if excludes then s.excused.insert rule else s.excused
      outcomes := outcomes } where
  limiter name limiter hlimiter := by
    simp only at hlimiter
    cases item with
    | none => exact (h.limiter name limiter hlimiter).mono hnow
    | some read =>
      rw [State.readRateLimiter] at hlimiter
      by_cases hname : name = read
      · subst hname
        rw [Function.update_self, Option.some.injEq] at hlimiter
        rw [← hlimiter]
        exact (h.limiterOk hdoc hnow name).read hdoc
      · rw [Function.update_of_ne hname] at hlimiter
        exact (h.limiter name limiter hlimiter).mono hnow
  nodup := by
    simp only
    split
    · exact h.nodup.insert
    · exact h.nodup
  bounded := h.bounded
  covered charge hcharge := by
    obtain ⟨limiter, hlimiter, hstart, hcount⟩ := h.covered charge hcharge
    cases item with
    | none => exact ⟨limiter, hlimiter, hstart, hcount⟩
    | some read =>
      by_cases hname : charge.name = read
      · subst hname
        obtain ⟨-, hstart', htokens'⟩ := hdoc.getTokensRemaining limiter now
        refine ⟨(package.getTokensRemaining limiter now).2, ?_, by rwa [hstart'], ?_⟩
        · simp [State.readRateLimiter, getOrCreateRateLimiter_of_some hlimiter]
        · rwa [hstart', htokens']
      · refine ⟨limiter, ?_, hstart, hcount⟩
        simp [State.readRateLimiter, Function.update_of_ne hname, hlimiter]

theorem mem_chargesOf (h : charge ∈ s.chargesOf package node x now) :
    ∃ rule ∈ (s.excused.filter fun e => e.1 = x).map Prod.snd,
      charge.challengeIndex = rule.1 ∧ charge.itemIndex = rule.2 ∧
      charge.name ∈ node.limiterOfRule x rule.1 rule.2 ∧
      charge.intervalStart = package.curIntervalStart
        (package.tryRemoveTokens (s.getOrCreateRateLimiter package charge.name now) now).2 := by
  obtain ⟨rule, hrule, hcharge⟩ := List.mem_filterMap.1 h
  obtain ⟨name, hname, rfl⟩ := Option.map_eq_some_iff.1 hcharge
  exact ⟨rule, hrule, rfl, rfl, hname, rfl⟩

/-- An item excuses a publication once. -/
theorem nodup_chargesOf (h : s.excused.Nodup) : (s.chargesOf package node x now).Nodup := by
  have hrules : ((s.excused.filter fun e => e.1 = x).map Prod.snd).Nodup := by
    refine (h.filter _).map_on fun a ha b hb hab => Prod.ext ?_ hab
    have ha' := (List.mem_filter.1 ha).2
    have hb' := (List.mem_filter.1 hb).2
    simp only [decide_eq_true_eq] at ha' hb'
    rw [ha', hb']
  refine hrules.filterMap fun a b charge ha hb => ?_
  obtain ⟨name, -, rfl⟩ := Option.map_eq_some_iff.1 ha
  obtain ⟨name', -, heq⟩ := Option.map_eq_some_iff.1 hb
  exact Prod.ext (congrArg Charge.challengeIndex heq).symm (congrArg Charge.itemIndex heq).symm

omit [DecidableEq X] in
theorem mem_rateLimits {i j : Nat} {item : Exclude} {limit : Nat}
    (hitem : node.item x i j = some item) (hlimit : item.rateLimit = some limit) :
    limit ∈ node.rateLimits (node.community x) := by
  obtain ⟨c, hc, hj⟩ := Option.bind_eq_some_iff.1 hitem
  refine List.mem_filterMap.2 ⟨item, ?_, hlimit⟩
  exact List.mem_flatMap.2 ⟨c, List.mem_of_getElem? hc, List.mem_of_getElem? hj⟩

theorem of_limiterToTest {request : ChallengeRequest} {item : Exclude}
    (h : limiterToTest request item = some name) :
    ∃ limit, item.rateLimit = some limit ∧
      rateLimiterName request limit (item.rateLimitChallengeSuccess ≠ some false) = name := by
  rw [limiterToTest] at h
  split at h
  · exact Option.map_eq_some_iff.1 h
  · cases h

omit [DecidableEq X] in
/-- The limiter of a rule is one of those a token is taken from. -/
theorem mem_getRateLimitersToAddTo {i j : Nat} (h : name ∈ node.limiterOfRule x i j) :
    name ∈ node.getRateLimitersToAddTo x true := by
  obtain ⟨item, hitem, hname⟩ := Option.bind_eq_some_iff.1 h
  obtain ⟨hitem, hsuccess⟩ := Option.filter_eq_some_iff.1 hitem
  obtain ⟨limit, hlimit, rfl⟩ := of_limiterToTest hname
  rw [hsuccess]
  exact List.mem_dedup.2 (List.mem_map_of_mem (mem_rateLimits hitem hlimit))

/-- The charges that come with a verdict. -/
structure Charged (package : RateLimiterPackage σ) (s : State X σ) (names : List RateLimiterName)
    (now : Nat) (new : List Charge) : Prop where
  nodup : new.Nodup
  named : ∀ charge ∈ new, charge.name ∈ names
  start : ∀ charge ∈ new, charge.intervalStart = package.curIntervalStart
    (package.tryRemoveTokens (s.getOrCreateRateLimiter package charge.name now) now).2
  removed : ∀ charge ∈ new,
    (package.tryRemoveTokens (s.getOrCreateRateLimiter package charge.name now) now).1 = true

omit [DecidableEq X] in
/-- The tokens of a limiter cover the new charges, too. -/
theorem Inv.covered_remove (hdoc : Documented package) (h : Inv package s) (hnow : s.now ≤ now)
    {names : List RateLimiterName} {new : List Charge} (hnew : Charged package s names now new)
    (charge : Charge) (hmem : charge ∈ new ++ s.charges)
    (limiter' : σ)
    (hlimiter' : limiter' =
      (package.tryRemoveTokens (s.getOrCreateRateLimiter package charge.name now) now).2) :
    charge.intervalStart ≤ package.curIntervalStart limiter' ∧
      (charge.intervalStart = package.curIntervalStart limiter' →
        (new ++ s.charges).count charge ≤ package.tokensThisInterval limiter') := by
  have hok := h.limiterOk hdoc hnow charge.name
  obtain ⟨removed, _, hremove, -, hinterval, -⟩ := hdoc.tryRemoveTokens _ now hok.start
  rw [hremove] at hlimiter'
  subst hlimiter'
  -- at most one new charge, and a token was removed for it
  have hone : new.count charge ≤ removed.toNat := by
    by_cases hin : charge ∈ new
    · have htrue := hnew.removed charge hin
      rw [hremove] at htrue
      rw [show removed = true from htrue]
      exact List.nodup_iff_count_le_one.1 hnew.nodup charge
    · rw [List.count_eq_zero_of_not_mem hin]
      exact Nat.zero_le _
  have holdStart : charge ∈ s.charges → charge.intervalStart ≤
      package.curIntervalStart (s.getOrCreateRateLimiter package charge.name now) := by
    intro hold
    obtain ⟨_, hsome, hstart, -⟩ := h.covered charge hold
    rwa [getOrCreateRateLimiter_of_some hsome]
  have holdCount : charge.intervalStart =
      package.curIntervalStart (s.getOrCreateRateLimiter package charge.name now) →
      s.charges.count charge ≤
        package.tokensThisInterval (s.getOrCreateRateLimiter package charge.name now) := by
    intro hstart
    by_cases hold : charge ∈ s.charges
    · obtain ⟨_, hsome, -, hcount⟩ := h.covered charge hold
      rw [getOrCreateRateLimiter_of_some hsome] at hstart ⊢
      exact hcount hstart
    · rw [List.count_eq_zero_of_not_mem hold]
      exact Nat.zero_le _
  have hnewStart : charge ∈ new → charge.intervalStart = package.curIntervalStart limiter' := by
    intro hin
    have hstart := hnew.start charge hin
    rwa [hremove] at hstart
  rw [List.count_append]
  rcases hinterval with ⟨hstart, htokens⟩ | ⟨hlater, -, htokens⟩
  · refine ⟨?_, fun heq => ?_⟩
    · rcases List.mem_append.1 hmem with hin | hold
      · exact (hnewStart hin).le
      · exact hstart ▸ holdStart hold
    · have hcount := holdCount (heq.trans hstart)
      omega
  · refine ⟨?_, fun heq => ?_⟩
    · rcases List.mem_append.1 hmem with hin | hold
      · exact (hnewStart hin).le
      · exact (holdStart hold).trans hlater.le
    · -- a new interval has no charges yet
      have hnone : s.charges.count charge = 0 :=
        List.count_eq_zero_of_not_mem fun hold => by
          have hle := holdStart hold
          omega
      omega

theorem Inv.verdict (hdoc : Documented package) (h : Inv package s) (hnow : s.now ≤ now)
    {names : List RateLimiterName} {new : List Charge} (hnew : Charged package s names now new)
    (x : X) :
    Inv package { s with
      rateLimiters := s.removeTokens package names now
      now := now
      excused := s.excused.filter fun e => e.1 ≠ x
      verdicts := x :: s.verdicts
      charges := new ++ s.charges } where
  limiter name limiter hlimiter := by
    simp only [State.removeTokens] at hlimiter
    split at hlimiter
    · rw [← Option.some.inj hlimiter]
      exact (h.limiterOk hdoc hnow name).remove hdoc
    · exact (h.limiter name limiter hlimiter).mono hnow
  nodup := h.nodup.filter _
  bounded charge := by
    by_cases hin : charge ∈ new
    · have hcovered := h.covered_remove hdoc hnow hnew charge (List.mem_append_left _ hin) _ rfl
      have hcount := hcovered.2 (hnew.start charge hin)
      exact hcount.trans ((h.limiterOk hdoc hnow charge.name).remove hdoc).tokens
    · simp only [List.count_append, List.count_eq_zero_of_not_mem hin, Nat.zero_add]
      exact h.bounded charge
  covered charge hcharge := by
    by_cases hname : charge.name ∈ names
    · obtain ⟨hstart, hcount⟩ := h.covered_remove hdoc hnow hnew charge hcharge _ rfl
      exact ⟨_, if_pos hname, hstart, hcount⟩
    · have hin : charge ∉ new := fun hin => hname (hnew.named charge hin)
      have hold := (List.mem_append.1 hcharge).resolve_left hin
      obtain ⟨limiter, hlimiter, hstart, hcount⟩ := h.covered charge hold
      refine ⟨limiter, (if_neg hname).trans hlimiter, hstart, ?_⟩
      simpa only [List.count_append, List.count_eq_zero_of_not_mem hin, Nat.zero_add] using hcount

/-- The exchanges that are handled, no limiter dropped, and a token left for every publication that
was excused and has succeeded. -/
def Covered (package : RateLimiterPackage σ) (node : Node X) (handled : X → Prop)
    (s : State X σ) : Event X → Prop
  | .test x _ _ _ _ _ => handled x
  | .verdict x challengeSuccess now =>
    handled x ∧ (challengeSuccess = true → TokenLeft package node s x now)
  | .evict _ => False

instance (package : RateLimiterPackage σ) (node : Node X) (handled : X → Prop)
    [DecidablePred handled] (s : State X σ) (event : Event X) :
    Decidable (Covered package node handled s event) := by
  unfold Covered
  split <;> infer_instance

theorem charged_of_tokenLeft (h : s.excused.Nodup) {challengeSuccess : Bool}
    (hleft : challengeSuccess = true → TokenLeft package node s x now) :
    Charged package s (node.getRateLimitersToAddTo x challengeSuccess) now
      (if challengeSuccess then s.chargesOf package node x now else []) := by
  cases challengeSuccess with
  | false => exact ⟨List.nodup_nil, nofun, nofun, nofun⟩
  | true =>
    refine ⟨nodup_chargesOf h, fun charge hin => ?_, fun charge hin => ?_, fun charge hin => ?_⟩
    · obtain ⟨rule, -, -, -, hname, -⟩ := mem_chargesOf hin
      exact mem_getRateLimitersToAddTo hname
    · obtain ⟨rule, -, -, -, -, hstart⟩ := mem_chargesOf hin
      exact hstart
    · obtain ⟨rule, hrule, -, -, hname, -⟩ := mem_chargesOf hin
      exact hleft rfl rule hrule charge.name hname

theorem Inv.step {handled : X → Prop} (hdoc : Documented package) (h : Inv package s)
    {event : Event X} (hok : Covered package node handled s event)
    (hstep : step package node s event = some t) : Inv package t := by
  cases event with
  | test x i j env community now =>
    rw [RateLimits.step] at hstep
    split at hstep
    · cases hstep
    · rename_i hguard
      obtain ⟨item, -, rfl⟩ := Option.map_eq_some_iff.1 hstep
      exact h.test hdoc (by omega) _ _ _ _
  | verdict x challengeSuccess now =>
    rw [RateLimits.step] at hstep
    split at hstep
    · cases hstep
    · rename_i hguard
      cases hstep
      have hcharged := charged_of_tokenLeft h.nodup hok.2
      have hinv := h.verdict hdoc (show s.now ≤ now by omega) hcharged x
      cases challengeSuccess with
      | true => exact hinv
      | false => exact hinv
  | evict name => exact hok.elim

/-- Where a charge comes from. -/
def Charge.Of (node : Node X) (handled : X → Prop) (charge : Charge) : Prop :=
  ∃ x, handled x ∧ charge.community = node.community x ∧ charge.author = node.author x ∧
    charge.name ∈ node.limiterOfRule x charge.challengeIndex charge.itemIndex

theorem charges_of_step {handled : X → Prop} {event : Event X}
    (h : ∀ charge ∈ s.charges, charge.Of node handled)
    (hok : Covered package node handled s event)
    (hstep : step package node s event = some t) :
    ∀ charge ∈ t.charges, charge.Of node handled := by
  cases event with
  | test x i j env community now =>
    rw [RateLimits.step] at hstep
    split at hstep
    · cases hstep
    · obtain ⟨item, -, rfl⟩ := Option.map_eq_some_iff.1 hstep
      exact h
  | verdict x challengeSuccess now =>
    rw [RateLimits.step] at hstep
    split at hstep
    · cases hstep
    · cases hstep
      intro charge hcharge
      cases challengeSuccess with
      | false => exact h charge hcharge
      | true =>
        rcases List.mem_append.1 hcharge with hnew | hold
        · obtain ⟨rule, hrule, hcharged⟩ := List.mem_filterMap.1 hnew
          obtain ⟨name, hname, rfl⟩ := Option.map_eq_some_iff.1 hcharged
          exact ⟨x, hok.1, rfl, rfl, hname⟩
        · exact h charge hold
  | evict name => exact hok.elim

/-- An author has one address, and nobody else has it. -/
def OneAddress (node : Node X) (handled : X → Prop) : Prop :=
  ∀ x y, handled x → handled y → (node.author x = node.author y ↔
    (node.request x).authorAddress = (node.request y).authorAddress)

omit [DecidableEq X] in
/-- An author with one address has one limiter for each item and type. -/
theorem Charge.Of.eq_of_alike {handled : X → Prop} (haddress : OneAddress node handled)
    {charge' : Charge} (h : charge.Of node handled) (h' : charge'.Of node handled)
    (halike : charge.Alike charge') : charge' = charge := by
  obtain ⟨x, hx, hcommunity, hauthor, hname⟩ := h
  obtain ⟨y, hy, hcommunity', hauthor', hname'⟩ := h'
  obtain ⟨item, hitem, hread⟩ := Option.bind_eq_some_iff.1 hname
  obtain ⟨item', hitem', hread'⟩ := Option.bind_eq_some_iff.1 hname'
  have hsame : node.item y charge'.challengeIndex charge'.itemIndex =
      node.item x charge.challengeIndex charge.itemIndex := by
    rw [Node.item, Node.item, halike.challengeIndex, halike.itemIndex, ← hcommunity', ← hcommunity,
      halike.community]
  rw [hsame, hitem, Option.some.injEq] at hitem'
  subst hitem'
  have hsuccess := (Option.filter_eq_some_iff.1 hitem).2
  obtain ⟨limit, hlimit, heq⟩ := of_limiterToTest hread
  obtain ⟨limit', hlimit', heq'⟩ := of_limiterToTest hread'
  obtain rfl := Option.some.inj (hlimit.symm.trans hlimit')
  have haddr := (haddress y x hy hx).1 (by rw [← hauthor', ← hauthor, halike.author])
  have htype := halike.publicationType
  have hnames : charge'.name = charge.name := by
    rw [← heq, ← heq'] at htype ⊢
    simp only [rateLimiterName, RateLimiterName.mk.injEq, haddr, true_and, and_true] at htype ⊢
    exact htype
  obtain ⟨community, author, i, j, name, start⟩ := charge
  obtain ⟨community', author', i', j', name', start'⟩ := charge'
  obtain ⟨h₁, h₂, h₃, h₄, -, h₆⟩ := halike
  simp only at h₁ h₂ h₃ h₄ h₆ hnames
  rw [h₁, h₂, h₃, h₄, h₆, hnames]

theorem bounded_of_run {handled : X → Prop} (hdoc : Documented package)
    (haddress : OneAddress node handled) {as : List (Event X)}
    (hrun : Run (step package node) (Covered package node handled) {} as s) : Bounded s := by
  have hlimiters : LimiterBounded s := hrun.invariant_of (fun _ (h : Inv package _) => h.bounded)
    (fun _ _ _ h hok hstep => h.step hdoc hok hstep) inv_init
  have hof : ∀ charge ∈ s.charges, charge.Of node handled :=
    hrun.invariant (I := fun s : State X σ => ∀ charge ∈ s.charges, charge.Of node handled)
      (fun _ _ _ h hok hstep => charges_of_step h hok hstep) nofun
  intro charge hcharge
  refine Nat.le_trans (Nat.le_of_eq ?_) (hlimiters charge)
  rw [List.count]
  refine List.countP_congr fun charge' hcharge' => ?_
  rw [decide_eq_true_eq, beq_iff_eq]
  constructor
  · exact fun halike => (hof charge hcharge).eq_of_alike haddress (hof charge' hcharge') halike
  · rintro rfl
    exact ⟨rfl, rfl, rfl, rfl, rfl, rfl⟩

end Bound

/-! ## The isolation -/

section Isolation

variable {X σ : Type} [DecidableEq X] {package : RateLimiterPackage σ} {node : Node X}
  {s s₀ t : State X σ}

/-- The exchanges of the same community, author and type as `x`. -/
def Node.alike (node : Node X) (x y : X) : Bool :=
  node.community y = node.community x ∧ node.author y = node.author x ∧
    getPublicationType (node.request y) = getPublicationType (node.request x)

/-- The events of these exchanges. -/
def Node.sees (node : Node X) (x : X) : Event X → Bool
  | .test y _ _ _ _ _ => node.alike x y
  | .verdict y _ _ => node.alike x y
  | .evict _ => false

/-- What the items made of these exchanges. -/
def State.outcomesOf (s : State X σ) (node : Node X) (x : X) : List (X × Nat × Nat × Bool) :=
  s.outcomes.filter fun outcome => node.alike x outcome.1

/-- Two communities that handle publications of one author and type have no limit in common. -/
def Apart (node : Node X) (handled : X → Prop) : Prop :=
  ∀ x y, handled x → handled y → node.community x ≠ node.community y →
    node.author x = node.author y →
    getPublicationType (node.request x) = getPublicationType (node.request y) →
    ∀ limit ∈ node.rateLimits (node.community x), limit ∉ node.rateLimits (node.community y)

/-- The limiters of `x`. -/
def Node.OwnName (node : Node X) (x : X) (name : RateLimiterName) : Prop :=
  name.authorAddress = (node.request x).authorAddress ∧
    name.publicationType = getPublicationType (node.request x) ∧
    name.rateLimit ∈ node.rateLimits (node.community x)

/-- The second state has what concerns `x`. -/
structure Same (node : Node X) (x : X) (s s₀ : State X σ) : Prop where
  rateLimiters : ∀ name, node.OwnName x name → s₀.rateLimiters name = s.rateLimiters name
  now : s₀.now ≤ s.now
  verdicts : ∀ y, node.alike x y = true → (y ∈ s₀.verdicts ↔ y ∈ s.verdicts)
  outcomes : s₀.outcomes = s.outcomesOf node x

omit [DecidableEq X] in
theorem alike_iff {x y : X} : node.alike x y = true ↔
    node.community y = node.community x ∧ node.author y = node.author x ∧
      getPublicationType (node.request y) = getPublicationType (node.request x) := by
  simp [Node.alike]

omit [DecidableEq X] in
/-- An exchange that is not like `x` has none of its limiters. -/
theorem not_ownName {handled : X → Prop} (haddress : OneAddress node handled)
    (hapart : Apart node handled) {x y : X} (hx : handled x) (hy : handled y)
    (hunlike : node.alike x y = false) {limit : Nat}
    (hlimit : limit ∈ node.rateLimits (node.community y)) (challengeSuccess : Bool) :
    ¬ node.OwnName x (rateLimiterName (node.request y) limit challengeSuccess) := by
  rintro ⟨hname, htype, hown⟩
  have hauthor := (haddress y x hy hx).2 hname
  have hcommunity : node.community y ≠ node.community x := by
    intro heq
    rw [alike_iff.2 ⟨heq, hauthor, htype⟩] at hunlike
    cases hunlike
  exact hapart y x hy hx hcommunity hauthor htype limit hlimit hown

omit [DecidableEq X] in
theorem ownName {handled : X → Prop} (haddress : OneAddress node handled) {x y : X}
    (hx : handled x) (hy : handled y) (halike : node.alike x y = true) {limit : Nat}
    (hlimit : limit ∈ node.rateLimits (node.community y)) (challengeSuccess : Bool) :
    node.OwnName x (rateLimiterName (node.request y) limit challengeSuccess) := by
  obtain ⟨hcommunity, hauthor, htype⟩ := alike_iff.1 halike
  exact ⟨(haddress y x hy hx).1 hauthor, htype, hcommunity ▸ hlimit⟩

/-- An item reads no limiter but its own. -/
theorem testItem_congr {env : Env} {community : Validation.Community} {request : ChallengeRequest}
    {item : Exclude} {tokens tokens' : RateLimiterName → Rat}
    (h : ∀ name ∈ limiterToTest request item, tokens name = tokens' name) :
    testItem { env with getTokensRemaining := tokens } community request item =
      testItem { env with getTokensRemaining := tokens' } community request item := by
  have hrate : testRateLimit { env with getTokensRemaining := tokens } request item =
      testRateLimit { env with getTokensRemaining := tokens' } request item := by
    rw [testRateLimit, testRateLimit]
    cases hlimit : item.rateLimit with
    | none => rfl
    | some limit =>
      cases htype : testPublicationType request item.publicationType with
      | false => rfl
      | true =>
        have hname := h (rateLimiterName request limit
          (item.rateLimitChallengeSuccess ≠ some false)) (by simp [limiterToTest, htype, hlimit])
        simp only [Bool.true_eq_false, if_false, hname]
  simp only [testItem, testsCheapConditions, hrate]
  rfl

omit [DecidableEq X] in
theorem same_test {handled : X → Prop} (haddress : OneAddress node handled) {x y : X}
    (hx : handled x) (hy : handled y) {now : Nat} (h : Same node x s s₀)
    (halike : node.alike x y = true) {i j : Nat} {item : Exclude}
    (hitem : node.item y i j = some item) (env : Env)
    (community : Validation.Community) :
    s₀.shouldExclude package node y item env community now =
      s.shouldExclude package node y item env community now := by
  have hread : ∀ name ∈ limiterToTest (node.request y) item,
      s₀.getOrCreateRateLimiter package name now = s.getOrCreateRateLimiter package name now := by
    intro name hname
    obtain ⟨limit, hlimit, rfl⟩ := of_limiterToTest hname
    have hown := ownName haddress hx hy halike (mem_rateLimits hitem hlimit)
      (item.rateLimitChallengeSuccess ≠ some false)
    rw [State.getOrCreateRateLimiter, State.getOrCreateRateLimiter, h.rateLimiters _ hown]
  rw [State.shouldExclude, State.shouldExclude]
  refine congrArg ShouldExcludeResult.shouldExclude (testItem_congr fun name hname => ?_)
  rw [hread name hname]

omit [DecidableEq X] in
/-- Reading another limiter leaves those of `x` as they are. -/
theorem readRateLimiter_of_not_ownName {x : X} {read : Option RateLimiterName} {now : Nat}
    (hread : ∀ name ∈ read, ¬ node.OwnName x name) {name : RateLimiterName}
    (hown : node.OwnName x name) :
    s.readRateLimiter package read now name = s.rateLimiters name := by
  cases read with
  | none => rfl
  | some other =>
    have hne : name ≠ other := fun heq => hread other rfl (heq ▸ hown)
    rw [State.readRateLimiter, Function.update_of_ne hne]

omit [DecidableEq X] in
theorem readRateLimiter_congr {name : RateLimiterName} (h : s₀.rateLimiters name =
    s.rateLimiters name) (read : Option RateLimiterName) (now : Nat) :
    s₀.readRateLimiter package read now name = s.readRateLimiter package read now name := by
  cases read with
  | none => exact h
  | some other =>
    by_cases hname : name = other
    · subst hname
      simp only [State.readRateLimiter, Function.update_self, State.getOrCreateRateLimiter, h]
    · simp only [State.readRateLimiter, Function.update_of_ne hname, h]

omit [DecidableEq X] in
theorem removeTokens_congr {name : RateLimiterName} (h : s₀.rateLimiters name =
    s.rateLimiters name) (names : List RateLimiterName) (now : Nat) :
    s₀.removeTokens package names now name = s.removeTokens package names now name := by
  simp only [State.removeTokens, State.getOrCreateRateLimiter, h]

omit [DecidableEq X] in
theorem of_mem_getRateLimitersToAddTo {x : X} {challengeSuccess : Bool} {name : RateLimiterName}
    (h : name ∈ node.getRateLimitersToAddTo x challengeSuccess) :
    ∃ limit ∈ node.rateLimits (node.community x),
      rateLimiterName (node.request x) limit challengeSuccess = name :=
  List.mem_map.1 (List.mem_dedup.1 h)

theorem Same.hidden {handled : X → Prop} (haddress : OneAddress node handled)
    (hapart : Apart node handled) {x : X} (hx : handled x) {event : Event X} (h : Same node x s s₀)
    (hok : Covered package node handled s event)
    (hsees : node.sees x event = false) (hstep : step package node s event = some t) :
    Same node x t s₀ := by
  cases event with
  | test y i j env community now =>
    rw [step] at hstep
    split at hstep
    · cases hstep
    · rename_i hguard
      obtain ⟨item, hitem, rfl⟩ := Option.map_eq_some_iff.1 hstep
      have hunlike : node.alike x y = false := hsees
      refine ⟨fun name hown => ?_, ?_, h.verdicts, ?_⟩
      · rw [h.rateLimiters name hown]
        refine (readRateLimiter_of_not_ownName (fun read hread => ?_) hown).symm
        obtain ⟨limit, hlimit, rfl⟩ := of_limiterToTest hread
        exact not_ownName haddress hapart hx hok hunlike (mem_rateLimits hitem hlimit) _
      · exact h.now.trans (by simp only; omega)
      · rw [h.outcomes]
        simp [State.outcomesOf, hunlike]
  | verdict y challengeSuccess now =>
    rw [step] at hstep
    split at hstep
    · cases hstep
    · rename_i hguard
      cases hstep
      have hunlike : node.alike x y = false := hsees
      refine ⟨fun name hown => ?_, ?_, fun z hz => ?_, h.outcomes⟩
      · rw [h.rateLimiters name hown]
        refine (if_neg fun hmem => ?_).symm
        obtain ⟨limit, hlimit, rfl⟩ := of_mem_getRateLimitersToAddTo hmem
        exact not_ownName haddress hapart hx hok.1 hunlike hlimit _ hown
      · exact h.now.trans (by simp only; omega)
      · rw [h.verdicts z hz, List.mem_cons, or_iff_right]
        rintro rfl
        rw [hunlike] at hz
        cases hz
  | evict name => exact hok.elim

theorem Same.shown {handled : X → Prop} (haddress : OneAddress node handled) {x : X}
    (hx : handled x) {event : Event X} (h : Same node x s s₀)
    (hok : Covered package node handled s event) (hsees : node.sees x event = true)
    (hstep : step package node s event = some t) :
    ∃ t₀, step package node s₀ event = some t₀ ∧ Same node x t t₀ := by
  have hguard : ∀ {y now}, node.alike x y = true → ¬ (y ∈ s.verdicts ∨ now < s.now) →
      ¬ (y ∈ s₀.verdicts ∨ now < s₀.now) := by
    intro y now halike hopen hclosed
    have hnow := h.now
    rcases hclosed with hmem | hlt
    · exact hopen (Or.inl ((h.verdicts y halike).1 hmem))
    · exact hopen (Or.inr (by omega))
  cases event with
  | test y i j env community now =>
    have halike : node.alike x y = true := hsees
    rw [step] at hstep
    split at hstep
    · cases hstep
    · rename_i hopen
      obtain ⟨item, hitem, rfl⟩ := Option.map_eq_some_iff.1 hstep
      rw [step, if_neg (hguard halike hopen), hitem]
      refine ⟨_, rfl, fun name hown => ?_, le_rfl, h.verdicts, ?_⟩
      · exact readRateLimiter_congr (h.rateLimiters name hown) _ _
      · simp [State.outcomesOf, halike, h.outcomes, 
        same_test haddress hx hok h halike hitem]
  | verdict y challengeSuccess now =>
    have halike : node.alike x y = true := hsees
    rw [step] at hstep
    split at hstep
    · cases hstep
    · rename_i hopen
      cases hstep
      rw [step, if_neg (hguard halike hopen)]
      refine ⟨_, rfl, fun name hown => ?_, le_rfl, fun z hz => ?_, h.outcomes⟩
      · exact removeTokens_congr (h.rateLimiters name hown) _ _
      · simp [h.verdicts z hz]
  | evict name => cases hsees

/-- **The isolation.**  What the items excuse is the same in every run with the same exchanges of
the community, the author and the type. -/
def Isolated (package : RateLimiterPackage σ) (node : Node X)
    (ok : State X σ → Event X → Prop) (x : X) : Prop :=
  ∀ {as as' : List (Event X)} {t t' : State X σ}, Run (step package node) ok {} as t →
    Run (step package node) ok {} as' t' → as.filter (node.sees x) = as'.filter (node.sees x) →
    t.outcomesOf node x = t'.outcomesOf node x

theorem isolated_of_apart {handled : X → Prop} (haddress : OneAddress node handled)
    (hapart : Apart node handled) {x : X} (hx : handled x) :
    Isolated package node (Covered package node handled) x := by
  intro as as' t t' hrun hrun' hsees
  have hunwinding : Unwinding (step package node) (Covered package node handled) (node.sees x)
      (Same node x) :=
    ⟨fun h hok hhidden hstep => h.hidden haddress hapart hx hok hhidden hstep,
      fun h hok hshown hstep => h.shown haddress hx hok hshown hstep⟩
  have hinit : Same node x ({} : State X σ) {} := ⟨fun _ _ => rfl, le_rfl, fun _ _ => Iff.rfl, rfl⟩
  obtain ⟨t₀, ht, ht'⟩ := hunwinding.two_runs hinit hrun hrun' hsees
  rw [← ht.outcomes, ht'.outcomes]

end Isolation

/-! ## The result -/

section Result

variable {X σ : Type} [DecidableEq X] {package : RateLimiterPackage σ} {node : Node X}

end Result

/-! ## A token bucket -/

/-- A bucket that fills up over the interval, and a count of the tokens of the interval. -/
structure TokenBucket where
  tokensPerInterval : Nat
  content : Rat
  lastDrip : Nat
  curIntervalStart : Nat
  tokensThisInterval : Nat

def TokenBucket.drip (interval : Nat) (bucket : TokenBucket) (now : Nat) : TokenBucket :=
  { bucket with
    content := min (bucket.tokensPerInterval : Rat)
      (bucket.content + (now - bucket.lastDrip : Nat) * bucket.tokensPerInterval / interval)
    lastDrip := now }

/-- The first removal after the interval is over begins a new one. -/
def TokenBucket.advance (interval : Nat) (bucket : TokenBucket) (now : Nat) : TokenBucket :=
  if bucket.curIntervalStart + interval ≤ now then
    { bucket with curIntervalStart := now, tokensThisInterval := 0 }
  else bucket

/-- A token is left in the bucket and of the interval. -/
def TokenBucket.hasToken (bucket : TokenBucket) : Bool :=
  bucket.tokensThisInterval < bucket.tokensPerInterval && 1 ≤ bucket.content

def TokenBucket.take (bucket : TokenBucket) : TokenBucket :=
  { bucket with
    content := bucket.content - 1
    tokensThisInterval := bucket.tokensThisInterval + 1 }

def TokenBucket.tryRemoveTokens (interval : Nat) (bucket : TokenBucket) (now : Nat) :
    Bool × TokenBucket :=
  let dripped := (bucket.advance interval now).drip interval now
  (dripped.hasToken, if dripped.hasToken then dripped.take else dripped)

def tokenBucket (interval : Nat) : RateLimiterPackage TokenBucket where
  create tokensPerInterval now := ⟨tokensPerInterval, tokensPerInterval, now, now, 0⟩
  getTokensRemaining bucket now := ((bucket.drip interval now).content, bucket.drip interval now)
  tryRemoveTokens := TokenBucket.tryRemoveTokens interval
  tokensPerInterval := TokenBucket.tokensPerInterval
  curIntervalStart := TokenBucket.curIntervalStart
  tokensThisInterval := TokenBucket.tokensThisInterval

theorem TokenBucket.advance_eq {interval : Nat} (hpos : 0 < interval) (bucket : TokenBucket)
    (now : Nat) :
    (bucket.advance interval now).tokensPerInterval = bucket.tokensPerInterval ∧
      ((bucket.advance interval now).curIntervalStart = bucket.curIntervalStart ∧
          (bucket.advance interval now).tokensThisInterval = bucket.tokensThisInterval ∨
        bucket.curIntervalStart < (bucket.advance interval now).curIntervalStart ∧
          (bucket.advance interval now).curIntervalStart = now ∧
          (bucket.advance interval now).tokensThisInterval = 0) := by
  rw [TokenBucket.advance]
  split
  · exact ⟨rfl, Or.inr ⟨show bucket.curIntervalStart < now by omega, rfl, rfl⟩⟩
  · exact ⟨rfl, Or.inl ⟨rfl, rfl⟩⟩

theorem TokenBucket.tokens_le (bucket : TokenBucket) (h : bucket.hasToken = true) :
    bucket.tokensThisInterval + 1 ≤ bucket.tokensPerInterval := by
  rw [TokenBucket.hasToken, Bool.and_eq_true, decide_eq_true_eq] at h
  exact h.1

theorem documented_tokenBucket {interval : Nat} (hpos : 0 < interval) :
    Documented (tokenBucket interval) where
  create _ _ := ⟨rfl, rfl, rfl⟩
  getTokensRemaining _ _ := ⟨rfl, rfl, rfl⟩
  tryRemoveTokens bucket now _ := by
    obtain ⟨hlimit, hinterval⟩ := bucket.advance_eq hpos now
    refine ⟨((bucket.advance interval now).drip interval now).hasToken, _, rfl, ?_⟩
    have hle := ((bucket.advance interval now).drip interval now).tokens_le
    revert hle
    cases ((bucket.advance interval now).drip interval now).hasToken with
    | true =>
      intro hle
      refine ⟨hlimit, ?_, fun _ => hle rfl⟩
      rcases hinterval with ⟨hstart, htokens⟩ | ⟨hlater, hstart, htokens⟩
      · exact Or.inl ⟨hstart, congrArg (· + 1) htokens⟩
      · exact Or.inr ⟨hlater, hstart, congrArg (· + 1) htokens⟩
    | false => exact fun _ => ⟨hlimit, hinterval, nofun⟩

/-! ## An author with one free vote -/

/-- One hour, in milliseconds. -/
def hour : Nat := 3600000

def hourBucket : RateLimiterPackage TokenBucket := tokenBucket hour

/-- Both communities excuse one vote of an author in the hour. -/
def freeVote : List CommunityChallenge := [{ exclude := some [{ rateLimit := some 1 }] }]

/-- The votes of one author: the third one goes to another community of the node. -/
def votes : Node Nat where
  community n := if n = 2 then "b.eth" else "a.eth"
  request _ := captchaFirst.request
  settings _ := freeVote

/-- The item is tested for a vote. -/
def tests (n now : Nat) : Event Nat := .test n 0 0 captchaFirst.env captchaFirst.community now

/-- A vote that is excused and succeeds. -/
def oneVote : List (Event Nat) := [tests 0 0, .verdict 0 true 1]

/-- Two votes that are tested before either has its verdict. -/
def parallelVotes : List (Event Nat) :=
  [tests 0 0, tests 1 0, .verdict 0 true 1, .verdict 1 true 1]

/-- The author gives a name with the second vote: it is the vote's `author.address`. -/
def namedVotes : Node Nat where
  community _ := "a.eth"
  request n := if n = 1 then { captchaFirst.request with authorAddress := "voter.bso" }
    else captchaFirst.request
  settings _ := freeVote

/-- One vote after the other, in one interval of both names' limiters. -/
def votesInTurn : List (Event Nat) :=
  [tests 0 0, .verdict 0 true 0, tests 1 0, .verdict 1 true 1]

/-- The first vote in `a.eth` that was excused and has succeeded. -/
def firstCharge : Charge :=
  ⟨"a.eth", votes.author 0, 0, 0, rateLimiterName captchaFirst.request 1 true, 0⟩

/-- An item with one free vote that excused two is not bounded. -/
theorem not_bounded_of_two {s : State Nat TokenBucket}
    (htwo : (decide (firstCharge ∈ s.charges), s.charges.countP firstCharge.Alike) = (true, 2)) :
    ¬ Bounded s := by
  obtain ⟨hmem, hcount⟩ := Prod.mk.inj htwo
  intro hbounded
  have hle := hbounded firstCharge (of_decide_eq_true hmem)
  rw [hcount] at hle
  exact absurd hle (by decide)

end RateLimits
end Pkc
