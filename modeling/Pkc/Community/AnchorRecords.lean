import Pkc.Library.PromiseChain
import Pkc.Library.Runs
import Pkc.Library.Tasks

/-!
# The anchor records of a delegated community

The owner of a delegated community signs a record that points the anchor at this node, and the node
publishes it: the record is checked, put through Kubo and remembered with its sequence.  Publishes
of a community wait for each other in a queue that is kept under the address of the instance that is
asked, and every instance reads and writes through a database connection of its own.

* `step` is what a publish does up to its next `await`, in any order of the publishes, of renames
  and of connections that open and close.  `accepted` is the history of the publishes that returned.
* `OneAtATime` is the guard under which `Records`, the invariant, is kept: no publish begins while
  another one runs, a publish runs on the database file that the community has, and the second of
  the two writes does not fail after the first.
* `Queues` needs no guard: whatever fails, the first publish of a queue can always go on.
-/

set_option autoImplicit false

namespace Pkc
namespace AnchorRecords

open Runs Tasks

/-! ## The community -/

/-- The anchor, if the community has one, and what the `ipns` package says about bytes. -/
structure Ipns (B : Type) where
  isDelegated : Bool
  /-- The record is well formed and signed by the anchor. -/
  ipnsValidator : B → Bool
  value : B → String
  sequence : B → Nat
  /-- `/ipns/` and the address of the minter. -/
  expectedValue : String

/-- The two keys of the `keyv` table. -/
structure Keyv (B : Type) where
  anchorIpnsRecord : Option B := none
  highestAcceptedAnchorSequence : Option Nat := none

/-- A `LocalCommunity` object. -/
structure Instance (A : Type) where
  address : A
  /-- `_dbConfig.filename` -/
  filename : A
  /-- The file that the open connection writes to, also after it has been removed. -/
  connection : Option Nat := none
  anchorRecordSequence : Option Nat := none

inductive Phase
  /-- `previous.then(task)` -/
  | waiting
  /-- `initDbIfNeeded`, the imports and `ipnsValidator`. -/
  | validating
  /-- `putAnchorRecordThroughKubo` -/
  | putting
  /-- The bytes are written and the sequence is not. -/
  | storing
  | ended (returned : Bool)
deriving DecidableEq, Repr

def Phase.isRunning : Phase → Bool
  | .validating | .putting | .storing => true
  | _ => false

def Phase.isEnded : Phase → Bool
  | .ended _ => true
  | _ => false

structure Publish (A V B : Type) where
  /-- The address under which it waits. -/
  key : A
  inst : V
  bytes : B
  phase : Phase := .waiting

structure State (I V A B : Type) where
  anchorPublishQueues : A → PromiseChain I := fun _ => .empty
  publishes : I → Option (Publish A V B) := fun _ => none
  insts : V → Instance A
  /-- The database file at each address. -/
  dir : A → Option Nat
  files : Nat → Keyv B
  nextFile : Nat
  /-- The address at which the database of the community is. -/
  home : A
  /-- The records whose publish returned, the newest first. -/
  accepted : List B := []
  /-- What was put through Kubo, the newest first. -/
  puts : List B := []

inductive Action (I V A B : Type)
  | publishAnchorRecord (c : I) (i : V) (bytes : B)
  | begin (c : I)
  | validate (c : I)
  | put (c : I)
  | store (c : I)
  /-- What the publish awaits is rejected. -/
  | fail (c : I)
  | reprovide (i : V)
  | initDbIfNeeded (i : V)
  | destoryConnection (i : V)
  | rename (i : V) (newAddress : A)
  /-- An instance learns of a rename. -/
  | setAddress (i : V) (newAddress : A)

variable {I V A B : Type} [DecidableEq I] [DecidableEq V] [DecidableEq A]

/-! ## The steps -/

def State.setPhase (s : State I V A B) (c : I) (p : Publish A V B) (phase : Phase) :
    State I V A B :=
  { s with publishes := Function.update s.publishes c (some { p with phase := phase }) }

/-- The publish is over, and the next one in its queue may begin. -/
def State.finish (s : State I V A B) (c : I) (p : Publish A V B) (returned : Bool) :
    State I V A B :=
  { s.setPhase c p (.ended returned) with
    anchorPublishQueues := Function.update s.anchorPublishQueues p.key
      ((s.anchorPublishQueues p.key).settle c) }

def State.write (s : State I V A B) (file : Nat) (keyv : Keyv B) : State I V A B :=
  { s with files := Function.update s.files file keyv }

/-- Opens the file at the path of the instance, and creates it where there is none. -/
def State.initDbIfNeeded (s : State I V A B) (i : V) : State I V A B :=
  match (s.insts i).connection, s.dir (s.insts i).filename with
  | some _, _ => s
  | none, some file =>
    { s with insts := Function.update s.insts i { s.insts i with connection := some file } }
  | none, none =>
    { s with
      insts := Function.update s.insts i { s.insts i with connection := some s.nextFile }
      dir := Function.update s.dir (s.insts i).filename (some s.nextFile)
      files := Function.update s.files s.nextFile {}
      nextFile := s.nextFile + 1 }

/-- `changeDbFilename` and `setAddress`: a copy of the file at the new address, opened by the
instance.  Who has the old file open keeps it. -/
def State.rename (s : State I V A B) (i : V) (newAddress : A) (file : Nat) : State I V A B :=
  { s with
    insts := Function.update s.insts i { s.insts i with
      address := newAddress, filename := newAddress, connection := some s.nextFile }
    dir := Function.update (Function.update s.dir (s.insts i).filename none) newAddress
      (some s.nextFile)
    files := Function.update s.files s.nextFile (s.files file)
    nextFile := s.nextFile + 1
    home := if s.home = (s.insts i).filename then newAddress else s.home }

/-- The sequence is not greater than the one that is remembered. -/
def isNotGreater (x : Ipns B) (keyv : Keyv B) (bytes : B) : Bool :=
  keyv.highestAcceptedAnchorSequence.any fun highest => decide (x.sequence bytes ≤ highest)

/-- The first write. -/
def State.remember (s : State I V A B) (p : Publish A V B) (file : Nat) : State I V A B :=
  s.write file { s.files file with anchorIpnsRecord := some p.bytes }

/-- The second write, and the sequence of the instance. -/
def State.accept (x : Ipns B) (s : State I V A B) (p : Publish A V B) (file : Nat) :
    State I V A B :=
  { s.write file
      { s.files file with highestAcceptedAnchorSequence := some (x.sequence p.bytes) } with
    insts := Function.update s.insts p.inst
      { s.insts p.inst with anchorRecordSequence := some (x.sequence p.bytes) }
    accepted := p.bytes :: s.accepted }

/-- A publish goes on to its next `await`.  Without a connection every read and write throws. -/
def State.goOn (x : Ipns B) (s : State I V A B) (c : I) (p : Publish A V B)
    (connection : Option Nat) : Phase → Option (State I V A B)
  | .waiting =>
    if (s.anchorPublishQueues p.key).Ready c then
      if x.isDelegated then some ((s.initDbIfNeeded p.inst).setPhase c p .validating)
      else some (s.finish c p false)
    else none
  | .validating =>
    match connection with
    | none => some (s.finish c p false)
    | some file =>
      if !x.ipnsValidator p.bytes || x.value p.bytes != x.expectedValue ||
          isNotGreater x (s.files file) p.bytes then
        some (s.finish c p false)
      else some (s.setPhase c p .putting)
  | .putting =>
    let put := { s with puts := p.bytes :: s.puts }
    match connection with
    | none => some (put.finish c p false)
    | some file => some ((put.remember p file).setPhase c p .storing)
  | .storing =>
    match connection with
    | none => some (s.finish c p false)
    | some file => some ((s.accept x p file).finish c p true)
  | .ended _ => none

/-- A step of the publish `c`, if it is in the phase. -/
def State.goOnFrom (x : Ipns B) (s : State I V A B) (c : I) (phase : Phase) :
    Option (State I V A B) :=
  match s.publishes c with
  | none => none
  | some p => if p.phase = phase then s.goOn x c p (s.insts p.inst).connection phase else none

def step (x : Ipns B) (s : State I V A B) : Action I V A B → Option (State I V A B)
  | .publishAnchorRecord c i bytes =>
    match s.publishes c with
    | some _ => none
    | none =>
      let key := (s.insts i).address
      some { s with
        publishes := Function.update s.publishes c (some { key := key, inst := i, bytes := bytes })
        anchorPublishQueues := Function.update s.anchorPublishQueues key
          ((s.anchorPublishQueues key).call c) }
  | .begin c => s.goOnFrom x c .waiting
  | .validate c => s.goOnFrom x c .validating
  | .put c => s.goOnFrom x c .putting
  | .store c => s.goOnFrom x c .storing
  | .fail c =>
    match s.publishes c with
    | none => none
    | some p => if p.phase.isRunning then some (s.finish c p false) else none
  | .reprovide i =>
    match (s.insts i).connection with
    | none => none
    | some file =>
      match (s.files file).anchorIpnsRecord with
      | none => some s
      | some bytes => some { s with puts := bytes :: s.puts }
  | .initDbIfNeeded i => some (s.initDbIfNeeded i)
  | .destoryConnection i =>
    some { s with insts := Function.update s.insts i { s.insts i with connection := none } }
  | .rename i newAddress =>
    match s.dir (s.insts i).filename with
    | none => none
    | some file => some (s.rename i newAddress file)
  | .setAddress i newAddress =>
    some { s with insts := Function.update s.insts i { s.insts i with address := newAddress } }

/-! ## What is kept -/

/-- The `keyv` table in the file that the community has. -/
def State.keyv (s : State I V A B) : Keyv B := ((s.dir s.home).map s.files).getD {}

/-- The guard.  A publish begins when no other one runs, every step of it runs on a connection to
the file that the community has, and does not fail between its two writes; what is renamed is that
file. -/
def OneAtATime (s : State I V A B) : Action I V A B → Prop
  | .begin _ => ∀ d p, s.publishes d = some p → p.phase.isRunning = false
  | .validate c | .put c | .store c =>
    ∀ p, s.publishes c = some p → (s.insts p.inst).connection = s.dir s.home
  | .fail c => ∀ p, s.publishes c = some p → p.phase ≠ .storing
  | .rename i _ => (s.insts i).filename = s.home
  | _ => True

/-- The publishes in progress, what is stored and what has been accepted. -/
structure Kept (x : Ipns B) (publishes : I → Option (Publish A V B)) (keyv : Keyv B)
    (accepted : List B) : Prop where
  single : ∀ c p d q, publishes c = some p → p.phase.isRunning = true →
    publishes d = some q → q.phase.isRunning = true → c = d
  /-- A publish that has passed the check is still above everything accepted. -/
  above : ∀ c p, publishes c = some p → p.phase = .putting ∨ p.phase = .storing →
    ∀ bytes ∈ accepted.head?, x.sequence bytes < x.sequence p.bytes
  ordered : accepted.Pairwise fun newer older => x.sequence older < x.sequence newer
  highest : keyv.highestAcceptedAnchorSequence = accepted.head?.map x.sequence
  bytes : (∀ c p, publishes c = some p → p.phase ≠ .storing) →
    keyv.anchorIpnsRecord = accepted.head?
  /-- Between the two writes the bytes are already those of the publish. -/
  storing : ∀ c p, publishes c = some p → p.phase = .storing →
    keyv.anchorIpnsRecord = some p.bytes
  returned : ∀ c p, publishes c = some p → p.phase = .ended true → p.bytes ∈ accepted

/-- The community has a file, and files get new numbers. -/
structure Folder (s : State I V A B) : Prop where
  fresh : ∀ address file, s.dir address = some file → file < s.nextFile
  hasFile : ∃ file, s.dir s.home = some file

structure Records (x : Ipns B) (s : State I V A B) : Prop extends Folder s where
  kept : Kept x s.publishes s.keyv s.accepted

section Kept

variable {x : Ipns B} {publishes : I → Option (Publish A V B)} {keyv : Keyv B} {accepted : List B}
  {c : I} {p : Publish A V B}

omit [DecidableEq I] [DecidableEq V] [DecidableEq A] in
/-- The check is a comparison with everything accepted. -/
theorem Kept.above_of_not_isNotGreater (h : Kept x publishes keyv accepted) {bytes : B}
    (hgreater : isNotGreater x keyv bytes = false) :
    ∀ last ∈ accepted.head?, x.sequence last < x.sequence bytes := by
  intro last hlast
  rw [isNotGreater, h.highest, hlast] at hgreater
  simpa using hgreater

omit [DecidableEq V] [DecidableEq A] in
/-- A publish that is called, goes on or ends without a write. -/
theorem Kept.update (h : Kept x publishes keyv accepted)
    (hold : ∀ q, publishes c = some q → q.phase ≠ .storing) (hstoring : p.phase ≠ .storing)
    (hreturned : p.phase ≠ .ended true)
    (hsingle : p.phase.isRunning = true →
      ∀ d q, publishes d = some q → q.phase.isRunning = true → d = c)
    (habove : p.phase = .putting →
      ∀ bytes ∈ accepted.head?, x.sequence bytes < x.sequence p.bytes) :
    Kept x (Function.update publishes c (some p)) keyv accepted where
  __ := h
  single := by
    intro d q e r hq hqrun hr hrrun
    rcases update_eq_some.1 hq with ⟨hd, hp⟩ | ⟨-, hq⟩ <;>
      rcases update_eq_some.1 hr with ⟨he, hp'⟩ | ⟨-, hr⟩
    · rw [hd, he]
    · obtain rfl := Option.some.inj hp
      exact hd.trans (hsingle hqrun e r hr hrrun).symm
    · obtain rfl := Option.some.inj hp'
      exact (hsingle hrrun d q hq hqrun).trans he.symm
    · exact h.single d q e r hq hqrun hr hrrun
  above := by
    refine forall_update (fun q hq hphase => ?_) fun d q _ hq => h.above d q hq
    obtain rfl : p = q := by simpa using hq
    exact habove (hphase.resolve_right hstoring)
  bytes := fun hnone => h.bytes fun d q hq => by
    by_cases heq : d = c
    · exact hold q (heq ▸ hq)
    · exact hnone d q (update_eq_some.2 (.inr ⟨heq, hq⟩))
  storing := by
    refine forall_update (fun q hq hphase => ?_) fun d q _ hq => h.storing d q hq
    obtain rfl : p = q := by simpa using hq
    exact absurd hphase hstoring
  returned := by
    refine forall_update (fun q hq hphase => ?_) fun d q _ hq => h.returned d q hq
    obtain rfl : p = q := by simpa using hq
    exact absurd hphase hreturned

omit [DecidableEq I] [DecidableEq V] [DecidableEq A] in
theorem Kept.eq_of_running (h : Kept x publishes keyv accepted) (hp : publishes c = some p)
    (hrunning : p.phase.isRunning = true) :
    ∀ d q, publishes d = some q → q.phase.isRunning = true → d = c :=
  fun d q hq hqrun => h.single d q c p hq hqrun hp hrunning

omit [DecidableEq V] [DecidableEq A] in
/-- The first write. -/
theorem Kept.put (h : Kept x publishes keyv accepted) (hp : publishes c = some p)
    (hphase : p.phase = .putting) :
    Kept x (Function.update publishes c (some { p with phase := .storing }))
      { keyv with anchorIpnsRecord := some p.bytes } accepted where
  __ := h
  single := by
    have hothers := h.eq_of_running hp (by rw [hphase]; rfl)
    intro d q e r hq hqrun hr hrrun
    have hd : d = c := (update_eq_some.1 hq).elim (·.1) fun hne => hothers d q hne.2 hqrun
    have he : e = c := (update_eq_some.1 hr).elim (·.1) fun hne => hothers e r hne.2 hrrun
    rw [hd, he]
  above := by
    refine forall_update (fun q hq _ => ?_) fun d q _ hq => h.above d q hq
    obtain rfl := Option.some.inj hq
    exact h.above c p hp (.inl hphase)
  bytes := fun hnone => absurd rfl (hnone c _ (Function.update_self ..))
  storing := by
    refine forall_update (fun q hq _ => ?_) fun d q hne hq hstoring => ?_
    · obtain rfl := Option.some.inj hq
      rfl
    · exact absurd (h.eq_of_running hp (by rw [hphase]; rfl) d q hq (by rw [hstoring]; rfl)) hne
  returned := by
    refine forall_update (fun q hq hended => ?_) fun d q _ hq => h.returned d q hq
    obtain rfl := Option.some.inj hq
    cases hended

omit [DecidableEq V] [DecidableEq A] in
/-- The second write, after which the publish returns. -/
theorem Kept.store (h : Kept x publishes keyv accepted) (hp : publishes c = some p)
    (hphase : p.phase = .storing) :
    Kept x (Function.update publishes c (some { p with phase := .ended true }))
      { keyv with highestAcceptedAnchorSequence := some (x.sequence p.bytes) }
      (p.bytes :: accepted) where
  single := by
    intro d q e r hq hqrun hr hrrun
    rcases update_eq_some.1 hq with ⟨-, hq⟩ | ⟨hne, hq⟩
    · obtain rfl := Option.some.inj hq
      simp [Phase.isRunning] at hqrun
    · exact absurd (h.eq_of_running hp (by rw [hphase]; rfl) d q hq hqrun) hne
  above := by
    refine forall_update (fun q hq hrun => ?_) fun d q hne hq hrun => ?_
    · obtain rfl := Option.some.inj hq
      simp at hrun
    · have hqrun : q.phase.isRunning = true := by
        rcases hrun with hrun | hrun <;> rw [hrun] <;> rfl
      exact absurd (h.eq_of_running hp (by rw [hphase]; rfl) d q hq hqrun) hne
  ordered := by
    refine List.pairwise_cons.2 ⟨fun older holder => ?_, h.ordered⟩
    have hlast := h.above c p hp (.inr hphase)
    have hordered := h.ordered
    rcases accepted with _ | ⟨last, rest⟩
    · simp at holder
    · have hgreater := hlast last rfl
      rcases List.mem_cons.1 holder with rfl | hrest
      · exact hgreater
      · exact ((List.pairwise_cons.1 hordered).1 older hrest).trans hgreater
  highest := rfl
  bytes := fun _ => h.storing c p hp hphase
  storing := by
    refine forall_update (fun q hq hstoring => ?_) fun d q hne hq hstoring => ?_
    · obtain rfl := Option.some.inj hq
      simp at hstoring
    · exact absurd (h.eq_of_running hp (by rw [hphase]; rfl) d q hq (by rw [hstoring]; rfl)) hne
  returned := by
    refine forall_update (fun q hq _ => ?_) fun d q _ hq hended =>
      List.mem_cons_of_mem _ (h.returned d q hq hended)
    obtain rfl := Option.some.inj hq
    exact List.mem_cons_self

end Kept

/-! ## One step -/

section Step

variable {x : Ipns B} {s t : State I V A B} {c : I} {p : Publish A V B} {file : Nat}

omit [DecidableEq I] [DecidableEq V] [DecidableEq A] in
theorem keyv_of_file (h : s.dir s.home = some file) : s.keyv = s.files file := by
  simp [State.keyv, h]

omit [DecidableEq I] [DecidableEq V] [DecidableEq A] in
/-- Opening a connection leaves alone what the community has. -/
structure SameRecords (s t : State I V A B) : Prop where
  publishes : t.publishes = s.publishes
  keyv : t.keyv = s.keyv
  accepted : t.accepted = s.accepted

omit [DecidableEq I] [DecidableEq V] [DecidableEq A] in
theorem Records.of_same (h : Records x s) (hfolder : Folder t) (hsame : SameRecords s t) :
    Records x t :=
  { hfolder with kept := by rw [hsame.publishes, hsame.keyv, hsame.accepted]; exact h.kept }

omit [DecidableEq I] in
theorem Folder.initDbIfNeeded (h : Folder s) (i : V) :
    Folder (s.initDbIfNeeded i) ∧ SameRecords s (s.initDbIfNeeded i) := by
  obtain ⟨file, hfile⟩ := h.hasFile
  have hfresh := h.fresh _ _ hfile
  unfold State.initDbIfNeeded
  split
  · exact ⟨h, rfl, rfl, rfl⟩
  · exact ⟨⟨h.fresh, h.hasFile⟩, rfl, rfl, rfl⟩
  · rename_i hdir
    have hne : s.home ≠ (s.insts i).filename := fun heq => by
      rw [← heq, hfile] at hdir
      cases hdir
    have hhome : Function.update s.dir (s.insts i).filename (some s.nextFile) s.home =
        some file := by rw [Function.update_of_ne hne, hfile]
    refine ⟨⟨fun address f hf => ?_, file, hhome⟩, rfl, ?_, rfl⟩
    · by_cases heq : address = (s.insts i).filename
      · subst heq
        obtain rfl : s.nextFile = f := by simpa using hf
        exact Nat.lt_succ_self _
      · exact Nat.lt_succ_of_lt (h.fresh address f (by simpa [heq] using hf))
    · rw [keyv_of_file hhome, keyv_of_file hfile]
      exact Function.update_of_ne (Nat.ne_of_lt hfresh) _ _

omit [DecidableEq I] in
theorem Folder.rename (h : Folder s) {i : V} {newAddress : A}
    (hfile : s.dir (s.insts i).filename = some file) (hhome : (s.insts i).filename = s.home) :
    Folder (s.rename i newAddress file) ∧ SameRecords s (s.rename i newAddress file) := by
  have hnew : (s.rename i newAddress file).home = newAddress := by simp [State.rename, hhome]
  have hdir : (s.rename i newAddress file).dir newAddress = some s.nextFile :=
    Function.update_self ..
  have hother : ∀ address, address ≠ newAddress → (s.rename i newAddress file).dir address =
      Function.update s.dir (s.insts i).filename none address := fun address hne =>
    Function.update_of_ne hne ..
  refine ⟨⟨fun address f hf => ?_, s.nextFile, by rw [hnew, hdir]⟩, rfl, ?_, rfl⟩
  · show f < s.nextFile + 1
    by_cases heq : address = newAddress
    · subst heq
      rw [hdir, Option.some.injEq] at hf
      omega
    · rw [hother address heq] at hf
      by_cases hold : address = (s.insts i).filename
      · simp [hold] at hf
      · rw [Function.update_of_ne hold] at hf
        exact Nat.lt_succ_of_lt (h.fresh address f hf)
  · rw [keyv_of_file (by rw [hnew, hdir]), keyv_of_file (hhome ▸ hfile)]
    exact Function.update_self ..

omit [DecidableEq V] [DecidableEq A] in
/-- A publish that goes on or ends without a write. -/
theorem Records.update (h : Records x s) (hp : s.publishes c = some p)
    (hphase : p.phase ≠ .storing) {phase : Phase} (hstoring : phase ≠ .storing)
    (hreturned : phase ≠ .ended true)
    (hsingle : phase.isRunning = true →
      ∀ d q, s.publishes d = some q → q.phase.isRunning = true → d = c)
    (habove : phase = .putting →
      ∀ bytes ∈ s.accepted.head?, x.sequence bytes < x.sequence p.bytes) :
    Records x (s.setPhase c p phase) where
  __ := h
  kept := by
    refine h.kept.update (fun q hq => ?_) hstoring hreturned hsingle habove
    rw [hp] at hq
    obtain rfl := Option.some.inj hq
    exact hphase

omit [DecidableEq V] in
theorem Records.finish (h : Records x s) (hp : s.publishes c = some p)
    (hphase : p.phase ≠ .storing) : Records x (s.finish c p false) := by
  have hrecords : Records x (s.setPhase c p (.ended false)) :=
    h.update hp hphase (by simp) (by simp) (by simp [Phase.isRunning]) (by simp)
  exact ⟨⟨hrecords.fresh, hrecords.hasFile⟩, hrecords.kept⟩

/-- What a publish needs for its step to be allowed. -/
theorem Records.goOn (h : Records x s) (hp : s.publishes c = some p)
    (hbegin : p.phase = .waiting → ∀ d q, s.publishes d = some q → q.phase.isRunning = false)
    (hconnection : p.phase ≠ .waiting → (s.insts p.inst).connection = s.dir s.home)
    (hstep : s.goOn x c p (s.insts p.inst).connection p.phase = some t) : Records x t := by
  obtain ⟨file, hfile⟩ := h.hasFile
  have hkeyv := keyv_of_file hfile
  cases hphase : p.phase with
  | waiting =>
    simp only [hphase, State.goOn] at hstep
    split at hstep
    · split at hstep
      · cases hstep
        obtain ⟨hfolder, hsame⟩ := h.toFolder.initDbIfNeeded p.inst
        refine (h.of_same hfolder hsame).update (by rw [hsame.publishes, hp]) (by simp [hphase])
          (by simp) (by simp) (fun _ d q hq hrunning => ?_) (by simp)
        rw [hsame.publishes] at hq
        rw [hbegin hphase d q hq] at hrunning
        cases hrunning
      · cases hstep
        exact h.finish hp (by simp [hphase])
    · cases hstep
  | validating =>
    rw [hconnection (by simp [hphase]), hfile] at hstep
    simp only [hphase, State.goOn] at hstep
    split at hstep
    · cases hstep
      exact h.finish hp (by simp [hphase])
    · rename_i hcheck
      cases hstep
      refine h.update hp (by simp [hphase]) (by simp) (by simp)
        (fun _ => h.kept.eq_of_running hp (by rw [hphase]; rfl)) fun _ => ?_
      refine h.kept.above_of_not_isNotGreater ?_
      rw [hkeyv]
      simp only [Bool.or_eq_true, not_or, Bool.not_eq_true] at hcheck
      exact hcheck.2
  | putting =>
    rw [hconnection (by simp [hphase]), hfile] at hstep
    simp only [hphase, State.goOn] at hstep
    cases hstep
    have hkept := h.kept.put hp hphase
    rw [hkeyv] at hkept
    exact ⟨⟨h.fresh, h.hasFile⟩, by
      simpa only [State.setPhase, State.keyv, State.remember, State.write, hfile, Option.map_some,
        Option.getD_some, Function.update_self] using hkept⟩
  | storing =>
    rw [hconnection (by simp [hphase]), hfile] at hstep
    simp only [hphase, State.goOn] at hstep
    cases hstep
    have hkept := h.kept.store hp hphase
    rw [hkeyv] at hkept
    exact ⟨⟨h.fresh, h.hasFile⟩, by
      simpa only [State.finish, State.setPhase, State.keyv, State.accept, State.write, hfile,
        Option.map_some, Option.getD_some, Function.update_self] using hkept⟩
  | ended returned =>
    simp [hphase, State.goOn] at hstep

theorem Records.goOnFrom (h : Records x s) {phase : Phase}
    (hbegin : phase = .waiting → ∀ d q, s.publishes d = some q → q.phase.isRunning = false)
    (hconnection : phase ≠ .waiting →
      ∀ p, s.publishes c = some p → (s.insts p.inst).connection = s.dir s.home)
    (hstep : s.goOnFrom x c phase = some t) : Records x t := by
  unfold State.goOnFrom at hstep
  split at hstep
  · cases hstep
  · rename_i p hp
    split at hstep
    · rename_i hphase
      subst hphase
      exact h.goOn hp hbegin (fun hne => hconnection hne p hp) hstep
    · cases hstep

/-- **One step**.  Under the guard every step keeps the records. -/
theorem Records.step (h : Records x s) {a : Action I V A B} (hok : OneAtATime s a)
    (hstep : step x s a = some t) : Records x t := by
  cases a with
  | publishAnchorRecord c i bytes =>
    simp only [AnchorRecords.step] at hstep
    split at hstep
    · cases hstep
    · rename_i hnew
      cases hstep
      refine ⟨⟨h.fresh, h.hasFile⟩, h.kept.update ?_ (by simp) (by simp)
        (by simp [Phase.isRunning]) (by simp)⟩
      intro q hq
      rw [hnew] at hq
      cases hq
  | begin c => exact h.goOnFrom (fun _ => hok) (fun hne => absurd rfl hne) hstep
  | validate c => exact h.goOnFrom (by simp) (fun _ => hok) hstep
  | put c => exact h.goOnFrom (by simp) (fun _ => hok) hstep
  | store c => exact h.goOnFrom (by simp) (fun _ => hok) hstep
  | fail c =>
    simp only [AnchorRecords.step] at hstep
    split at hstep
    · cases hstep
    · rename_i p hp
      split at hstep
      · cases hstep
        exact h.finish hp (hok p hp)
      · cases hstep
  | reprovide i =>
    simp only [AnchorRecords.step] at hstep
    split at hstep
    · cases hstep
    · split at hstep <;> cases hstep
      · exact h
      · exact h.of_same ⟨h.fresh, h.hasFile⟩ ⟨rfl, rfl, rfl⟩
  | initDbIfNeeded i =>
    cases hstep
    obtain ⟨hfolder, hsame⟩ := h.toFolder.initDbIfNeeded i
    exact h.of_same hfolder hsame
  | destoryConnection i =>
    cases hstep
    exact h.of_same ⟨h.fresh, h.hasFile⟩ ⟨rfl, rfl, rfl⟩
  | rename i newAddress =>
    simp only [AnchorRecords.step] at hstep
    split at hstep
    · cases hstep
    · rename_i file hfile
      cases hstep
      obtain ⟨hfolder, hsame⟩ := h.toFolder.rename hfile hok
      exact h.of_same hfolder hsame
  | setAddress i newAddress =>
    cases hstep
    exact h.of_same ⟨h.fresh, h.hasFile⟩ ⟨rfl, rfl, rfl⟩

end Step

/-! ## The queues -/

/-- Each queue orders the publishes that wait under its address and are not over. -/
structure Queues (s : State I V A B) : Prop where
  queued : ∀ address, ∃ q, (s.anchorPublishQueues address).Queued q ∧ ∀ c, c ∈ q ↔
    ∃ p, s.publishes c = some p ∧ p.key = address ∧ p.phase.isEnded = false
  called : ∀ address c, ((s.anchorPublishQueues address).previous c).isSome = true →
    (s.publishes c).isSome = true
  ready : ∀ c p, s.publishes c = some p → p.phase.isRunning = true →
    (s.anchorPublishQueues p.key).Ready c

section Queues

variable {x : Ipns B} {s t : State I V A B} {c : I} {p : Publish A V B}

omit [DecidableEq I] [DecidableEq V] [DecidableEq A] in
theorem Queues.of_eq (h : Queues s) (hpublishes : t.publishes = s.publishes)
    (hqueues : t.anchorPublishQueues = s.anchorPublishQueues) : Queues t := by
  constructor
  · rw [hpublishes, hqueues]
    exact h.queued
  · rw [hpublishes, hqueues]
    exact h.called
  · rw [hpublishes, hqueues]
    exact h.ready

omit [DecidableEq V] [DecidableEq A] in
theorem Queues.setPhase (h : Queues s) (hp : s.publishes c = some p)
    (hopen : p.phase.isEnded = false) {phase : Phase} (hphase : phase.isEnded = false)
    (hready : (s.anchorPublishQueues p.key).Ready c) : Queues (s.setPhase c p phase) where
  queued := fun address => by
    obtain ⟨q, hq, hmem⟩ := h.queued address
    refine ⟨q, hq, fun d => (hmem d).trans ?_⟩
    by_cases heq : d = c
    · subst heq
      simp [State.setPhase, hp, hopen, hphase]
    · simp [State.setPhase, heq]
  called := fun address d hd => by
    by_cases heq : d = c
    · subst heq
      simp [State.setPhase]
    · simpa [State.setPhase, heq] using h.called address d hd
  ready := forall_update
    (fun q hq _ => by obtain rfl := Option.some.inj hq; exact hready)
    fun d q _ hq => h.ready d q hq

omit [DecidableEq V] in
/-- The publish that is over was the first of its queue. -/
theorem Queues.finish (h : Queues s) (hp : s.publishes c = some p)
    (hopen : p.phase.isEnded = false) (hready : (s.anchorPublishQueues p.key).Ready c)
    (returned : Bool) : Queues (s.finish c p returned) := by
  have hself : (s.finish c p returned).publishes c = some { p with phase := .ended returned } :=
    Function.update_self ..
  have hother : ∀ d, d ≠ c → (s.finish c p returned).publishes d = s.publishes d := fun d hne =>
    Function.update_of_ne hne ..
  have hkey : (s.finish c p returned).anchorPublishQueues p.key =
      (s.anchorPublishQueues p.key).settle c := Function.update_self ..
  have hrest : ∀ address, address ≠ p.key →
      (s.finish c p returned).anchorPublishQueues address = s.anchorPublishQueues address :=
    fun address hne => Function.update_of_ne hne ..
  refine ⟨fun address => ?_, fun address d hd => ?_, fun d r hr hrunning => ?_⟩
  · obtain ⟨q, hq, hmem⟩ := h.queued address
    by_cases heq : address = p.key
    · subst heq
      have hc := hq.head ((hmem c).2 ⟨p, hp, rfl, hopen⟩) hready
      obtain ⟨q, rfl⟩ := List.head?_eq_some_iff.1 hc
      have hnot := (List.nodup_cons.1 hq.nodup).1
      refine ⟨q, by rw [hkey]; exact hq.settle, fun d => ?_⟩
      by_cases hd : d = c
      · subst hd
        simp [hself, hnot, Phase.isEnded]
      · rw [hother d hd, ← hmem d, List.mem_cons, or_iff_right hd]
    · refine ⟨q, by rw [hrest address heq]; exact hq, fun d => (hmem d).trans ?_⟩
      by_cases hd : d = c
      · subst hd
        simp [hself, hp, Ne.symm heq]
      · rw [hother d hd]
  · by_cases heq : d = c
    · subst heq
      simp [hself]
    · rw [hother d heq]
      by_cases hadd : address = p.key
      · rw [hadd, hkey] at hd
        exact h.called p.key d hd
      · rw [hrest address hadd] at hd
        exact h.called address d hd
  · by_cases heq : d = c
    · subst heq
      obtain rfl := Option.some.inj (hself.symm.trans hr)
      simp [Phase.isRunning] at hrunning
    · rw [hother d heq] at hr
      have hready := h.ready d r hr hrunning
      by_cases hadd : r.key = p.key
      · rw [hadd] at hready ⊢
        rw [hkey]
        exact hready.settle
      · rw [hrest _ hadd]
        exact hready

omit [DecidableEq V] in
theorem Queues.call (h : Queues s) (hnew : s.publishes c = none)
    (hphase : p.phase = .waiting) :
    Queues { s with
      publishes := Function.update s.publishes c (some p)
      anchorPublishQueues := Function.update s.anchorPublishQueues p.key
        ((s.anchorPublishQueues p.key).call c) } := by
  have hnone : ∀ address, (s.anchorPublishQueues address).previous c = none := fun address => by
    have hcalled := h.called address c
    rw [hnew] at hcalled
    simpa using hcalled
  refine ⟨fun address => ?_, fun address d hd => ?_, fun d r hr hrunning => ?_⟩
  · obtain ⟨q, hq, hmem⟩ := h.queued address
    by_cases heq : address = p.key
    · subst heq
      refine ⟨q ++ [c], by simpa using hq.call (hnone p.key), fun d => ?_⟩
      by_cases hd : d = c
      · subst hd
        simp [hphase, Phase.isEnded]
      · simp [hmem d, hd]
    · refine ⟨q, by simpa [heq] using hq, fun d => (hmem d).trans ?_⟩
      by_cases hd : d = c
      · subst hd
        simp [hnew, Ne.symm heq]
      · simp [hd]
  · by_cases heq : d = c
    · subst heq
      simp
    · have hprevious : ((s.anchorPublishQueues address).previous d).isSome = true := by
        by_cases hadd : address = p.key
        · subst hadd
          simpa [PromiseChain.call, heq] using hd
        · simpa [hadd] using hd
      simpa [heq] using h.called address d hprevious
  · rcases update_eq_some.1 hr with ⟨-, hr⟩ | ⟨hne, hr⟩
    · obtain rfl := Option.some.inj hr
      simp [hphase, Phase.isRunning] at hrunning
    · have hready := h.ready d r hr hrunning
      by_cases hadd : r.key = p.key
      · rw [hadd] at hready ⊢
        simpa using hready.call hne
      · simpa [hadd] using hready

omit [DecidableEq I] in
theorem Queues.initDbIfNeeded (h : Queues s) (i : V) : Queues (s.initDbIfNeeded i) := by
  refine h.of_eq ?_ ?_ <;> unfold State.initDbIfNeeded <;> split <;> rfl

theorem Queues.goOn (h : Queues s) (hp : s.publishes c = some p) {connection : Option Nat}
    (hstep : s.goOn x c p connection p.phase = some t) : Queues t := by
  have hready : p.phase.isRunning = true → (s.anchorPublishQueues p.key).Ready c := h.ready c p hp
  cases hphase : p.phase with
  | waiting =>
    simp only [hphase, State.goOn] at hstep
    split at hstep
    · rename_i hfirst
      split at hstep <;> cases hstep
      · have hsame : (s.initDbIfNeeded p.inst).publishes = s.publishes ∧
            (s.initDbIfNeeded p.inst).anchorPublishQueues = s.anchorPublishQueues := by
          constructor <;> unfold State.initDbIfNeeded <;> split <;> rfl
        exact (h.initDbIfNeeded p.inst).setPhase (by rw [hsame.1, hp]) (by rw [hphase]; rfl) rfl
          (by rw [hsame.2]; exact hfirst)
      · exact h.finish hp (by rw [hphase]; rfl) hfirst false
    · cases hstep
  | validating =>
    rw [hphase] at hready
    simp only [hphase, State.goOn] at hstep
    split at hstep
    · cases hstep
      exact h.finish hp (by rw [hphase]; rfl) (hready rfl) false
    · split at hstep <;> cases hstep
      · exact h.finish hp (by rw [hphase]; rfl) (hready rfl) false
      · exact h.setPhase hp (by rw [hphase]; rfl) rfl (hready rfl)
  | putting =>
    rw [hphase] at hready
    have hput : Queues { s with puts := p.bytes :: s.puts } := h.of_eq rfl rfl
    simp only [hphase, State.goOn] at hstep
    split at hstep <;> cases hstep
    · exact hput.finish hp (by rw [hphase]; rfl) (hready rfl) false
    · rename_i file
      have hwritten : Queues (State.remember { s with puts := p.bytes :: s.puts } p file) :=
        hput.of_eq rfl rfl
      exact hwritten.setPhase hp (by rw [hphase]; rfl) rfl (hready rfl)
  | storing =>
    rw [hphase] at hready
    simp only [hphase, State.goOn] at hstep
    split at hstep <;> cases hstep
    · exact h.finish hp (by rw [hphase]; rfl) (hready rfl) false
    · rename_i file
      have haccepted : Queues (s.accept x p file) := h.of_eq rfl rfl
      exact haccepted.finish hp (by rw [hphase]; rfl) (hready rfl) true
  | ended returned => simp [hphase, State.goOn] at hstep

theorem Queues.goOnFrom (h : Queues s) {phase : Phase}
    (hstep : s.goOnFrom x c phase = some t) : Queues t := by
  unfold State.goOnFrom at hstep
  split at hstep
  · cases hstep
  · rename_i p hp
    split at hstep
    · rename_i hphase
      subst hphase
      exact h.goOn hp hstep
    · cases hstep

theorem Queues.step (h : Queues s) {a : Action I V A B} (hstep : step x s a = some t) :
    Queues t := by
  cases a with
  | publishAnchorRecord c i bytes =>
    simp only [AnchorRecords.step] at hstep
    split at hstep
    · cases hstep
    · rename_i hnew
      cases hstep
      exact h.call (p := { key := (s.insts i).address, inst := i, bytes := bytes }) hnew rfl
  | begin c => exact h.goOnFrom hstep
  | validate c => exact h.goOnFrom hstep
  | put c => exact h.goOnFrom hstep
  | store c => exact h.goOnFrom hstep
  | fail c =>
    simp only [AnchorRecords.step] at hstep
    split at hstep
    · cases hstep
    · rename_i p hp
      split at hstep
      · rename_i hrunning
        cases hstep
        refine h.finish hp ?_ (h.ready c p hp hrunning) false
        revert hrunning
        cases p.phase <;> simp [Phase.isRunning, Phase.isEnded]
      · cases hstep
  | reprovide i =>
    simp only [AnchorRecords.step] at hstep
    split at hstep
    · cases hstep
    · split at hstep <;> cases hstep
      · exact h
      · exact h.of_eq rfl rfl
  | initDbIfNeeded i =>
    cases hstep
    exact h.initDbIfNeeded i
  | destoryConnection i =>
    cases hstep
    exact h.of_eq rfl rfl
  | rename i newAddress =>
    simp only [AnchorRecords.step] at hstep
    split at hstep
    · cases hstep
    · cases hstep
      exact h.of_eq rfl rfl
  | setAddress i newAddress =>
    cases hstep
    exact h.of_eq rfl rfl

/-- The next step of a publish that is at the front of its queue. -/
def Phase.next (c : I) : Phase → Action I V A B
  | .waiting => .begin c
  | .validating => .validate c
  | .putting => .put c
  | .storing | .ended _ => .store c

/-- **No publish blocks the ones behind it**.  The first publish of a queue can go on, whatever
became of those before it. -/
theorem Queues.first (h : Queues s) (hp : s.publishes c = some p)
    (hopen : p.phase.isEnded = false) :
    ∃ d r, s.publishes d = some r ∧ r.key = p.key ∧ r.phase.isEnded = false ∧
      (AnchorRecords.step x s (r.phase.next d)).isSome = true := by
  obtain ⟨q, hq, hmem⟩ := h.queued p.key
  have hc := (hmem c).2 ⟨p, hp, rfl, hopen⟩
  rcases q with _ | ⟨d, q⟩
  · simp at hc
  · obtain ⟨r, hr, hkey, hphase⟩ := (hmem d).1 List.mem_cons_self
    refine ⟨d, r, hr, hkey, hphase, ?_⟩
    have hready : (s.anchorPublishQueues r.key).Ready d := by
      rw [hkey]
      exact hq.ready d rfl
    cases hr' : r.phase with
    | waiting =>
      simp only [Phase.next, AnchorRecords.step, State.goOnFrom, hr, hr', State.goOn, hready,
        if_true]
      split <;> rfl
    | validating =>
      simp only [Phase.next, AnchorRecords.step, State.goOnFrom, hr, hr', State.goOn, if_true]
      split
      · rfl
      · split <;> rfl
    | putting =>
      simp only [Phase.next, AnchorRecords.step, State.goOnFrom, hr, hr', State.goOn, if_true]
      split <;> rfl
    | storing =>
      simp only [Phase.next, AnchorRecords.step, State.goOnFrom, hr, hr', State.goOn, if_true]
      split <;> rfl
    | ended returned =>
      rw [hr'] at hphase
      cases hphase

end Queues

/-! ## The next sequence -/

def anchorSequenceMargin : Nat := 5

structure AnchorPublishPreparation where
  nextSequence : Nat
  currentAnchorRecordSequence : Nat
  hasPersistedAnchorRecord : Bool
deriving DecidableEq, Repr

inductive PrepareError
  | communityIsNotDelegated
  | unableToDetermineAnchorSequence
deriving DecidableEq, Repr

/-- `prepareAnchorPublish`, with the sequence of the record that the lookup has found. -/
def prepareAnchorPublish (isDelegated : Bool) (persistedSequence networkSequence : Option Nat) :
    Except PrepareError AnchorPublishPreparation :=
  if !isDelegated then .error .communityIsNotDelegated
  else if persistedSequence.isNone && networkSequence.isNone then
    .error .unableToDetermineAnchorSequence
  else
    let highestKnown := [persistedSequence, networkSequence].foldl
      (fun max seq => match seq with
        | some seq => if seq > max then seq else max
        | none => max) 0
    .ok {
      nextSequence := highestKnown + anchorSequenceMargin
      currentAnchorRecordSequence := highestKnown
      hasPersistedAnchorRecord := persistedSequence.isSome }

theorem lt_nextSequence {isDelegated : Bool} {persistedSequence networkSequence : Option Nat}
    {preparation : AnchorPublishPreparation}
    (h : prepareAnchorPublish isDelegated persistedSequence networkSequence = .ok preparation) :
    (∀ seq ∈ persistedSequence, seq < preparation.nextSequence) ∧
      ∀ seq ∈ networkSequence, seq < preparation.nextSequence := by
  unfold prepareAnchorPublish at h
  split at h
  · cases h
  · split at h
    · cases h
    · obtain rfl := Except.ok.inj h
      cases persistedSequence <;> cases networkSequence <;>
        simp [anchorSequenceMargin] <;> (repeat' split) <;> omega

/-! ## Runs -/

/-- No publish has been called, and the record that is stored is the one with the highest sequence,
if there is one. -/
structure Initial (x : Ipns B) (s : State I V A B) : Prop extends Folder s where
  publishes : s.publishes = fun _ => none
  queues : s.anchorPublishQueues = fun _ => .empty
  highest : s.keyv.highestAcceptedAnchorSequence = s.keyv.anchorIpnsRecord.map x.sequence
  accepted : s.accepted = s.keyv.anchorIpnsRecord.toList

/-- What is stored is the highest record that was accepted. -/
structure Sound (x : Ipns B) (s : State I V A B) : Prop where
  /-- Every accepted record has a higher sequence than all that were accepted before it. -/
  increasing : s.accepted.Pairwise fun newer older => x.sequence older < x.sequence newer
  highest : s.keyv.highestAcceptedAnchorSequence = s.accepted.head?.map x.sequence
  /-- The stored bytes are those of the highest sequence, or of the publish that has written them
  and is about to write its sequence, which is higher. -/
  stored : (s.keyv.anchorIpnsRecord = s.accepted.head? ∧
      s.keyv.anchorIpnsRecord.map x.sequence = s.keyv.highestAcceptedAnchorSequence) ∨
    ∃ c p, s.publishes c = some p ∧ p.phase = .storing ∧
      s.keyv.anchorIpnsRecord = some p.bytes ∧
      ∀ seq ∈ s.keyv.highestAcceptedAnchorSequence, seq < x.sequence p.bytes
  returned : ∀ c p, s.publishes c = some p → p.phase = .ended true → p.bytes ∈ s.accepted

/-- Whoever waits, the first in its queue can go on. -/
def Unblocked (x : Ipns B) (s : State I V A B) : Prop :=
  ∀ c p, s.publishes c = some p → p.phase.isEnded = false →
    ∃ d r, s.publishes d = some r ∧ r.key = p.key ∧ r.phase.isEnded = false ∧
      (step x s (r.phase.next d)).isSome = true

section Runs

variable {x : Ipns B} {s t u : State I V A B} {as bs : List (Action I V A B)}

omit [DecidableEq I] [DecidableEq V] [DecidableEq A] in
theorem Initial.records (h : Initial x s) : Records x s := by
  refine ⟨h.toFolder, ?_⟩
  have hnone : ∀ c, s.publishes c = none := fun c => by rw [h.publishes]
  have hhead : s.accepted.head? = s.keyv.anchorIpnsRecord := by
    rw [h.accepted]
    cases s.keyv.anchorIpnsRecord <;> rfl
  constructor
  case ordered =>
    rw [h.accepted]
    cases s.keyv.anchorIpnsRecord <;> simp
  case highest => rw [hhead, h.highest]
  case bytes => exact fun _ => hhead.symm
  all_goals simp [hnone]

omit [DecidableEq I] [DecidableEq V] [DecidableEq A] in
theorem Initial.toQueues (h : Initial x s) : Queues s := by
  constructor
  · exact fun address => ⟨[], by rw [h.queues]; exact PromiseChain.queued_empty,
      by simp [h.publishes]⟩
  · simp [h.queues, PromiseChain.empty]
  · simp [h.publishes]

omit [DecidableEq I] [DecidableEq V] [DecidableEq A] in
theorem Records.sound (h : Records x s) : Sound x s where
  increasing := h.kept.ordered
  highest := h.kept.highest
  stored := by
    by_cases hstoring : ∃ c p, s.publishes c = some p ∧ p.phase = .storing
    · obtain ⟨c, p, hp, hphase⟩ := hstoring
      refine .inr ⟨c, p, hp, hphase, h.kept.storing c p hp hphase, fun seq hseq => ?_⟩
      rw [h.kept.highest, Option.mem_def, Option.map_eq_some_iff] at hseq
      obtain ⟨last, hlast, rfl⟩ := hseq
      exact h.kept.above c p hp (.inr hphase) last hlast
    · have hbytes := h.kept.bytes fun c p hp hphase => hstoring ⟨c, p, hp, hphase⟩
      exact .inl ⟨hbytes, by rw [hbytes, h.kept.highest]⟩
  returned := h.kept.returned

omit [DecidableEq I] in
theorem accepted_initDbIfNeeded (i : V) : (s.initDbIfNeeded i).accepted = s.accepted := by
  unfold State.initDbIfNeeded
  split <;> rfl

theorem accepted_suffix_goOnFrom {c : I} {phase : Phase}
    (hstep : s.goOnFrom x c phase = some t) : s.accepted <:+ t.accepted := by
  unfold State.goOnFrom at hstep
  split at hstep
  · cases hstep
  · rename_i p hp
    split at hstep
    · cases phase with
      | waiting =>
        simp only [State.goOn] at hstep
        split at hstep
        · split at hstep <;> cases hstep
          · have hsame : s.accepted = (s.initDbIfNeeded p.inst).accepted :=
              (accepted_initDbIfNeeded p.inst).symm
            exact hsame ▸ List.suffix_rfl
          · exact List.suffix_rfl
        · cases hstep
      | validating =>
        simp only [State.goOn] at hstep
        split at hstep
        · cases hstep
          exact List.suffix_rfl
        · split at hstep <;> obtain rfl := Option.some.inj hstep <;> exact List.suffix_rfl
      | putting =>
        simp only [State.goOn] at hstep
        split at hstep <;> obtain rfl := Option.some.inj hstep <;> exact List.suffix_rfl
      | storing =>
        simp only [State.goOn] at hstep
        split at hstep <;> cases hstep
        · exact List.suffix_rfl
        · exact List.suffix_cons ..
      | ended returned => simp [State.goOn] at hstep
    · cases hstep

/-- What has been accepted stays accepted. -/
theorem accepted_suffix {a : Action I V A B} (hstep : step x s a = some t) :
    s.accepted <:+ t.accepted := by
  cases a with
  | publishAnchorRecord c i bytes =>
    simp only [step] at hstep
    split at hstep
    · cases hstep
    · cases hstep
      exact List.suffix_rfl
  | begin c => exact accepted_suffix_goOnFrom hstep
  | validate c => exact accepted_suffix_goOnFrom hstep
  | put c => exact accepted_suffix_goOnFrom hstep
  | store c => exact accepted_suffix_goOnFrom hstep
  | fail c =>
    simp only [step] at hstep
    split at hstep
    · cases hstep
    · split at hstep
      · cases hstep
        exact List.suffix_rfl
      · cases hstep
  | reprovide i =>
    simp only [step] at hstep
    split at hstep
    · cases hstep
    · split at hstep <;> obtain rfl := Option.some.inj hstep <;> exact List.suffix_rfl
  | initDbIfNeeded i =>
    cases hstep
    have hsame : s.accepted = (s.initDbIfNeeded i).accepted := (accepted_initDbIfNeeded i).symm
    exact hsame ▸ List.suffix_rfl
  | destoryConnection i =>
    cases hstep
    exact List.suffix_rfl
  | rename i newAddress =>
    simp only [step] at hstep
    split at hstep
    · cases hstep
    · cases hstep
      exact List.suffix_rfl
  | setAddress i newAddress =>
    cases hstep
    exact List.suffix_rfl

theorem accepted_suffix_of_run {ok : State I V A B → Action I V A B → Prop}
    (hrun : Run (step x) ok s as t) : s.accepted <:+ t.accepted := by
  induction hrun with
  | nil => exact List.suffix_rfl
  | cons _ hstep _ ih => exact (accepted_suffix hstep).trans ih

omit [DecidableEq I] [DecidableEq V] [DecidableEq A] in
/-- The last of the records that were accepted is the highest. -/
theorem Records.highest_mono (hs : Records x s) (ht : Records x t)
    (hsuffix : s.accepted <:+ t.accepted) :
    ∀ m ∈ s.keyv.highestAcceptedAnchorSequence,
      ∃ n ∈ t.keyv.highestAcceptedAnchorSequence, m ≤ n := by
  intro m hm
  rw [hs.kept.highest, Option.mem_def, Option.map_eq_some_iff] at hm
  obtain ⟨last, hlast, rfl⟩ := hm
  have hmem : last ∈ t.accepted := hsuffix.mem (List.mem_of_mem_head? hlast)
  have hordered := ht.kept.ordered
  rw [ht.kept.highest]
  rcases haccepted : t.accepted with _ | ⟨newest, rest⟩
  · simp [haccepted] at hmem
  · refine ⟨_, rfl, ?_⟩
    rw [haccepted] at hmem hordered
    rcases List.mem_cons.1 hmem with rfl | hrest
    · exact Nat.le_refl _
    · exact Nat.le_of_lt ((List.pairwise_cons.1 hordered).1 last hrest)

/-- **The anchor sequence never goes back**.  In every run under the guard, in every state that is
reached; and whatever fails, no publish blocks the ones behind it, and the next sequence is greater
than both that were read. -/
theorem sound_of_run (h : Initial x s) :
    (∀ as t, Run (step x) OneAtATime s as t → Sound x t ∧
      ∀ bs u, Run (step x) OneAtATime t bs u → ∀ m ∈ t.keyv.highestAcceptedAnchorSequence,
        ∃ n ∈ u.keyv.highestAcceptedAnchorSequence, m ≤ n) ∧
    (∀ as t, Run (step x) anyStep s as t → Unblocked x t) ∧
    ∀ isDelegated persistedSequence networkSequence preparation,
      prepareAnchorPublish isDelegated persistedSequence networkSequence = .ok preparation →
      (∀ seq ∈ persistedSequence, seq < preparation.nextSequence) ∧
        ∀ seq ∈ networkSequence, seq < preparation.nextSequence := by
  have hrecords : ∀ {s t : State I V A B} {as}, Records x s → Run (step x) OneAtATime s as t →
      Records x t := fun hs hrun =>
    hrun.invariant (fun _ _ _ hs hok hstep => hs.step hok hstep) hs
  refine ⟨fun as t hrun => ?_, fun as t hrun => ?_, fun _ _ _ _ => lt_nextSequence⟩
  · have ht := hrecords h.records hrun
    exact ⟨ht.sound, fun bs u hrun' =>
      ht.highest_mono (hrecords ht hrun') (accepted_suffix_of_run hrun')⟩
  · have hqueues : Queues t :=
      hrun.invariant (fun _ _ _ hs _ hstep => hs.step hstep) h.toQueues
    exact fun c p hp hopen => hqueues.first hp hopen

end Runs

/-! ## A rename while a publish waits for Kubo -/

/-- Records that are their own sequence. -/
def plainIpns : Ipns Nat where
  isDelegated := true
  ipnsValidator _ := true
  value _ := "/ipns/minter"
  sequence bytes := bytes
  expectedValue := "/ipns/minter"

/-- A community at address `1` that has not accepted a record. -/
def unpublished : State Nat Nat Nat Nat where
  insts _ := { address := 1, filename := 1 }
  dir address := if address = 1 then some 0 else none
  files _ := {}
  nextFile := 1
  home := 1

theorem initial_unpublished : Initial plainIpns unpublished where
  fresh := fun address file h => by
    by_cases haddress : address = 1
    · simp only [unpublished, haddress, if_true, Option.some.injEq] at h ⊢
      omega
    · simp [unpublished, haddress] at h
  hasFile := ⟨0, rfl⟩
  publishes := rfl
  queues := rfl
  highest := rfl
  accepted := rfl

/-- Two publishes of the same record wait for each other, and a third is called after a rename. -/
def publishesAndRename : List (Action Nat Nat Nat Nat) :=
  [.publishAnchorRecord 0 0 10, .publishAnchorRecord 1 0 10, .begin 0, .validate 0, .put 0, .store 0,
    .begin 1, .validate 1, .rename 0 2, .publishAnchorRecord 2 0 12, .begin 2, .validate 2, .put 2,
    .store 2]

/-- The second one is refused. -/
theorem sound_of_three_publishes : ∃ t,
    Run (step plainIpns) OneAtATime unpublished publishesAndRename t ∧ t.accepted = [12, 10] ∧
      Sound plainIpns t := by
  have hrun : ∃ t, Run (step plainIpns) OneAtATime unpublished publishesAndRename t ∧
      t.accepted = [12, 10] := by
    refine ⟨_, .cons trivial rfl <| .cons trivial rfl <| .cons ?_ rfl <| .cons ?_ rfl <|
      .cons ?_ rfl <| .cons ?_ rfl <| .cons ?_ rfl <| .cons ?_ rfl <| .cons rfl rfl <|
      .cons trivial rfl <| .cons ?_ rfl <| .cons ?_ rfl <| .cons ?_ rfl <| .cons ?_ rfl <| .nil _,
      rfl⟩
    -- a publish begins when those that were called before wait or have ended
    case refine_1 | refine_5 | refine_7 =>
      rintro (_ | _ | _ | d) p hp <;> cases hp <;> rfl
    all_goals
      intro p hp
      obtain rfl := Option.some.inj hp
      rfl
  obtain ⟨t, hrun, haccepted⟩ := hrun
  exact ⟨t, hrun, haccepted, ((sound_of_run initial_unpublished).1 _ t hrun).1⟩

/-- The community is renamed to `2` while the record `10` is put, and `5` is published under the new
address.  Both have passed the check, and `5` is written last. -/
theorem not_sound_of_rename : ∃ s t, Run (step plainIpns) anyStep unpublished
      [.publishAnchorRecord 0 0 10, .begin 0, .validate 0, .rename 0 2,
        .publishAnchorRecord 1 0 5, .begin 1, .validate 1, .put 0, .store 0] s ∧
    s.keyv.highestAcceptedAnchorSequence = some 10 ∧
    Run (step plainIpns) anyStep s [.put 1, .store 1] t ∧
    t.keyv.highestAcceptedAnchorSequence = some 5 ∧ t.accepted = [5, 10] ∧
    ¬ Sound plainIpns t := by
  refine ⟨_, _, .of_exec rfl, rfl, .of_exec rfl, rfl, rfl, fun h => ?_⟩
  have hlt := (List.pairwise_cons.1 h.increasing).1 10 List.mem_cons_self
  exact absurd hlt (by decide)

end AnchorRecords
end Pkc
