import Mathlib.Data.List.Forall2

/-!
# Statements and transactions of a database

A client of a database runs statements one after the other.  A statement takes effect, or fails
without an effect, or fails in a way that makes the database roll back the open transaction.  Which
of them happens is not up to the client: `Session.outcomes` lists what becomes of the next
statements, and a statement after those takes effect.

* `Op` is a sequence of statements that ends with a value or an error; `bind_eq_ok` and its
  companions take one apart that has ended with a value.
* `execBegin`, `execCommit` and `execRollback` open and close a transaction, `savepoint` runs a part
  that is undone as a whole when it fails, and `atomically` does the one or the other.
* `Inside` says that an operation stays in the open transaction, so that the transaction can still
  be rolled back when the operation has failed.  Everything that is built from statements does.
* `Session.Undisturbed` says that every statement takes effect; then an operation ends with a value
  unless the client itself gives up.
-/

set_option autoImplicit false

namespace Transactions

/-- What becomes of a statement. -/
inductive Outcome
  | done
  /-- It fails and has no effect. -/
  | error
  /-- It fails and the open transaction is rolled back. -/
  | abort
deriving DecidableEq, Repr

structure Session (T : Type) where
  tables : T
  /-- The tables as they were when the open transaction began. -/
  snapshot : Option T := none
  /-- How many transactions the client has opened, one in the other. -/
  depth : Nat := 0
  outcomes : List Outcome := []

abbrev Op (T ε α : Type) := Session T → Except ε α × Session T

section Operations

variable {T ε α β : Type}

def Op.pure (a : α) : Op T ε α := fun s => (.ok a, s)

def Op.bind (op : Op T ε α) (f : α → Op T ε β) : Op T ε β := fun s =>
  match op s with
  | (.ok a, s') => f a s'
  | (.error e, s') => (.error e, s')

instance : Monad (Op T ε) where
  pure := Op.pure
  bind := Op.bind

def fail (e : ε) : Op T ε α := fun s => (.error e, s)

/-- The open transaction is undone. -/
def Session.undone (s : Session T) : Session T :=
  { s with tables := s.snapshot.getD s.tables, snapshot := none }

/-- `failure` is the error of a statement that the database does not carry out. -/
def statement (failure : ε) (f : Session T → Except ε (α × Session T)) : Op T ε α := fun s =>
  let rest := { s with outcomes := s.outcomes.tail }
  match s.outcomes.head?.getD .done with
  | .error => (.error failure, rest)
  | .abort => (.error failure, rest.undone)
  | .done =>
    match f rest with
    | .ok (a, s') => (.ok a, s')
    | .error e => (.error e, rest)

/-- A statement that reads. -/
def query (failure : ε) (f : T → Except ε α) : Op T ε α :=
  statement failure fun s => (f s.tables).map fun a => (a, s)

/-- A statement that writes. -/
def update (failure : ε) (f : T → Except ε (α × T)) : Op T ε α :=
  statement failure fun s => (f s.tables).map fun (a, t) => (a, { s with tables := t })

/-- `BEGIN` -/
def execBegin (failure : ε) : Op T ε Unit :=
  statement failure fun s =>
    if s.snapshot.isSome then .error failure else .ok ((), { s with snapshot := some s.tables })

/-- `COMMIT` -/
def execCommit (failure : ε) : Op T ε Unit :=
  statement failure fun s =>
    if s.snapshot.isSome then .ok ((), { s with snapshot := none }) else .error failure

/-- `ROLLBACK`, which fails only when no transaction is open. -/
def execRollback (failure : ε) : Op T ε Unit := fun s =>
  if s.snapshot.isSome then (.ok (), s.undone) else (.error failure, s)

/-- A part that is undone when it fails and the open transaction is still there. -/
def undoOnError (op : Op T ε α) : Op T ε α := fun s =>
  match op s with
  | (.ok a, s') => (.ok a, s')
  | (.error e, s') =>
    (.error e, if s'.snapshot.isSome then { s' with tables := s.tables } else s')

/-- `SAVEPOINT` before, and `RELEASE` after. -/
def savepoint (failure : ε) (op : Op T ε α) : Op T ε α :=
  (query failure fun _ => .ok ()).bind fun _ =>
    undoOnError (op.bind fun a => (query failure fun _ => .ok ()).bind fun _ => Op.pure a)

/-- What is done about an error before it is thrown again. -/
def onError (op : Op T ε α) (cleanup : Op T ε Unit) : Op T ε α := fun s =>
  match op s with
  | (.ok a, s') => (.ok a, s')
  | (.error e, s') => (.error e, (cleanup s').2)

/-- A transaction around an operation, or a savepoint where one is open already. -/
def atomically (failure : ε) (op : Op T ε α) : Op T ε α := fun s =>
  if s.snapshot.isSome then savepoint failure op s
  else ((execBegin failure).bind fun _ =>
    onError (op.bind fun a => (execCommit failure).bind fun _ => Op.pure a) (execRollback failure)) s

/-- A loop that collects what its body returns. -/
def forEach (f : α → Op T ε β) : List α → Op T ε (List β)
  | [] => Op.pure []
  | a :: as => (f a).bind fun b => (forEach f as).bind fun bs => Op.pure (b :: bs)

end Operations

/-! ## Operations that have ended with a value -/

section Values

variable {T ε α β : Type} {s s' : Session T}

theorem pure_eq_ok {a b : α} : (Op.pure a : Op T ε α) s = (.ok b, s') ↔ a = b ∧ s = s' := by
  simp [Op.pure]

theorem bind_eq_ok {op : Op T ε α} {f : α → Op T ε β} {b : β} :
    op.bind f s = (.ok b, s') ↔ ∃ a t, op s = (.ok a, t) ∧ f a t = (.ok b, s') := by
  rw [Op.bind]
  rcases op s with ⟨a | a, t⟩
  · simp
  · simp only [Prod.mk.injEq, Except.ok.injEq]
    exact ⟨fun h => ⟨a, t, ⟨rfl, rfl⟩, h⟩, fun ⟨_, _, ⟨ha, ht⟩, h⟩ => by rw [ha, ht]; exact h⟩

theorem bind_of_ok {op : Op T ε α} {f : α → Op T ε β} {a : α} (h : op s = (.ok a, s')) :
    op.bind f s = f a s' := by
  rw [Op.bind, h]

theorem not_fail_eq_ok {e : ε} {a : α} : (fail e : Op T ε α) s ≠ (.ok a, s') := by
  simp [fail]

/-- Only the outcomes change besides what the statement writes. -/
theorem statement_eq_ok {failure : ε} {f : Session T → Except ε (α × Session T)} {a : α}
    (h : statement failure f s = (.ok a, s')) :
    f { s with outcomes := s.outcomes.tail } = .ok (a, s') := by
  rw [statement] at h
  split at h
  · cases h
  · cases h
  · split at h
    · rename_i hf
      rw [hf]
      cases h
      rfl
    · cases h

/-- What becomes of the next statement. -/
theorem statement_eq_ok_iff {failure : ε} {f : Session T → Except ε (α × Session T)} {a : α} :
    statement failure f s = (.ok a, s') ↔
      s.outcomes.head?.getD .done = .done ∧
        f { s with outcomes := s.outcomes.tail } = .ok (a, s') := by
  refine ⟨fun h => ⟨?_, statement_eq_ok h⟩, fun ⟨hdone, hf⟩ => ?_⟩
  · rw [statement] at h
    split at h
    · cases h
    · cases h
    · assumption
  · simp only [statement, hdone, hf]

/-- A statement that fails has no effect, or that of a rollback. -/
theorem statement_eq_error {failure : ε} {f : Session T → Except ε (α × Session T)} {e : ε}
    (h : statement failure f s = (.error e, s')) :
    s' = { s with outcomes := s.outcomes.tail } ∨
      s' = { s with outcomes := s.outcomes.tail }.undone := by
  rw [statement] at h
  split at h
  · cases h
    exact Or.inl rfl
  · cases h
    exact Or.inr rfl
  · split at h
    · cases h
    · cases h
      exact Or.inl rfl

theorem query_eq_ok {failure : ε} {f : T → Except ε α} {a : α}
    (h : query failure f s = (.ok a, s')) :
    f s.tables = .ok a ∧ s' = { s with outcomes := s.outcomes.tail } := by
  have hf := statement_eq_ok h
  simp only at hf
  cases ha : f s.tables with
  | error e => simp [ha, Except.map] at hf
  | ok b =>
    simp only [ha, Except.map, Except.ok.injEq, Prod.mk.injEq] at hf
    exact ⟨by rw [hf.1], hf.2.symm⟩

theorem update_eq_ok {failure : ε} {f : T → Except ε (α × T)} {a : α}
    (h : update failure f s = (.ok a, s')) :
    ∃ t, f s.tables = .ok (a, t) ∧
      s' = { s with tables := t, outcomes := s.outcomes.tail } := by
  have hf := statement_eq_ok h
  simp only at hf
  cases ha : f s.tables with
  | error e => simp [ha, Except.map] at hf
  | ok b =>
    simp only [ha, Except.map, Except.ok.injEq, Prod.mk.injEq] at hf
    exact ⟨b.2, by rw [← hf.1], hf.2.symm⟩

theorem onError_eq_ok {op : Op T ε α} {cleanup : Op T ε Unit} {a : α} :
    onError op cleanup s = (.ok a, s') ↔ op s = (.ok a, s') := by
  rw [onError]
  split <;> simp_all

theorem query_eq_ok_iff {failure : ε} {f : T → Except ε α} {a : α} :
    query failure f s = (.ok a, s') ↔ s.outcomes.head?.getD .done = .done ∧
      f s.tables = .ok a ∧ s' = { s with outcomes := s.outcomes.tail } := by
  refine ⟨fun h => ⟨(statement_eq_ok_iff.1 h).1, query_eq_ok h⟩, ?_⟩
  rintro ⟨hdone, hf, rfl⟩
  exact statement_eq_ok_iff.2 ⟨hdone, by rw [hf]; rfl⟩

theorem update_eq_ok_iff {failure : ε} {f : T → Except ε (α × T)} {a : α} :
    update failure f s = (.ok a, s') ↔ s.outcomes.head?.getD .done = .done ∧
      ∃ t, f s.tables = .ok (a, t) ∧ s' = { s with tables := t, outcomes := s.outcomes.tail } := by
  refine ⟨fun h => ⟨(statement_eq_ok_iff.1 h).1, update_eq_ok h⟩, ?_⟩
  rintro ⟨hdone, t, hf, rfl⟩
  exact statement_eq_ok_iff.2 ⟨hdone, by rw [hf]; rfl⟩

/-- A transaction of its own ends with a value if it begins, the operation does, and it is
committed. -/
theorem atomically_eq_ok {failure : ε} {op : Op T ε α} {a : α} (hs : s.snapshot = none) :
    atomically failure op s = (.ok a, s') ↔ s.outcomes.head?.getD .done = .done ∧
      ∃ t, op { s with snapshot := some s.tables, outcomes := s.outcomes.tail } = (.ok a, t) ∧
        t.outcomes.head?.getD .done = .done ∧ t.snapshot.isSome ∧
          s' = { t with snapshot := none, outcomes := t.outcomes.tail } := by
  have hbegin : ∀ u t, (execBegin failure : Op T ε Unit) s = (.ok u, t) ↔
      s.outcomes.head?.getD .done = .done ∧
        t = { s with snapshot := some s.tables, outcomes := s.outcomes.tail } := fun u t => by
    rw [execBegin, statement_eq_ok_iff, @eq_comm _ t]
    simp [hs]
  have hcommit : ∀ t u t', (execCommit failure : Op T ε Unit) t = (.ok u, t') ↔
      t.outcomes.head?.getD .done = .done ∧ t.snapshot.isSome ∧
        t' = { t with snapshot := none, outcomes := t.outcomes.tail } := fun t u t' => by
    rw [execCommit, statement_eq_ok_iff, @eq_comm _ t']
    split <;> simp_all
  rw [atomically, if_neg (by simp [hs]), bind_eq_ok]
  simp only [onError_eq_ok, bind_eq_ok, pure_eq_ok, hbegin, hcommit]
  constructor
  · rintro ⟨-, -, ⟨hdone, rfl⟩, b, t, hop, -, -, ⟨hend, hopen, rfl⟩, rfl, rfl⟩
    exact ⟨hdone, t, hop, hend, hopen, rfl⟩
  · rintro ⟨hdone, t, hop, hend, hopen, rfl⟩
    exact ⟨(), _, ⟨hdone, rfl⟩, a, t, hop, (), _, ⟨hend, hopen, rfl⟩, rfl, rfl⟩

theorem undoOnError_eq_ok {op : Op T ε α} {a : α} :
    undoOnError op s = (.ok a, s') ↔ op s = (.ok a, s') := by
  rw [undoOnError]
  split <;> simp_all

theorem savepoint_eq_ok {failure : ε} {op : Op T ε α} {a : α}
    (h : savepoint failure op s = (.ok a, s')) :
    ∃ t t', op t = (.ok a, t') ∧ t.tables = s.tables ∧ s'.tables = t'.tables := by
  obtain ⟨_, t, hmark, h⟩ := bind_eq_ok.1 h
  obtain ⟨b, t', hop, h⟩ := bind_eq_ok.1 (undoOnError_eq_ok.1 h)
  obtain ⟨_, t'', hrelease, h⟩ := bind_eq_ok.1 h
  obtain ⟨rfl, rfl⟩ := pure_eq_ok.1 h
  exact ⟨t, t', hop, by rw [(query_eq_ok hmark).2], by rw [(query_eq_ok hrelease).2]⟩

/-- **A loop over rows.**  A relation between the tables before and after that holds of an empty
loop and is extended by each round holds of the whole loop. -/
theorem forEach_eq_ok {f : α → Op T ε β} {P : Session T → List α → List β → Prop}
    (hnil : P s [] [])
    (hsnoc : ∀ {t t' as bs a b}, P t as bs → f a t = (.ok b, t') → P t' (as ++ [a]) (bs ++ [b])) :
    ∀ {as : List α} {bs : List β}, forEach f as s = (.ok bs, s') → P s' as bs := by
  suffices hgen : ∀ (as done : List α) (bs before : List β) (t : Session T), P t done before →
      forEach f as t = (.ok bs, s') → P s' (done ++ as) (before ++ bs) by
    intro as bs h
    exact hgen as [] bs [] s hnil h
  intro as
  induction as with
  | nil =>
    intro done bs before t hP h
    obtain ⟨rfl, rfl⟩ := pure_eq_ok.1 h
    simpa using hP
  | cons a as ih =>
    intro done bs before t hP h
    obtain ⟨b, t₁, hb, h⟩ := bind_eq_ok.1 h
    obtain ⟨bs', t₂, hbs, h⟩ := bind_eq_ok.1 h
    obtain ⟨rfl, rfl⟩ := pure_eq_ok.1 h
    have hstep := ih (done ++ [a]) bs' (before ++ [b]) t₁ (hsnoc hP hb) hbs
    simpa using hstep

/-- A loop whose body writes nothing collects something for each element. -/
theorem forEach_query_eq_ok {f : α → Op T ε β} {Q : T → α → β → Prop}
    (hf : ∀ {t t' : Session T} {a b}, f a t = (.ok b, t') → t'.tables = t.tables ∧ Q t.tables a b)
    {as : List α} {bs : List β} (h : forEach f as s = (.ok bs, s')) :
    s'.tables = s.tables ∧ List.Forall₂ (Q s.tables) as bs := by
  refine forEach_eq_ok (P := fun t as bs => t.tables = s.tables ∧ List.Forall₂ (Q s.tables) as bs)
    ⟨rfl, .nil⟩ (fun hP hb => ?_) h
  obtain ⟨htables, hQ⟩ := hf hb
  rw [hP.1] at hQ
  exact ⟨htables.trans hP.1, List.rel_append hP.2 (.cons hQ .nil)⟩

end Values

/-! ## Staying in the transaction -/

section Transactions

variable {T ε α β : Type} {s s' : Session T}

/-- A rollback leads back to `t`, or has done so already. -/
def Session.RestorableTo (s : Session T) (t : T) : Prop :=
  s.snapshot = some t ∨ s.snapshot = none ∧ s.tables = t

/-- The operation neither closes the open transaction nor opens another one.  Only a failure may
have rolled it back. -/
def Inside (op : Op T ε α) : Prop :=
  ∀ s t, s.snapshot = some t → (op s).2.depth = s.depth ∧
    match (op s).1 with
    | .ok _ => (op s).2.snapshot = some t
    | .error _ => (op s).2.RestorableTo t

theorem Session.RestorableTo.undone {t : T} (h : s.RestorableTo t) :
    s.undone.tables = t ∧ s.undone.snapshot = none := by
  refine ⟨?_, rfl⟩
  rcases h with h | ⟨hnone, h⟩
  · rw [Session.undone, h, Option.getD_some]
  · rw [Session.undone, hnone, Option.getD_none, h]

theorem Inside.ok {op : Op T ε α} (h : Inside op) {t : T} {a : α} (hs : s.snapshot = some t)
    (hop : op s = (.ok a, s')) : s'.depth = s.depth ∧ s'.snapshot = some t := by
  have hin := h s t hs
  rw [hop] at hin
  exact hin

theorem Inside.error {op : Op T ε α} (h : Inside op) {t : T} {e : ε} (hs : s.snapshot = some t)
    (hop : op s = (.error e, s')) : s'.depth = s.depth ∧ s'.RestorableTo t := by
  have hin := h s t hs
  rw [hop] at hin
  exact hin

theorem inside_pure (a : α) : Inside (Op.pure a : Op T ε α) := fun _ _ hs => ⟨rfl, hs⟩

theorem inside_fail (e : ε) : Inside (fail e : Op T ε α) := fun _ _ hs => ⟨rfl, Or.inl hs⟩

theorem Inside.bind {op : Op T ε α} {f : α → Op T ε β} (h : Inside op) (hf : ∀ a, Inside (f a)) :
    Inside (op.bind f) := by
  intro s t hs
  rw [Op.bind]
  cases hop : op s with
  | mk r s₁ =>
    cases r with
    | error e => exact h.error hs hop
    | ok a =>
      obtain ⟨hdepth, hsnapshot⟩ := h.ok hs hop
      have hrest := hf a s₁ t hsnapshot
      rw [hdepth] at hrest
      exact hrest

theorem inside_statement {failure : ε} {f : Session T → Except ε (α × Session T)}
    (hf : ∀ s a s', f s = .ok (a, s') → s'.depth = s.depth ∧ s'.snapshot = s.snapshot) :
    Inside (statement failure f) := by
  intro s t hs
  rw [statement]
  split
  · exact ⟨rfl, Or.inl hs⟩
  · exact ⟨rfl, Or.inr ⟨rfl, by simp [Session.undone, hs]⟩⟩
  · split
    · rename_i hdone
      obtain ⟨hdepth, hsnapshot⟩ := hf _ _ _ hdone
      exact ⟨hdepth, hsnapshot.trans hs⟩
    · exact ⟨rfl, Or.inl hs⟩

theorem restorable_of_statement_eq_error {failure : ε}
    {f : Session T → Except ε (α × Session T)} {e : ε} {t : T} (hs : s.snapshot = some t)
    (h : statement failure f s = (.error e, s')) : s'.RestorableTo t ∧ s'.depth = s.depth := by
  rcases statement_eq_error h with rfl | rfl
  · exact ⟨Or.inl hs, rfl⟩
  · exact ⟨Or.inr ⟨rfl, by simp [Session.undone, hs]⟩, rfl⟩

theorem execBegin_eq_ok {failure : ε} {u : Unit}
    (h : (execBegin failure : Op T ε Unit) s = (.ok u, s')) :
    s.snapshot = none ∧ s'.tables = s.tables ∧ s'.snapshot = some s.tables ∧
      s'.depth = s.depth := by
  have hstatement := statement_eq_ok h
  simp only at hstatement
  split at hstatement
  · cases hstatement
  · rename_i hnone
    cases hstatement
    exact ⟨by simpa using hnone, rfl, rfl, rfl⟩

theorem execBegin_eq_error {failure e : ε} (hs : s.snapshot = none)
    (h : (execBegin failure : Op T ε Unit) s = (.error e, s')) :
    s'.tables = s.tables ∧ s'.snapshot = none ∧ s'.depth = s.depth := by
  rcases statement_eq_error h with rfl | rfl
  · exact ⟨rfl, hs, rfl⟩
  · exact ⟨by simp [Session.undone, hs], rfl, rfl⟩

theorem execCommit_eq_ok {failure : ε} {u : Unit}
    (h : (execCommit failure : Op T ε Unit) s = (.ok u, s')) :
    s'.tables = s.tables ∧ s'.snapshot = none ∧ s'.depth = s.depth := by
  have hstatement := statement_eq_ok h
  simp only at hstatement
  split at hstatement
  · cases hstatement
    exact ⟨rfl, rfl, rfl⟩
  · cases hstatement

theorem execRollback_of_restorable (failure : ε) {t : T} (h : s.RestorableTo t) :
    ((execRollback failure : Op T ε Unit) s).2.tables = t ∧
      ((execRollback failure : Op T ε Unit) s).2.snapshot = none ∧
      ((execRollback failure : Op T ε Unit) s).2.depth = s.depth := by
  rw [execRollback]
  split
  · exact ⟨h.undone.1, h.undone.2, rfl⟩
  · rename_i hnone
    rcases h with hsome | ⟨hsnapshot, htables⟩
    · simp [hsome] at hnone
    · exact ⟨htables, hsnapshot, rfl⟩

/-- A transaction of its own takes effect as a whole, or not at all. -/
theorem Inside.atomically (failure : ε) {op : Op T ε α} (h : Inside op) (hs : s.snapshot = none) :
    (atomically failure op s).2.snapshot = none ∧ (atomically failure op s).2.depth = s.depth ∧
      match (atomically failure op s).1 with
      | .ok a => ∃ t t', t.tables = s.tables ∧ op t = (.ok a, t') ∧
          (atomically failure op s).2.tables = t'.tables
      | .error _ => (atomically failure op s).2.tables = s.tables := by
  rw [Transactions.atomically, if_neg (by simp [hs])]
  cases hbegin : (execBegin failure : Op T ε Unit) s with
  | mk r s₁ =>
    rw [Op.bind, hbegin]
    cases r with
    | error e =>
      obtain ⟨htables, hsnapshot, hdepth⟩ := execBegin_eq_error hs hbegin
      exact ⟨hsnapshot, hdepth, htables⟩
    | ok u =>
      obtain ⟨-, htables, hsnapshot, hdepth⟩ := execBegin_eq_ok hbegin
      simp only [onError]
      have hundo : ∀ s' : Session T, s'.RestorableTo s.tables → s'.depth = s₁.depth →
          ((execRollback failure : Op T ε Unit) s').2.snapshot = none ∧
          ((execRollback failure : Op T ε Unit) s').2.depth = s.depth ∧
          ((execRollback failure : Op T ε Unit) s').2.tables = s.tables := by
        intro s' hrestorable hsame
        obtain ⟨hback, hclosed, hkept⟩ := execRollback_of_restorable failure hrestorable
        exact ⟨hclosed, hkept.trans (hsame.trans hdepth), hback⟩
      cases hop : op s₁ with
      | mk r₂ s₂ =>
        cases r₂ with
        | error e =>
          rw [Op.bind, hop]
          obtain ⟨hsame, hrestorable⟩ := h.error hsnapshot hop
          exact hundo s₂ hrestorable hsame
        | ok a =>
          obtain ⟨hsame, hopen⟩ := h.ok hsnapshot hop
          rw [bind_of_ok hop]
          cases hcommit : (execCommit failure : Op T ε Unit) s₂ with
          | mk r₃ s₃ =>
            rw [Op.bind, hcommit]
            cases r₃ with
            | error e =>
              obtain ⟨hrestorable, hkept⟩ := restorable_of_statement_eq_error hopen hcommit
              exact hundo s₃ hrestorable (hkept.trans hsame)
            | ok u =>
              obtain ⟨hdone, hclosed, hkept⟩ := execCommit_eq_ok hcommit
              exact ⟨hclosed, hkept.trans (hsame.trans hdepth), s₁, s₂, htables, hop, hdone⟩

theorem inside_query (failure : ε) (f : T → Except ε α) : Inside (query failure f) := by
  refine inside_statement fun s a s' h => ?_
  cases hf : f s.tables with
  | error e => simp [hf, Except.map] at h
  | ok b =>
    simp only [hf, Except.map, Except.ok.injEq, Prod.mk.injEq] at h
    rw [← h.2]
    exact ⟨rfl, rfl⟩

theorem inside_update (failure : ε) (f : T → Except ε (α × T)) : Inside (update failure f) := by
  refine inside_statement fun s a s' h => ?_
  cases hf : f s.tables with
  | error e => simp [hf, Except.map] at h
  | ok b =>
    simp only [hf, Except.map, Except.ok.injEq, Prod.mk.injEq] at h
    rw [← h.2]
    exact ⟨rfl, rfl⟩

theorem Inside.undoOnError {op : Op T ε α} (h : Inside op) : Inside (undoOnError op) := by
  intro s t hs
  rw [Transactions.undoOnError]
  cases hop : op s with
  | mk r s₁ =>
    cases r with
    | ok a => exact h.ok hs hop
    | error e =>
      obtain ⟨hdepth, hrestorable⟩ := h.error hs hop
      simp only
      split
      · rename_i hopen
        rcases hrestorable with hsnapshot | ⟨hnone, -⟩
        · exact ⟨hdepth, Or.inl hsnapshot⟩
        · rw [hnone] at hopen
          cases hopen
      · exact ⟨hdepth, hrestorable⟩

theorem Inside.savepoint {failure : ε} {op : Op T ε α} (h : Inside op) :
    Inside (savepoint failure op) :=
  (inside_query _ _).bind fun _ =>
    (h.bind fun a => (inside_query _ _).bind fun _ => inside_pure a).undoOnError

theorem inside_forEach {f : α → Op T ε β} (hf : ∀ a, Inside (f a)) (as : List α) :
    Inside (forEach f as) := by
  induction as with
  | nil => exact inside_pure []
  | cons a as ih => exact (hf a).bind fun b => ih.bind fun bs => inside_pure (b :: bs)

end Transactions

/-! ## Operations whose statements take effect -/

section Returns

variable {T ε α β : Type} {s s' : Session T}

/-- The session with every statement taking effect. -/
def Session.Undisturbed (s : Session T) : Prop := s.outcomes = []

theorem statement_of_undisturbed {failure : ε} {f : Session T → Except ε (α × Session T)} {a : α}
    (hs : s.Undisturbed) (hf : f s = .ok (a, s')) : statement failure f s = (.ok a, s') := by
  obtain ⟨tables, snapshot, depth, outcomes⟩ := s
  cases (hs : outcomes = [])
  simp only [statement, List.head?_nil, Option.getD_none, List.tail_nil, hf]

theorem query_of_undisturbed {failure : ε} {f : T → Except ε α} {a : α} (hs : s.Undisturbed)
    (hf : f s.tables = .ok a) : query failure f s = (.ok a, s) :=
  statement_of_undisturbed hs (by rw [hf]; rfl)

theorem update_of_undisturbed {failure : ε} {f : T → Except ε (α × T)} {a : α} {t : T}
    (hs : s.Undisturbed) (hf : f s.tables = .ok (a, t)) :
    update failure f s = (.ok a, { s with tables := t }) :=
  statement_of_undisturbed hs (by rw [hf]; rfl)

/-- The operation ends with a value. -/
def Returns (op : Op T ε α) (s : Session T) : Prop :=
  ∃ a s', op s = (.ok a, s') ∧ s'.Undisturbed

theorem returns_pure (hs : s.Undisturbed) (a : α) : Returns (Op.pure a : Op T ε α) s :=
  ⟨a, s, rfl, hs⟩

theorem returns_query (hs : s.Undisturbed) {failure : ε} (g : T → α) :
    Returns (query failure fun t => .ok (g t)) s :=
  ⟨_, s, query_of_undisturbed hs rfl, hs⟩

theorem returns_update (hs : s.Undisturbed) {failure : ε} (g : T → α × T) :
    Returns (update failure fun t => .ok (g t)) s :=
  ⟨_, _, update_of_undisturbed hs rfl, hs⟩

theorem Returns.bind {op : Op T ε α} {f : α → Op T ε β} (h : Returns op s)
    (hf : ∀ a s', op s = (.ok a, s') → s'.Undisturbed → Returns (f a) s') :
    Returns (op.bind f) s := by
  obtain ⟨a, s₁, hop, hs₁⟩ := h
  obtain ⟨b, s₂, hrest, hs₂⟩ := hf a s₁ hop hs₁
  exact ⟨b, s₂, (bind_of_ok hop).trans hrest, hs₂⟩

theorem Returns.undoOnError {op : Op T ε α} (h : Returns op s) : Returns (undoOnError op) s := by
  obtain ⟨a, s', hop, hs'⟩ := h
  exact ⟨a, s', undoOnError_eq_ok.2 hop, hs'⟩

theorem returns_savepoint {failure : ε} {op : Op T ε α} (hs : s.Undisturbed)
    (h : ∀ s' : Session T, s'.Undisturbed → s'.tables = s.tables → Returns op s') :
    Returns (savepoint failure op) s := by
  refine (returns_query hs fun _ => ()).bind fun _ s₁ hmark hs₁ => Returns.undoOnError ?_
  refine (h s₁ hs₁ (by rw [(query_eq_ok hmark).2])).bind fun a s₂ _ hs₂ => ?_
  exact (returns_query hs₂ fun _ => ()).bind fun _ s₃ _ hs₃ => returns_pure hs₃ a

/-- A loop ends with a value when each of its rounds does, in a session that is as good as one needs
after the rounds before. -/
theorem returns_forEach {f : α → Op T ε β} {P : Session T → List α → Prop} {as : List α}
    (hf : ∀ done a rest, as = done ++ a :: rest → ∀ t, t.Undisturbed → P t done →
      Returns (f a) t ∧ ∀ b t', f a t = (.ok b, t') → P t' (done ++ [a]))
    (hs : s.Undisturbed) (hP : P s []) : Returns (forEach f as) s := by
  suffices hgen : ∀ (rest done : List α) (t : Session T), as = done ++ rest → t.Undisturbed →
      P t done → Returns (forEach f rest) t by
    exact hgen as [] s rfl hs hP
  intro rest
  induction rest with
  | nil =>
    intro done t _ ht _
    exact returns_pure ht []
  | cons a rest ih =>
    intro done t has ht hP
    obtain ⟨hreturns, hnext⟩ := hf done a rest has t ht hP
    refine hreturns.bind fun b t₁ hb ht₁ => ?_
    refine (ih (done ++ [a]) t₁ (by simp [has]) ht₁ (hnext b t₁ hb)).bind fun bs t₂ _ ht₂ => ?_
    exact returns_pure ht₂ (b :: bs)

end Returns

end Transactions
