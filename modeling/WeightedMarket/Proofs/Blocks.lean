/-
  Blocks, and what a transaction brings back.

  A block is a program over the calls of the repository and the ledger: one call after the other, each
  choosing what follows by its answer, with transactions inside it to any depth and refusals caught
  anywhere.  `Block` has one constructor for each way to build one, so what every block keeps is proved
  once for the calls and for the rollback (`Block.keeps`).

  1. A block only adds to the history and to the register of issuers (`Block.grown`).  So the copies
     taken before it are enough to bring back the pools, the balances and the history of a shelf and a
     ledger (`Grown.restore_ledger`, `Grown.restore_repository`).

  2. Markets that agree on what the calls read give every block the same answer (`Block.alike`).

  3. A savepoint has no copy of the register.  So a block that was refused has not happened for anybody
     who looks later exactly if it registered no new issuer (`transaction_eq_error`).
-/
import WeightedMarket.Proofs.Commit
import WeightedMarket.Proofs.History

namespace WeightedMarket

/-! ## Bringing back twice -/

/-- Bringing a ledger back twice from one copy is bringing it back once. -/
theorem Ledger.restore_restore (l : Ledger) (s : Savepoint) :
    (l.restore s).restore s = l.restore s := by
  simp [restore, List.take_take]

theorem Repository.restore_restore (r saved : Repository) :
    (r.restore saved).restore saved = r.restore saved := by
  cases r with
  | folder => rfl
  | shelf => cases saved <;> rfl

namespace Market

/-! ## Calls and blocks -/

/-- A call of the repository or the ledger, by the type of its answer. -/
inductive Call : Type → Type where
  | store (p : Pool) : Call Unit
  | load (pool : Int) : Call Pool
  | contains (pool : Int) : Call Bool
  | mint (account : String) (coin : Coin) : Call Unit
  | register (account denom : String) : Call Unit
  | transfer (t : Transfer) : Call Unit
  | balance (account denom : String) : Call Fixed
  | history : Call (List Transfer)

namespace Call

/-- Makes a call. -/
def run {α : Type} : Call α → Action Market α
  | .store p => onRepository (Repository.store p)
  | .load pool => onRepository fun r => (r.load pool, r)
  | .contains pool => onRepository fun r => (.ok (r.contains pool), r)
  | .mint account coin => onLedger (Action.change fun l => l.mint account coin)
  | .register account denom => onLedger (Action.change fun l => l.register account denom)
  | .transfer t => onLedger (Ledger.transfer t)
  | .balance account denom => onLedger fun l => (.ok (l.balance account denom), l)
  | .history => onLedger fun l => (.ok l.transfers, l)

/-- Whether a call credits a coin that no account has sent. -/
def mints {α : Type} : Call α → Bool
  | .mint .. => true
  | _ => false

end Call

/-- A program of calls that are allowed, with transactions in it and refusals caught. -/
inductive Block (allowed : (α : Type) → Call α → Prop) : {α : Type} → Action Market α → Prop
  | answer {α : Type} (a : α) : Block allowed (pure a)
  | fail {α : Type} (f : Failure) : Block allowed (Action.fail f : Action Market α)
  | call {α : Type} (c : Call α) (h : allowed α c) : Block allowed c.run
  | andThen {α β : Type} {x : Action Market α} {f : α → Action Market β} (first : Block allowed x)
      (rest : ∀ a, Block allowed (f a)) : Block allowed (x >>= f)
  | caught {α : Type} {x : Action Market α} (body : Block allowed x) : Block allowed x.outcome
  | transaction {α : Type} {x : Action Market α} (parts : List Part) (body : Block allowed x) :
      Block allowed (transaction parts x)

/-- Every call is allowed. -/
def anyCall (α : Type) (_ : Call α) : Prop := True

variable {m m' m₁ m₁' : Market} {α : Type} {x : Action Market α}
  {allowed : (α : Type) → Call α → Prop}

/-- **What every block keeps**: a relation between the markets before and after, if every call keeps it
and so does the rollback to copies from before. -/
theorem Block.keeps {R : Market → Market → Prop} (hrefl : ∀ m, R m m)
    (htrans : ∀ m m₁ m₂, R m m₁ → R m₁ m₂ → R m m₂)
    (hcall : ∀ (α : Type) (c : Call α), allowed α c → ∀ m, R m (c.run m).2)
    (hback : ∀ m m₁ (parts : List Part), R m m₁ → R m (m₁.rolledBack (parts.map m.save)))
    (hx : Block allowed x) (m : Market) : R m (x m).2 := by
  induction hx generalizing m with
  | answer a => exact hrefl m
  | fail f => exact hrefl m
  | call c h => exact hcall _ c h m
  | @andThen _ _ x f first rest ihfirst ihrest =>
    have hfirst := ihfirst m
    rw [Action.bind_apply]
    rcases hx : x m with ⟨_ | a, m₁⟩ <;> rw [hx] at hfirst
    · exact hfirst
    · exact htrans m m₁ _ hfirst (ihrest a m₁)
  | caught body ih => exact ih m
  | @transaction _ x parts body ih =>
    have hbody := ih m
    unfold Market.transaction
    rcases hx : x m with ⟨_ | a, m₁⟩ <;> rw [hx] at hbody
    · exact hback m m₁ parts hbody
    · exact hbody

/-! ## Copies that are enough -/

/-- What a market may have become without its copies getting too old: a shelf is still one, and the
history and the register have only been added to. -/
structure Grown (m m' : Market) : Prop where
  shelved : (∃ pools, m.repository = .shelf pools) → ∃ pools, m'.repository = .shelf pools
  transfers : m.ledger.transfers <+: m'.ledger.transfers
  issues : ∀ account denom, m.ledger.issues account denom → m'.ledger.issues account denom

/-- A rollback brings the ledger back if it is one of the parts. -/
theorem ledger_rolledBack (m m₁ : Market) (parts : List Part) :
    (m₁.rolledBack (parts.map m.save)).ledger =
      if .ledger ∈ parts then m₁.ledger.restore m.ledger.save else m₁.ledger := by
  show (((parts.map m.save)).foldl restore m₁).ledger = _
  induction parts generalizing m₁ with
  | nil => rfl
  | cons part parts ih =>
    rw [List.map_cons, List.foldl_cons, ih]
    cases part with
    | repository => simp [save, restore]
    | ledger =>
      simp only [save, restore, List.mem_cons, true_or, if_true, Ledger.restore_restore, ite_self]

/-- A rollback brings the repository back if it is one of the parts. -/
theorem repository_rolledBack (m m₁ : Market) (parts : List Part) :
    (m₁.rolledBack (parts.map m.save)).repository =
      if .repository ∈ parts then m₁.repository.restore m.repository else m₁.repository := by
  show (((parts.map m.save)).foldl restore m₁).repository = _
  induction parts generalizing m₁ with
  | nil => rfl
  | cons part parts ih =>
    rw [List.map_cons, List.foldl_cons, ih]
    cases part with
    | repository =>
      simp only [save, restore, List.mem_cons, true_or, if_true, Repository.restore_restore, ite_self]
    | ledger => simp [save, restore]

namespace Grown

theorem refl (m : Market) : Grown m m := ⟨id, List.prefix_refl _, fun _ _ => id⟩

/-- Growing twice is growing. -/
theorem trans (h : Grown m m₁) (h' : Grown m₁ m') : Grown m m' :=
  ⟨h'.shelved ∘ h.shelved, h.transfers.trans h'.transfers, fun a d => h'.issues a d ∘ h.issues a d⟩

/-- A ledger that has grown is brought back but for its register. -/
theorem restore_ledger (h : Grown m m₁) :
    m₁.ledger.restore m.ledger.save = { m.ledger with issuers := m₁.ledger.issuers } := by
  rw [Ledger.restore, Ledger.save, ← List.prefix_iff_eq_take.mp h.transfers]

/-- A shelf of a market that has grown is brought back from its copy. -/
theorem restore_repository (h : Grown m m₁) {pools : Table Int Pool}
    (hshelf : m.repository = .shelf pools) : m₁.repository.restore m.repository = m.repository := by
  obtain ⟨pools', hshelf'⟩ := h.shelved ⟨pools, hshelf⟩
  rw [hshelf']
  rfl

/-- A market that is rolled back to where it grew from has not shrunk below it. -/
theorem rolledBack (h : Grown m m₁) (parts : List Part) :
    Grown m (m₁.rolledBack (parts.map m.save)) where
  shelved := by
    rintro ⟨pools, hshelf⟩
    rw [repository_rolledBack]
    split
    · exact ⟨pools, (h.restore_repository hshelf).trans hshelf⟩
    · exact h.shelved ⟨pools, hshelf⟩
  transfers := by
    rw [ledger_rolledBack]
    split
    · rw [h.restore_ledger]
    · exact h.transfers
  issues := by
    rw [ledger_rolledBack]
    split
    · exact h.issues
    · exact h.issues

end Grown

/-- What making a transfer answers and leaves. -/
theorem Call.run_transfer (t : Transfer) (m : Market) :
    (Call.transfer t).run m = match m.ledger.admit? t with
      | .ok () => (.ok (), { m with ledger := m.ledger.moved t })
      | .error f => (.error f, m) := by
  simp only [Call.run, onLedger, Ledger.transfer, Action.bind_apply, Action.look, Action.decide,
    Action.change]
  rcases m.ledger.admit? t with _ | _ <;> rfl

theorem Call.answer_transfer (t : Transfer) (m : Market) :
    ((Call.transfer t).run m).1 = m.ledger.admit? t := by
  rw [run_transfer]
  rcases m.ledger.admit? t with _ | _ <;> rfl

/-- No call takes anything away that a copy would have to bring back. -/
theorem Call.grown (c : Call α) (m : Market) : Grown m (c.run m).2 := by
  cases c with
  | store p =>
    refine ⟨?_, List.prefix_refl _, fun _ _ => id⟩
    rintro ⟨pools, hshelf⟩
    simp only [Call.run, onRepository, hshelf, Repository.store]
    exact ⟨_, rfl⟩
  | load => exact .refl m
  | contains => exact .refl m
  | mint => exact ⟨id, List.prefix_refl _, fun _ _ => id⟩
  | register account denom =>
    refine ⟨id, List.prefix_refl _, ?_⟩
    intro a d h
    simp only [Call.run, onLedger, Action.change, Ledger.register, Ledger.issues, List.contains_cons,
      Bool.or_eq_true]
    exact .inr h
  | transfer t =>
    rw [Call.run_transfer]
    rcases m.ledger.admit? t with _ | _
    · exact .refl m
    · exact ⟨id, List.prefix_append _ _, fun _ _ => id⟩
  | balance => exact .refl m
  | history => exact .refl m

/-- **A block only adds** to the history and to the register. -/
theorem Block.grown (hx : Block allowed x) (m : Market) : Grown m (x m).2 :=
  hx.keeps Grown.refl (fun _ _ _ => Grown.trans) (fun _ c _ => c.grown)
    (fun _ _ parts h => h.rolledBack parts) m

/-! ## Markets that look the same -/

/-- Two markets of which every call reads the same. -/
structure Alike (m m' : Market) : Prop where
  repository : m'.repository = m.repository
  balances : m'.ledger.balances = m.ledger.balances
  transfers : m'.ledger.transfers = m.ledger.transfers
  issues : ∀ account denom, m'.ledger.issues account denom = m.ledger.issues account denom

namespace Alike

theorem held (h : Alike m m') (account denom : String) :
    m'.ledger.held account denom = m.ledger.held account denom := by
  rw [Ledger.held, Ledger.held, h.balances]

/-- Markets that look the same admit the same transfers. -/
theorem admit? (h : Alike m m') (t : Transfer) : m'.ledger.admit? t = m.ledger.admit? t := by
  rw [Ledger.admit?, Ledger.admit?, h.issues, Ledger.balance, Ledger.balance, h.held]

/-- Markets that look the same do so when they are brought back by the same copies. -/
theorem rolledBack (h : Alike m m') (parts : List Part) (h₁ : Alike m₁ m₁') :
    Alike (m₁.rolledBack (parts.map m.save)) (m₁'.rolledBack (parts.map m'.save)) := by
  have hledger : m'.ledger.save = m.ledger.save := by
    rw [Ledger.save, Ledger.save, h.balances, h.transfers]
  refine ⟨?_, ?_, ?_, ?_⟩
  · rw [repository_rolledBack, repository_rolledBack, h.repository, h₁.repository]
  · rw [ledger_rolledBack, ledger_rolledBack, hledger]
    split
    · rfl
    · exact h₁.balances
  · rw [ledger_rolledBack, ledger_rolledBack, hledger]
    split
    · rw [Ledger.restore, Ledger.restore, h₁.transfers]
    · exact h₁.transfers
  · intro account denom
    rw [ledger_rolledBack, ledger_rolledBack]
    split
    · exact h₁.issues account denom
    · exact h₁.issues account denom

end Alike

/-- A call is answered alike by markets that look the same, which go on looking the same. -/
theorem Call.alike (c : Call α) (h : Alike m m') :
    (c.run m').1 = (c.run m).1 ∧ Alike (c.run m).2 (c.run m').2 := by
  cases c with
  | store p =>
    simp only [Call.run, onRepository, h.repository]
    exact ⟨trivial, rfl, h.balances, h.transfers, h.issues⟩
  | load pool =>
    refine ⟨?_, h⟩
    simp only [Call.run, onRepository, h.repository]
  | contains pool =>
    refine ⟨?_, h⟩
    simp only [Call.run, onRepository, h.repository]
  | mint account coin =>
    refine ⟨rfl, h.repository, ?_, h.transfers, h.issues⟩
    simp only [Call.run, onLedger, Action.change, Ledger.mint, Ledger.credit, h.balances, h.held]
  | register account denom =>
    refine ⟨rfl, h.repository, h.balances, h.transfers, ?_⟩
    intro a d
    have hissues := h.issues a d
    simp only [Ledger.issues] at hissues
    simp only [Call.run, onLedger, Action.change, Ledger.register, Ledger.issues, List.contains_cons,
      hissues]
  | transfer t =>
    rw [Call.run_transfer, Call.run_transfer, h.admit?]
    rcases m.ledger.admit? t with _ | _
    · exact ⟨rfl, h⟩
    · refine ⟨rfl, h.repository, ?_, ?_, h.issues⟩
      · simp only [Ledger.moved, Ledger.credit, Ledger.held, h.balances]
      · rw [Ledger.transfers_moved, Ledger.transfers_moved, h.transfers]
  | balance account denom =>
    refine ⟨?_, h⟩
    simp only [Call.run, onLedger, Ledger.balance, h.held]
  | history =>
    refine ⟨?_, h⟩
    simp only [Call.run, onLedger, h.transfers]

/-- **Every block answers the same** on markets that look the same, and leaves them so. -/
theorem Block.alike (hx : Block allowed x) (h : Alike m m') :
    (x m').1 = (x m).1 ∧ Alike (x m).2 (x m').2 := by
  induction hx generalizing m m' with
  | answer a => exact ⟨rfl, h⟩
  | fail f => exact ⟨rfl, h⟩
  | call c _ => exact c.alike h
  | @andThen _ _ x f first rest ihfirst ihrest =>
    obtain ⟨hanswer, hleft⟩ := ihfirst h
    rw [Action.bind_apply, Action.bind_apply]
    rcases hx : x m with ⟨_ | a, m₁⟩ <;> rcases hx' : x m' with ⟨_ | a', m₁'⟩ <;>
      rw [hx, hx'] at hanswer hleft <;> cases hanswer
    · exact ⟨rfl, hleft⟩
    · exact ihrest a hleft
  | @caught _ x body ih =>
    obtain ⟨hanswer, hleft⟩ := ih h
    exact ⟨congrArg Except.ok hanswer, hleft⟩
  | @transaction _ x parts body ih =>
    obtain ⟨hanswer, hleft⟩ := ih h
    unfold Market.transaction
    rcases hx : x m with ⟨_ | a, m₁⟩ <;> rcases hx' : x m' with ⟨_ | a', m₁'⟩ <;>
      rw [hx, hx'] at hanswer hleft <;> cases hanswer
    · exact ⟨rfl, h.rolledBack parts hleft⟩
    · exact ⟨rfl, hleft⟩

/-! ## Blocks that were refused -/

/-- **A block that was refused in a transaction** has left the pools, the balances and the history as they
were.  That it has not happened shows in every later block exactly if it registered no account as an
issuer that was not one before. -/
theorem transaction_eq_error {pools : Table Int Pool} (hshelf : m.repository = .shelf pools)
    (hx : Block anyCall x) {f : Failure} (h : x m = (.error f, m₁)) :
    ∃ m', transaction [.repository, .ledger] x m = (.error f, m') ∧
      m'.repository = m.repository ∧
      m'.ledger = { m.ledger with issuers := m₁.ledger.issuers } ∧
      ((∀ (β : Type) (y : Action Market β), Block anyCall y → (y m').1 = (y m).1) ↔
        ∀ account denom, m₁.ledger.issues account denom → m.ledger.issues account denom) := by
  have hgrown := hx.grown m
  rw [h] at hgrown
  have htransaction : transaction [.repository, .ledger] x m =
      (.error f, m₁.rolledBack ([.repository, .ledger].map m.save)) := by
    rw [transaction, h]
  have hrepository : (m₁.rolledBack ([.repository, .ledger].map m.save)).repository = m.repository :=
    (repository_rolledBack m m₁ _).trans (hgrown.restore_repository hshelf)
  have hledger : (m₁.rolledBack ([.repository, .ledger].map m.save)).ledger =
      { m.ledger with issuers := m₁.ledger.issuers } :=
    (ledger_rolledBack m m₁ _).trans hgrown.restore_ledger
  refine ⟨_, htransaction, hrepository, hledger, ?_, ?_⟩
  · -- an issuer of the block can send, afterwards, one unit more than it has
    intro hsame account denom hissues
    by_contra hnew
    obtain ⟨amount, hpos, hshort⟩ : ∃ amount, 0 ≤ amount ∧ ¬ amount ≤ m.ledger.held account denom :=
      ⟨max 0 (m.ledger.held account denom + 1), le_max_left _ _, by omega⟩
    have hanswer := hsame Unit _ (.call (.transfer ⟨account, account, ⟨denom, ⟨amount⟩⟩⟩) trivial)
    rw [Call.answer_transfer, Call.answer_transfer, hledger] at hanswer
    have hadmitted := hanswer.symm.trans (Ledger.admit?_eq_ok.mpr ⟨hpos, .inl hissues⟩)
    rcases (Ledger.admit?_eq_ok.mp hadmitted).2 with hissuer | henough
    · exact hnew hissuer
    · exact hshort henough
  · intro hold β y hy
    refine (hy.alike ⟨hrepository, ?_, ?_, ?_⟩).1
    · rw [hledger]
    · rw [hledger]
    · intro account denom
      rw [hledger, Bool.eq_iff_iff]
      exact ⟨hold account denom, hgrown.issues account denom⟩

/-- Coins are minted and a pool is stored, and in between a transfer is tried and taken back; in the end
all of it is refused. -/
def trying : Action Market Unit := do
  (Call.mint "alice" ⟨"a", .ofInt 5⟩).run
  let _ ← (transaction [.ledger] do
    (Call.transfer ⟨"alice", "bob", ⟨"a", .ofInt 2⟩⟩).run
    Action.fail (α := Unit) (.raised "taken back")).outcome
  (Call.store { evenPool with id := 2 }).run
  Action.fail (.raised "refused")

/-- Nobody sees that `trying` was run. -/
theorem trying_eq_error : ∃ m',
    transaction [.repository, .ledger] trying (keeping [evenPool] evenLedger none) =
      (.error (.raised "refused"), m') ∧
    ∀ (β : Type) (y : Action Market β), Block anyCall y →
      (y m').1 = (y (keeping [evenPool] evenLedger none)).1 := by
  have hblock : Block anyCall trying := by
    refine .andThen (.call _ trivial) fun _ => .andThen (.caught ?_) fun _ => ?_
    · exact .transaction _ (.andThen (.call _ trivial) fun _ => .fail _)
    · exact .andThen (.call _ trivial) fun _ => .fail _
  have hanswer : (trying (keeping [evenPool] evenLedger none)).1 = .error (.raised "refused") := by
    decide +kernel
  have hissuers : (trying (keeping [evenPool] evenLedger none)).2.ledger.issuers =
      evenLedger.issuers := by decide +kernel
  rcases htrying : trying (keeping [evenPool] evenLedger none) with ⟨answer, m₁⟩
  rw [htrying] at hanswer hissuers
  subst hanswer
  obtain ⟨m', htransaction, _, _, hsame⟩ := transaction_eq_error rfl hblock htrying
  refine ⟨m', htransaction, hsame.mpr ?_⟩
  intro account denom h
  rwa [Ledger.issues, hissuers] at h

/-- An account becomes an issuer, and then that is refused. -/
def registering : Action Market Unit := do
  (Call.register "alice" "x").run
  Action.fail (.raised "refused")

/-- What somebody who holds nothing would send. -/
def unfunded : Transfer := ⟨"alice", "bob", ⟨"x", .ofInt 5⟩⟩

/-- After `registering` was refused and rolled back the ledger admits a transfer that it would not have
admitted before. -/
theorem registering_shows : Block anyCall registering ∧ ∃ m',
    transaction [.repository, .ledger] registering (keeping [] .empty none) =
      (.error (.raised "refused"), m') ∧
    ((Call.transfer unfunded).run (keeping [] .empty none)).1 =
      .error (.shortOfFunds "alice" .zero ⟨"x", .ofInt 5⟩) ∧
    ((Call.transfer unfunded).run m').1 = .ok () := by
  refine ⟨.andThen (.call _ trivial) fun _ => .fail _, _, rfl, ?_, ?_⟩ <;> decide +kernel

end Market

end WeightedMarket
