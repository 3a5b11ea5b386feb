/-
  Decisions that were answered.

  A decision is an `Except Failure`.  Every rule of the market is a chain of decisions, so what a
  successful operation has checked is read off its answer by taking the chain apart: a sequence
  answered if both halves did (`bind_eq_ok`), a walk over a list if every step did.

  In the same way what a chain may refuse with is what its links may refuse with (`RefusesOnly`).
-/
import WeightedMarket.Pool

namespace WeightedMarket.Decision

variable {α β : Type}

/-- A sequence answered exactly if its first half answered and the rest answered after it. -/
theorem bind_eq_ok {x : Except Failure α} {f : α → Except Failure β} {b : β} :
    (x >>= f) = .ok b ↔ ∃ a, x = .ok a ∧ f a = .ok b := by
  cases x with
  | error e => simp [bind, Except.bind]
  | ok a => simp [bind, Except.bind]

/-- A decision that was answered, and then the rest. -/
theorem ok_bind (a : α) (f : α → Except Failure β) : (Except.ok a >>= f) = f a := rfl

@[simp] theorem pure_eq_ok {a b : α} : (pure a : Except Failure α) = .ok b ↔ a = b := by
  simp [pure, Except.pure]

/-- A refusal is no answer. -/
@[simp] theorem refuse_ne_ok {f : Failure} {a : α} : (refuse f : Except Failure α) ≠ .ok a := by
  simp [refuse]

/-- Only whether a decision was answered counts when its answer is dropped. -/
theorem discard_eq_ok {x : Except Failure α} : discard x = .ok () ↔ ∃ a, x = .ok a := by
  cases x with
  | error e => simp [discard, Functor.mapConst, Except.map]
  | ok a => simp [discard, Functor.mapConst, Except.map]

/-- A walk over a list answered exactly if every step did. -/
theorem forM_eq_ok {f : α → Except Failure Unit} {l : List α} :
    l.forM f = .ok () ↔ ∀ a ∈ l, f a = .ok () := by
  induction l with
  | nil => simp [List.forM, pure, Except.pure]
  | cons a l ih =>
    have step : (a :: l).forM f = (f a >>= fun _ => l.forM f) := rfl
    rw [step, bind_eq_ok, List.forall_mem_cons, ← ih]
    exact ⟨fun ⟨_, h, h'⟩ => ⟨h, h'⟩, fun ⟨h, h'⟩ => ⟨(), h, h'⟩⟩

/-- A walk whose steps can only answer `g` answered with `g` everywhere. -/
theorem mapM_eq_ok {f : α → Except Failure β} {g : α → β} (hg : ∀ a b, f a = .ok b → b = g a)
    {l : List α} {l' : List β} (h : l.mapM f = .ok l') :
    l' = l.map g ∧ ∀ a ∈ l, f a = .ok (g a) := by
  induction l generalizing l' with
  | nil =>
    rw [List.mapM_nil, pure_eq_ok] at h
    exact ⟨h.symm, by simp⟩
  | cons a l ih =>
    rw [List.mapM_cons, bind_eq_ok] at h
    obtain ⟨b, hb, h⟩ := h
    rw [bind_eq_ok] at h
    obtain ⟨bs, hbs, h⟩ := h
    rw [pure_eq_ok] at h
    obtain ⟨rfl, hall⟩ := ih hbs
    obtain rfl := hg a b hb
    exact ⟨h.symm, List.forall_mem_cons.mpr ⟨hb, hall⟩⟩

/-- A walk whose steps all answer answers. -/
theorem mapM_of_ok {f : α → Except Failure β} {g : α → β} {l : List α}
    (h : ∀ a ∈ l, f a = .ok (g a)) : l.mapM f = .ok (l.map g) := by
  induction l with
  | nil => rfl
  | cons a l ih =>
    rw [List.forall_mem_cons] at h
    rw [List.mapM_cons, h.1, ok_bind, ih h.2]
    rfl

/-- A walk that answered has one answer for every step, and no others. -/
theorem mapM_answers {f : α → Except Failure β} {l : List α} {l' : List β} (h : l.mapM f = .ok l') :
    (∀ b ∈ l', ∃ a ∈ l, f a = .ok b) ∧ ∀ a ∈ l, ∃ b ∈ l', f a = .ok b := by
  induction l generalizing l' with
  | nil =>
    rw [List.mapM_nil, pure_eq_ok] at h
    obtain rfl := h
    exact ⟨nofun, nofun⟩
  | cons a l ih =>
    rw [List.mapM_cons, bind_eq_ok] at h
    obtain ⟨b, hb, h⟩ := h
    rw [bind_eq_ok] at h
    obtain ⟨bs, hbs, h⟩ := h
    rw [pure_eq_ok] at h
    obtain rfl := h
    obtain ⟨hanswers, hsteps⟩ := ih hbs
    constructor
    · refine List.forall_mem_cons.mpr ⟨⟨a, List.mem_cons_self, hb⟩, fun c hc => ?_⟩
      obtain ⟨e, he, hec⟩ := hanswers c hc
      exact ⟨e, List.mem_cons_of_mem a he, hec⟩
    · refine List.forall_mem_cons.mpr ⟨⟨b, List.mem_cons_self, hb⟩, fun e he => ?_⟩
      obtain ⟨c, hc, hec⟩ := hsteps e he
      exact ⟨c, List.mem_cons_of_mem b hc, hec⟩

/-- What every step keeps of its element, a walk that answered keeps of the whole list, in its order. -/
theorem mapM_map_eq {γ : Type} {f : α → Except Failure β} {g : α → γ} {h : β → γ}
    (hkept : ∀ a b, f a = .ok b → h b = g a) {l : List α} {l' : List β} (hwalk : l.mapM f = .ok l') :
    l'.map h = l.map g := by
  induction l generalizing l' with
  | nil =>
    rw [List.mapM_nil, pure_eq_ok] at hwalk
    rw [← hwalk]
    rfl
  | cons a l ih =>
    rw [List.mapM_cons, bind_eq_ok] at hwalk
    obtain ⟨b, hb, hwalk⟩ := hwalk
    rw [bind_eq_ok] at hwalk
    obtain ⟨bs, hbs, hwalk⟩ := hwalk
    rw [pure_eq_ok] at hwalk
    rw [← hwalk, List.map_cons, List.map_cons, hkept a b hb, ih hbs]

/-! ## Numbers in messages -/

/-- A number is let through exactly if it can be written. -/
@[simp] theorem requireWritable_eq_ok {n : Int} : requireWritable n = .ok () ↔ Text.IsWritable n :=
  require_eq_ok.trans decide_eq_true_iff

/-- A number that is too long is refused as such. -/
theorem requireWritable_eq_error {n : Int} (h : ¬ Text.IsWritable n) :
    requireWritable n = .error .longInteger := by
  rw [requireWritable, decide_eq_false h]
  rfl

/-- A failure that shows neither amounts nor numbers is raised as it is. -/
theorem settled_of_plain {f : Failure} (hshown : f.shown = []) (hnumbers : f.numbers = []) :
    f.settled = f := by
  simp [Failure.settled, hshown, hnumbers]

/-- A failure that shows the number of a pool and no amount is raised if the number can be written. -/
theorem settled_eq_ite {f : Failure} {pool : Int} (hshown : f.shown = []) (hnumbers : f.numbers = [pool]) :
    f.settled = if Text.IsWritable pool then f else .longInteger := by
  simp [Failure.settled, hshown, hnumbers]

/-- What names a pool that can be named is raised as it is. -/
theorem settled_of_isWritable {f : Failure} {pool : Int} (hshown : f.shown = [])
    (hnumbers : f.numbers = [pool]) (h : Text.IsWritable pool) : f.settled = f :=
  (settled_eq_ite hshown hnumbers).trans (if_pos h)

/-- What names a pool that cannot be named objects to its name. -/
theorem settled_of_not_isWritable {f : Failure} {pool : Int} (hshown : f.shown = [])
    (hnumbers : f.numbers = [pool]) (h : ¬ Text.IsWritable pool) : f.settled = .longInteger :=
  (settled_eq_ite hshown hnumbers).trans (if_neg h)

/-! ## Refusals -/

/-- Whatever the decision refuses with is of a kind. -/
def RefusesOnly (P : Failure → Prop) (x : Except Failure α) : Prop := ∀ f, x = .error f → P f

section

variable {P : Failure → Prop}

/-- What a decision may refuse with can be said in weaker words. -/
theorem RefusesOnly.mono {Q : Failure → Prop} {x : Except Failure α} (h : RefusesOnly P x)
    (hPQ : ∀ f, P f → Q f) : RefusesOnly Q x := fun f hf => hPQ f (h f hf)

theorem refusesOnly_ok (a : α) : RefusesOnly P (.ok a) := nofun

theorem refusesOnly_pure (a : α) : RefusesOnly P (pure a : Except Failure α) := nofun

/-- A refusal is with its cause, as far as the message of that can be written. -/
theorem refusesOnly_refuse {f : Failure} (h : P f.settled) :
    RefusesOnly P (refuse f : Except Failure α) := by
  intro g hg
  obtain rfl := Except.error.inj hg
  exact h

/-- A check refuses with its cause, and only if its condition does not hold. -/
theorem refusesOnly_require {c : Bool} {f : Failure} (h : c = false → P f.settled) :
    RefusesOnly P (require c f) := by
  cases c with
  | true => exact refusesOnly_ok ()
  | false => exact refusesOnly_refuse (h rfl)

/-- A sequence refuses with what its first half does, or with what the rest does after an answer of it. -/
theorem refusesOnly_bind {x : Except Failure α} {f : α → Except Failure β} (hx : RefusesOnly P x)
    (hf : ∀ a, x = .ok a → RefusesOnly P (f a)) : RefusesOnly P (x >>= f) := by
  cases x with
  | error e =>
    intro g hg
    obtain rfl := Except.error.inj hg
    exact hx e rfl
  | ok a => exact hf a rfl

theorem refusesOnly_discard {x : Except Failure α} (h : RefusesOnly P x) :
    RefusesOnly P (discard x) := by
  cases x with
  | error e =>
    intro g hg
    obtain rfl := Except.error.inj hg
    exact h e rfl
  | ok a => exact refusesOnly_ok ()

/-- A walk over a list refuses with what some step of it does. -/
theorem refusesOnly_forM {f : α → Except Failure Unit} {l : List α}
    (h : ∀ a ∈ l, RefusesOnly P (f a)) : RefusesOnly P (l.forM f) := by
  induction l with
  | nil => exact refusesOnly_pure ()
  | cons a l ih =>
    rw [List.forall_mem_cons] at h
    exact refusesOnly_bind h.1 fun _ _ => ih h.2

/-- A walk that collects answers refuses with what some step of it does. -/
theorem refusesOnly_mapM {f : α → Except Failure β} {l : List α}
    (h : ∀ a ∈ l, RefusesOnly P (f a)) : RefusesOnly P (l.mapM f) := by
  induction l with
  | nil => exact refusesOnly_pure []
  | cons a l ih =>
    rw [List.forall_mem_cons] at h
    rw [List.mapM_cons]
    exact refusesOnly_bind h.1 fun _ _ => refusesOnly_bind (ih h.2) fun _ _ => refusesOnly_pure _

end

end WeightedMarket.Decision

namespace WeightedMarket.Fixed

/-- A division that was answered is the quotient. -/
theorem divide_eq_quo {a b c : Fixed} (h : a.divide b = .ok c) : a.quo b = c := by
  unfold divide at h
  split at h
  · exact absurd h Decision.refuse_ne_ok
  · exact Except.ok.inj h

/-- A truncation that was answered is the truncated amount. -/
theorem truncate_eq_truncateTo {a b : Fixed} {decimals : Int} (h : a.truncate decimals = .ok b) :
    b = a.truncateTo decimals.toNat := by
  unfold truncate precision at h
  split at h
  · exact (Except.ok.inj h).symm
  · cases h

/-- A raised amount is answered for the precisions that exist. -/
theorem ceil_eq_ceilTo {a b : Fixed} {decimals : Int} (h : a.ceil decimals = .ok b) :
    IsPrecision decimals ∧ b = a.ceilTo decimals.toNat := by
  unfold ceil precision at h
  split at h
  · next hprecision => exact ⟨hprecision, (Except.ok.inj h).symm⟩
  · cases h

/-! ### Precisions that exist -/

variable {decimals : Int}

theorem precision_of_isPrecision (h : IsPrecision decimals) : precision decimals = .ok decimals.toNat :=
  if_pos h

/-- An amount is truncated to every precision that exists. -/
theorem truncate_of_isPrecision (h : IsPrecision decimals) (a : Fixed) :
    a.truncate decimals = .ok (a.truncateTo decimals.toNat) := by
  rw [truncate, precision_of_isPrecision h]
  rfl

/-- An amount is raised to every precision that exists. -/
theorem ceil_of_isPrecision (h : IsPrecision decimals) (a : Fixed) :
    a.ceil decimals = .ok (a.ceilTo decimals.toNat) := by
  rw [ceil, precision_of_isPrecision h]
  rfl

end WeightedMarket.Fixed
