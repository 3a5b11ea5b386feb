/-
  Which inputs are tried.

  Converging asks the forward direction about one input after the other, and stops at the first whose output
  decides: there is none, or it is enough.  Where the forward direction is a function, the inputs can be
  listed beforehand.  The first output settles the first raise (`firstRaise`), and every later raise is
  ten times the one before, counted from the first input (`candidates`).  So what is answered is the
  first candidate that decides, and what has been asked are the candidates up to it, however the
  outputs rise and fall.

  One attempt is the step (`attempt_asking`), and the induction is on the raises that are left
  (`raiseInput_asking`): the raises by a tenfold bump are those by the bump itself without the first.
-/
import WeightedMarket.Proofs.Planning

namespace WeightedMarket.Converge

open Decision

variable {g : Fixed → Option Fixed} {start want bump c : Fixed} {cs : List Fixed} {decimals : Int}

/-! ## Candidates -/

/-- The first raise: the deficit priced at the rate of the first attempt, whose output counts as one unit
at least, in whole units, and at least one of them. -/
def firstRaise (start want out : Fixed) (decimals : ℕ) : Fixed :=
  (⟨Fixed.unitOf decimals⟩ : Fixed).max
    ((((want - out).mul start).quo (out.max ⟨Fixed.unitOf decimals⟩)).ceilTo decimals)

/-- The inputs that are raised by a bump, by ten times as much, and so on. -/
def raises (start bump : Fixed) (m : ℕ) : List Fixed :=
  (List.range m).map fun i => ⟨start.raw + 10 ^ i * bump.raw⟩

/-- The inputs that may be tried: the first one and, if it has an output, the raised ones. -/
def candidates (g : Fixed → Option Fixed) (start want : Fixed) (decimals m : ℕ) : List Fixed :=
  start :: match g start with
    | none => []
    | some out => raises start (firstRaise start want out decimals) m

/-- The first raise is by the bump; the others are those by a bump ten times as large. -/
theorem raises_succ (start bump : Fixed) (m : ℕ) :
    raises start bump (m + 1) = (start + bump) :: raises start (bump.mul (.ofInt 10)) m := by
  have hlater : ∀ i : ℕ, start.raw + 10 ^ (i + 1) * bump.raw =
      start.raw + 10 ^ i * (bump.mul (.ofInt 10)).raw := by
    intro i
    rw [Fixed.raw_mul_ofInt, pow_succ, Int.mul_assoc, Int.mul_comm bump.raw]
  rw [raises, List.range_succ_eq_map, List.map_cons, List.map_map, pow_zero, Int.one_mul]
  refine congrArg₂ List.cons rfl (List.map_congr_left ?_)
  intro i _
  exact Fixed.ext (hlater i)

/-- Every raise lies above the start. -/
theorem lt_of_mem_raises (hbump : 0 < bump.raw) {m : ℕ} (h : c ∈ raises start bump m) : start < c := by
  obtain ⟨i, _, rfl⟩ := List.mem_map.mp h
  have hraise : 0 < 10 ^ i * bump.raw := Int.mul_pos (Int.pow_pos (by decide)) hbump
  exact Fixed.lt_def.mpr (Int.lt_add_of_pos_right _ hraise)

/-- The raises ascend. -/
theorem pairwise_raises (hbump : 0 < bump.raw) (m : ℕ) : (raises start bump m).Pairwise (· < ·) := by
  refine List.pairwise_map.mpr (List.pairwise_lt_range.imp ?_)
  intro i j hij
  have hpow : (10 : Int) ^ i < 10 ^ j := pow_lt_pow_right₀ (by decide) hij
  exact Fixed.lt_def.mpr (Int.add_lt_add_left (Int.mul_lt_mul_of_pos_right hpow hbump) _)

/-! ## The first raise -/

/-- **The first raise is never refused**, whatever the first output: it is divided by one unit at least. -/
theorem firstBump_eq_firstRaise (h : IsPrecision decimals) (start want out : Fixed) :
    firstBump start want out decimals = .ok (firstRaise start want out decimals.toNat) := by
  have hunit := Fixed.unitOf_pos decimals.toNat
  have hdivisor : (out.max ⟨Fixed.unitOf decimals.toNat⟩).raw ≠ 0 :=
    (Int.lt_of_lt_of_le hunit (Fixed.raw_le_max_right out _)).ne'
  rw [firstBump, unitRaw_of_isPrecision h, ok_bind]
  dsimp only
  rw [Fixed.divide_eq_ok hdivisor, ok_bind, Fixed.ceil_of_isPrecision h, ok_bind]
  rfl

/-- The first raise is a positive amount. -/
theorem firstRaise_pos (h : IsPrecision decimals) (start want out : Fixed) :
    0 < (firstRaise start want out decimals.toNat).raw :=
  Int.lt_of_lt_of_le (Fixed.unitOf_pos _) (firstBump_eq_ok (firstBump_eq_firstRaise h start want out)).1

/-- The candidates ascend, the start before all raises. -/
theorem pairwise_candidates (h : IsPrecision decimals) (g : Fixed → Option Fixed) (start want : Fixed)
    (m : ℕ) : (candidates g start want decimals.toNat m).Pairwise (· < ·) := by
  unfold candidates
  cases g start with
  | none => exact List.pairwise_singleton _ start
  | some out =>
    have hpos := firstRaise_pos h start want out
    exact List.pairwise_cons.mpr ⟨fun c hc => lt_of_mem_raises hpos hc, pairwise_raises hpos m⟩

/-! ## Attempts -/

/-- The output of a candidate decides: there is none, or it is enough. -/
def decides (g : Fixed → Option Fixed) (want c : Fixed) : Bool := (g c).all fun out => decide (want ≤ out)

/-- The first candidate that decides, with its output. -/
def found (g : Fixed → Option Fixed) (want : Fixed) (cs : List Fixed) : Option (Fixed × Fixed) :=
  (cs.find? (decides g want)).bind fun c => (g c).map (Prod.mk c)

/-- The candidates up to the first that decides. -/
def asked (g : Fixed → Option Fixed) (want : Fixed) (cs : List Fixed) : List Fixed :=
  cs.take (cs.findIdx (decides g want) + 1)

/-- A function as forward direction, which writes down what it is asked. -/
def asking (g : Fixed → Option Fixed) (amount : Fixed) : Action (List Fixed) (Option Fixed) :=
  fun log => (.ok (g amount), log ++ [amount])

theorem decides_of_some {out : Fixed} (h : g c = some out) : decides g want c = true ↔ want ≤ out := by
  rw [decides, h, Option.all_some, decide_eq_true_iff]

/-- A candidate is passed over exactly if it answers, and answers too little. -/
theorem decides_eq_false : decides g want c = false ↔ ∃ out, g c = some out ∧ out < want := by
  cases hc : g c with
  | none => simp [decides, hc]
  | some out => simp [decides, hc, Fixed.le_def, Fixed.lt_def]

theorem found_cons_of_decides (h : decides g want c = true) :
    found g want (c :: cs) = (g c).map (Prod.mk c) := by
  rw [found, List.find?_cons_of_pos h]
  rfl

theorem found_cons_of_short (h : decides g want c = false) :
    found g want (c :: cs) = found g want cs := by
  rw [found, List.find?_cons_of_neg (Bool.not_eq_true _ ▸ h)]
  rfl

/-- Nothing is asked after the deciding candidate. -/
theorem asked_cons_of_decides (h : decides g want c = true) : asked g want (c :: cs) = [c] := by
  rw [asked, List.findIdx_cons, h]
  rfl

theorem asked_cons_of_short (h : decides g want c = false) :
    asked g want (c :: cs) = c :: asked g want cs := by
  rw [asked, List.findIdx_cons, h]
  rfl

/-- **What is found** has enough output, and every candidate before it has too little. -/
theorem found_eq_some {out : Fixed} : found g want cs = some (c, out) ↔ ∃ earlier later,
    cs = earlier ++ c :: later ∧ (∀ e ∈ earlier, ∃ o, g e = some o ∧ o < want) ∧
      g c = some out ∧ want ≤ out := by
  constructor
  · intro h
    rw [found, Option.bind_eq_some_iff] at h
    obtain ⟨first, hfirst, h⟩ := h
    obtain ⟨o, hout, heq⟩ := Option.map_eq_some_iff.mp h
    cases heq
    obtain ⟨hdecides, earlier, later, hcs, hbefore⟩ := List.find?_eq_some_iff_append.mp hfirst
    refine ⟨earlier, later, hcs, ?_, hout, (decides_of_some hout).mp hdecides⟩
    intro e he
    have hshort := hbefore e he
    rw [Bool.not_eq_true'] at hshort
    exact decides_eq_false.mp hshort
  · rintro ⟨earlier, later, rfl, hbefore, hout, henough⟩
    have hfirst : (earlier ++ c :: later).find? (decides g want) = some c := by
      refine List.find?_eq_some_iff_append.mpr ⟨(decides_of_some hout).mpr henough, earlier, later, rfl, ?_⟩
      intro e he
      rw [decides_eq_false.mpr (hbefore e he)]
      rfl
    rw [found, hfirst, Option.bind_some, hout]
    rfl

/-- The step lemma. -/
theorem attempt_asking {rest : Fixed → Action (List Fixed) (Option (Fixed × Fixed))} {log : List Fixed}
    (hrest : ∀ out, g c = some out → out < want →
      rest out (log ++ [c]) = (.ok (found g want cs), log ++ [c] ++ asked g want cs)) :
    (do
      match ← asking g c with
      | none => return none
      | some out => if want ≤ out then return some (c, out) else rest out :
        Action (List Fixed) (Option (Fixed × Fixed))) log =
      (.ok (found g want (c :: cs)), log ++ asked g want (c :: cs)) := by
  rw [Action.bind_apply, asking]
  -- either the attempt ends here, or its output falls short and the rest goes on after it
  by_cases hdecides : decides g want c = true
  · rw [found_cons_of_decides hdecides, asked_cons_of_decides hdecides]
    cases hc : g c with
    | none => rfl
    | some out =>
      dsimp only
      rw [if_pos ((decides_of_some hc).mp hdecides)]
      rfl
  · rw [Bool.not_eq_true] at hdecides
    rw [found_cons_of_short hdecides, asked_cons_of_short hdecides]
    obtain ⟨out, hc, hshort⟩ := decides_eq_false.mp hdecides
    have hnot : ¬ want ≤ out := Int.not_le.mpr hshort
    rw [hc]
    dsimp only
    rw [if_neg hnot, hrest out hc hshort, List.append_assoc]
    rfl

/-- The run lemma: the raises that are left are tried until one decides. -/
theorem raiseInput_asking (left : ℕ) (bump : Fixed) (log : List Fixed) :
    raiseInput (asking g) start want left bump log =
      (.ok (found g want (raises start bump left)), log ++ asked g want (raises start bump left)) := by
  induction left generalizing bump log with
  | zero => exact congrArg (Prod.mk _) (List.append_nil log).symm
  | succ left ih =>
    rw [raises_succ]
    exact attempt_asking fun out _ _ => ih _ _

/-- **Converging tries the candidates**, and stops at the first that decides. -/
theorem converge_asking (h : IsPrecision decimals) (g : Fixed → Option Fixed) (start want : Fixed)
    (m : ℕ) (log : List Fixed) :
    converge (asking g) start want decimals m log =
      (.ok (found g want (candidates g start want decimals.toNat m)),
        log ++ asked g want (candidates g start want decimals.toNat m)) := by
  refine attempt_asking fun out hout _ => ?_
  rw [firstBump_eq_firstRaise h, hout]
  exact raiseInput_asking m _ _

/-- **Which inputs are tried, and which is answered.**  The candidates are the first input, the input raised
by whole units of what the first output is short of, and by ten times as much again and again; they
rise.  They are asked in order up to the first without an output or with enough, and no further; that
one is answered exactly if it has enough.  Nothing is ever refused, so nothing is divided by zero. -/
theorem tries_candidates (hdecimals : IsPrecision decimals) (g : Fixed → Option Fixed)
    (start want : Fixed) (m : ℕ) :
    (candidates g start want decimals.toNat m).Pairwise (· < ·) ∧
    (∀ out, g start = some out → ∃ bump,
      firstBump start want out decimals = .ok bump ∧
      bump = firstRaise start want out decimals.toNat ∧
      0 < bump.raw ∧ Fixed.unitOf decimals.toNat ∣ bump.raw ∧
      candidates g start want decimals.toNat m =
        start :: (List.range m).map fun i => ⟨start.raw + 10 ^ i * bump.raw⟩) ∧
    ∃ answer, converge (asking g) start want decimals m [] =
        (.ok answer, (candidates g start want decimals.toNat m).take
          ((candidates g start want decimals.toNat m).findIdx (decides g want) + 1)) ∧
      ∀ c out, answer = some (c, out) ↔ ∃ earlier later,
        candidates g start want decimals.toNat m = earlier ++ c :: later ∧
          (∀ e ∈ earlier, ∃ o, g e = some o ∧ o < want) ∧ g c = some out ∧ want ≤ out := by
  refine ⟨pairwise_candidates hdecimals g start want m, ?raise, ?tried⟩
  case raise =>
    intro out hout
    have hbump := firstBump_eq_firstRaise hdecimals start want out
    refine ⟨_, hbump, rfl, firstRaise_pos hdecimals start want out, (firstBump_eq_ok hbump).2, ?_⟩
    rw [candidates, hout]
    rfl
  case tried =>
    exact ⟨_, converge_asking hdecimals g start want m [], fun c out => found_eq_some⟩

/-! ## Outputs that fall -/

/-- Half of what is sold, but nothing for twelve. -/
def dipping (amount : Fixed) : Option Fixed :=
  if amount = .ofInt 12 then some .zero else some (amount.quo (.ofInt 2))

/-- Ten bring five where six are wanted, which asks for two more.  Twelve bring less than ten did, and
thirty are the first to bring enough. -/
theorem dipping_tries_three : converge (asking dipping) (.ofInt 10) (.ofInt 6) 0 6 [] =
      (.ok (some (.ofInt 30, .ofInt 15)), [.ofInt 10, .ofInt 12, .ofInt 30]) ∧
    (candidates dipping (.ofInt 10) (.ofInt 6) 0 6).Pairwise (· < ·) ∧
    ∃ earlier later, candidates dipping (.ofInt 10) (.ofInt 6) 0 6 = earlier ++ .ofInt 30 :: later ∧
      ∀ e ∈ earlier, ∃ o, dipping e = some o ∧ o < .ofInt 6 := by
  have hrun : converge (asking dipping) (.ofInt 10) (.ofInt 6) 0 6 [] =
      (.ok (some (.ofInt 30, .ofInt 15)), [.ofInt 10, .ofInt 12, .ofInt 30]) := by
    decide +kernel
  obtain ⟨hrising, _, answer, hanswer, hfound⟩ :=
    tries_candidates (show IsPrecision 0 by decide) dipping (.ofInt 10) (.ofInt 6) 6
  have hsome : answer = some (.ofInt 30, .ofInt 15) :=
    Except.ok.inj (congrArg Prod.fst (hanswer.symm.trans hrun))
  obtain ⟨earlier, later, hcandidates, hbefore, _⟩ := (hfound _ _).mp hsome
  exact ⟨hrun, hrising, earlier, later, hcandidates, hbefore⟩

end WeightedMarket.Converge
