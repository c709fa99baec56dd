/-! Products of unit symbols raised to integer exponents. The list of factors is canonical, so two
units are equal exactly when they give every symbol the same exponent. -/

namespace StructuralModel

/-- An exponent is a signed number of 32 bits. -/
def FitsExponent (n : Int) : Prop :=
  -2147483648 ≤ n ∧ n < 2147483648

instance (n : Int) : Decidable (FitsExponent n) :=
  inferInstanceAs (Decidable (_ ∧ _))

abbrev Factor := String × Int

/-- Each symbol stands once, in ascending order, with an exponent that is not zero. -/
structure Canonical (factors : List Factor) : Prop where
  ascending : factors.Pairwise fun a b => a.1 < b.1
  nonzero : ∀ factor ∈ factors, factor.2 ≠ 0
  fits : ∀ factor ∈ factors, FitsExponent factor.2

structure PhysicalUnit where
  factors : List Factor
  canonical : Canonical factors

namespace PhysicalUnit

instance : DecidableEq PhysicalUnit := fun a b =>
  decidable_of_iff (a.factors = b.factors) ⟨fun same => by cases a; cases b; simp_all, fun same => same ▸ rfl⟩

def dimensionless : PhysicalUnit where
  factors := []
  canonical := ⟨.nil, by simp, by simp⟩

instance : Inhabited PhysicalUnit := ⟨dimensionless⟩

def symbol (name : String) : PhysicalUnit where
  factors := [(name, 1)]
  canonical := ⟨by simp, by simp, by simp [FitsExponent]⟩

def isDimensionless (u : PhysicalUnit) : Bool :=
  u.factors.isEmpty

/-- The exponent of a symbol in a list of factors, zero where the symbol does not occur. -/
def exponentIn (name : String) : List Factor → Int
  | [] => 0
  | (other, n) :: rest => if other = name then n else exponentIn name rest

def exponent (u : PhysicalUnit) (name : String) : Int :=
  exponentIn name u.factors

/-- Adds `n` to the exponent of a symbol; a factor whose exponent becomes zero is dropped. -/
def addExponent (name : String) (n : Int) : List Factor → List Factor
  | [] => if n = 0 then [] else [(name, n)]
  | (other, k) :: rest =>
    if other < name then (other, k) :: addExponent name n rest
    else if other = name then if k + n = 0 then rest else (other, k + n) :: rest
    else if n = 0 then (other, k) :: rest
    else (name, n) :: (other, k) :: rest

theorem exponentIn_eq_zero {name : String} {factors : List Factor}
    (absent : ∀ factor ∈ factors, factor.1 ≠ name) : exponentIn name factors = 0 := by
  induction factors with
  | nil => rfl
  | cons factor rest ih =>
    rw [exponentIn, if_neg (absent _ (by simp))]
    exact ih fun other member => absent _ (by simp [member])

/-- Symbols ascend, so one that comes before the first of them is not among them. -/
theorem exponentIn_eq_zero_of_lt {name : String} {factor : Factor} {rest : List Factor}
    (ascending : (factor :: rest).Pairwise fun a b => a.1 < b.1) (less : name < factor.1) :
    exponentIn name (factor :: rest) = 0 := by
  refine exponentIn_eq_zero fun other member same => ?_
  rcases List.mem_cons.mp member with rfl | member
  · exact String.lt_irrefl _ (same ▸ less)
  · have after := (List.pairwise_cons.mp ascending).1 other member
    exact String.lt_irrefl _ (String.lt_trans less (same ▸ after))

/-- Every factor of the sum is an old one or that of the symbol itself. -/
theorem mem_addExponent {name : String} {n : Int} {factors : List Factor}
    (ascending : factors.Pairwise fun a b => a.1 < b.1) {factor : Factor}
    (member : factor ∈ addExponent name n factors) :
    factor ∈ factors ∨ factor = (name, exponentIn name factors + n) ∧ exponentIn name factors + n ≠ 0 := by
  induction factors with
  | nil =>
    simp only [addExponent] at member
    split at member
    · simp at member
    next nonzero => simp_all [exponentIn]
  | cons head rest ih =>
    obtain ⟨other, k⟩ := head
    rw [List.pairwise_cons] at ascending
    rw [addExponent] at member
    split at member
    next less =>
      rcases List.mem_cons.mp member with rfl | member
      · exact .inl (by simp)
      have distinct : other ≠ name := fun same => String.lt_irrefl _ (same ▸ less)
      rw [exponentIn, if_neg distinct]
      exact (ih ascending.2 member).imp_left (List.mem_cons_of_mem _)
    next notLess =>
      split at member
      next same =>
        subst same
        rw [exponentIn, if_pos rfl]
        split at member
        · exact .inl (List.mem_cons_of_mem _ member)
        next nonzero =>
          rcases List.mem_cons.mp member with rfl | member
          · exact .inr ⟨rfl, nonzero⟩
          · exact .inl (List.mem_cons_of_mem _ member)
      next distinct =>
        split at member
        · exact .inl member
        next nonzero =>
          rcases List.mem_cons.mp member with rfl | member
          · have less : name < other :=
              Std.lt_of_le_of_ne (String.not_lt.mp notLess) (Ne.symm distinct)
            have absent := exponentIn_eq_zero_of_lt (List.pairwise_cons.mpr ascending) less
            exact .inr ⟨by rw [absent, Int.zero_add], by rwa [absent, Int.zero_add]⟩
          · exact .inl member

theorem ascending_addExponent {name : String} {n : Int} {factors : List Factor}
    (ascending : factors.Pairwise fun a b => a.1 < b.1) :
    (addExponent name n factors).Pairwise fun a b => a.1 < b.1 := by
  induction factors with
  | nil => rw [addExponent]; split <;> simp
  | cons head rest ih =>
    obtain ⟨other, k⟩ := head
    have sorted := ascending
    rw [List.pairwise_cons] at ascending
    rw [addExponent]
    split
    next less =>
      refine List.pairwise_cons.mpr ⟨fun factor member => ?_, ih ascending.2⟩
      rcases mem_addExponent ascending.2 member with member | ⟨rfl, _⟩
      · exact ascending.1 _ member
      · exact less
    next notLess =>
      split
      · split
        · exact ascending.2
        · exact List.pairwise_cons.mpr ascending
      next distinct =>
        split
        · exact sorted
        · have less : name < other :=
            Std.lt_of_le_of_ne (String.not_lt.mp notLess) (Ne.symm distinct)
          refine List.pairwise_cons.mpr ⟨fun factor member => ?_, sorted⟩
          rcases List.mem_cons.mp member with rfl | member
          · exact less
          · exact String.lt_trans less (ascending.1 _ member)

theorem canonical_addExponent {name : String} {n : Int} {factors : List Factor}
    (canonical : Canonical factors) (fits : FitsExponent (exponentIn name factors + n)) :
    Canonical (addExponent name n factors) where
  ascending := ascending_addExponent canonical.ascending
  nonzero factor member := by
    rcases mem_addExponent canonical.ascending member with old | ⟨rfl, nonzero⟩
    · exact canonical.nonzero _ old
    · exact nonzero
  fits factor member := by
    rcases mem_addExponent canonical.ascending member with old | ⟨rfl, _⟩
    · exact canonical.fits _ old
    · exact fits

/-- Multiplies by a symbol raised to `n`, unless the total exponent leaves the range. -/
def times? (u : PhysicalUnit) (name : String) (n : Int) : Option PhysicalUnit :=
  if fits : FitsExponent (exponentIn name u.factors + n) then
    some ⟨addExponent name n u.factors, canonical_addExponent u.canonical fits⟩
  else none

/-- The product, unless an exponent leaves the range. -/
def mul? (a b : PhysicalUnit) : Option PhysicalUnit :=
  b.factors.foldlM (fun u factor => u.times? factor.1 factor.2) a

/-- The quotient, unless an exponent leaves the range; the negated exponents of the divisor have to
fit as well. -/
def div? (a b : PhysicalUnit) : Option PhysicalUnit :=
  b.factors.foldlM
    (fun u factor => if FitsExponent (-factor.2) then u.times? factor.1 (-factor.2) else none) a

/-- Changes every exponent and keeps the symbols. -/
def mapExponents (u : PhysicalUnit) (f : Int → Int)
    (valid : ∀ factor ∈ u.factors, f factor.2 ≠ 0 ∧ FitsExponent (f factor.2)) : PhysicalUnit where
  factors := u.factors.map fun factor => (factor.1, f factor.2)
  canonical :=
    { ascending := u.canonical.ascending.map _ fun _ _ less => less
      nonzero := by
        simp only [List.mem_map]
        rintro _ ⟨factor, member, rfl⟩
        exact (valid factor member).1
      fits := by
        simp only [List.mem_map]
        rintro _ ⟨factor, member, rfl⟩
        exact (valid factor member).2 }

/-- The unit raised to an integer, unless an exponent leaves the range. -/
def pow? (u : PhysicalUnit) (n : Int) : Option PhysicalUnit :=
  if zero : n = 0 then some dimensionless
  else if fits : ∀ factor ∈ u.factors, FitsExponent (factor.2 * n) then
    some (u.mapExponents (· * n) fun factor member =>
      ⟨Int.mul_ne_zero (u.canonical.nonzero factor member) zero, fits factor member⟩)
  else none

/-- The square root, if every exponent is even. -/
def sqrt? (u : PhysicalUnit) : Option PhysicalUnit :=
  if even : ∀ factor ∈ u.factors, factor.2 % 2 = 0 then
    some (u.mapExponents (· / 2) fun factor member => by
      have nonzero := u.canonical.nonzero factor member
      have parity := even factor member
      have fits := u.canonical.fits factor member
      unfold FitsExponent at fits ⊢
      exact ⟨by omega, by omega⟩)
  else none

end PhysicalUnit
end StructuralModel
