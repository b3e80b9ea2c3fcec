/-!
# Binary64 numbers

Prices, volumes, constants and returns are binary64 numbers.  A finite one is a
signed multiple of the *step* `2^-1074`, the least positive number of the
format: `mantissa * 2^exponent` steps.  The pair is canonical, so two numbers
are equal as values of this type exactly when they have the same bits, except
that there is one NaN.  In particular `0` and `-0` are different values that
compare equal.

Every operation is its exact result rounded once.  `ofSteps` is the rounding:
it takes a magnitude as a quotient of two natural numbers, counted in steps, and
gives the nearest number, a tie going to the even mantissa.
-/

namespace MarketRules

/-! ## The values -/

/-- The conditions on `mantissa * 2^exponent` steps that make the pair the only
one for its value.  The exponent is zero, or the mantissa has all its 53 bits. -/
structure Canonical (mantissa exponent : Nat) : Prop where
  /-- The mantissa has at most 53 bits. -/
  mantissa_lt : mantissa < Nat.pow 2 53
  /-- A mantissa with fewer bits has the least exponent. -/
  full_or_least : Nat.pow 2 52 ≤ mantissa ∨ exponent = 0
  /-- The exponent is at most that of the largest finite number. -/
  exponent_le : exponent ≤ 2045

/-- A number of the binary64 format. -/
inductive Binary64 where
  | nan
  | infinite (negative : Bool)
  /-- `mantissa * 2^exponent` steps, with a sign. -/
  | finite (negative : Bool) (mantissa exponent : Nat) (canonical : Canonical mantissa exponent)
deriving DecidableEq

namespace Binary64

/-- Zero, with a sign. -/
def signedZero (negative : Bool) : Binary64 :=
  .finite negative 0 0 ⟨by decide, .inr rfl, by decide⟩

def zero : Binary64 := signedZero false

instance : Inhabited Binary64 := ⟨zero⟩

/-- Not a NaN and not an infinity. -/
def isFinite : Binary64 → Bool
  | .finite .. => true
  | _ => false

/-- Is the number a NaN? -/
def isNaN : Binary64 → Bool
  | .nan => true
  | _ => false

/-- The number of steps in a finite magnitude. -/
def steps (mantissa exponent : Nat) : Nat := mantissa * Nat.pow 2 exponent

/-- The signed number of steps, for a finite number. -/
def signedSteps (negative : Bool) (mantissa exponent : Nat) : Int :=
  if negative then -(steps mantissa exponent : Int) else steps mantissa exponent

/-! ## Rounding -/

/-- The whole number nearest to `a / d`, a tie going to the even one. -/
def nearestEven (a d : Nat) : Nat :=
  if 2 * (a % d) < d then a / d
  else if d < 2 * (a % d) then a / d + 1
  else a / d + a / d % 2

/-- Rounding a quotient to the nearest whole number loses less than one. -/
theorem div_le_nearestEven (a d : Nat) : a / d ≤ nearestEven a d := by
  unfold nearestEven
  repeat' split
  all_goals omega

/-- The exponent at which `num / den` steps have a mantissa of 53 bits, or zero
if they have fewer. -/
def exponentFor (num den : Nat) : Nat := (num / den).log2 - 52

/-- Below the exponent of its size a magnitude keeps its 53 bits. -/
theorem full_nearestEven (num den : Nat) :
    Nat.pow 2 52 ≤ nearestEven num (den * Nat.pow 2 (exponentFor num den)) ∨
      exponentFor num den = 0 := by
  by_cases h : exponentFor num den = 0
  · exact .inr h
  · refine .inl (Nat.le_trans ?_ (div_le_nearestEven ..))
    have hlog : (num / den).log2 = 52 + exponentFor num den := by
      unfold exponentFor at h ⊢
      omega
    have hpos : num / den ≠ 0 := by
      intro hzero
      rw [hzero, Nat.log2_zero] at hlog
      omega
    have hle := Nat.log2_self_le hpos
    rw [hlog, Nat.pow_add] at hle
    rw [← Nat.div_div_eq_div_mul]
    exact (Nat.le_div_iff_mul_le (Nat.two_pow_pos _)).mpr hle

/-- The number nearest to `num / den` steps with the given sign, a tie going to
the even mantissa.  A magnitude that rounds past the largest finite number is
infinite. -/
def ofSteps (negative : Bool) (num den : Nat) : Binary64 :=
  if hm : nearestEven num (den * Nat.pow 2 (exponentFor num den)) < Nat.pow 2 53 then
    if he : exponentFor num den ≤ 2045 then
      .finite negative _ _ ⟨hm, full_nearestEven num den, he⟩
    else .infinite negative
  else if he : exponentFor num den + 1 ≤ 2045 then
    .finite negative (Nat.pow 2 52) (exponentFor num den + 1) ⟨by decide, .inl (Nat.le_refl _), he⟩
  else .infinite negative

/-- How many steps make one. -/
def stepsPerUnit : Nat := Nat.pow 2 1074

/-- The number nearest to the quotient of two natural numbers. -/
def ofRatio (negative : Bool) (num den : Nat) : Binary64 :=
  ofSteps negative (num * stepsPerUnit) den

/-- The number nearest to a natural number. -/
def ofNat (n : Nat) : Binary64 := ofRatio false n 1

/-- The number nearest to an integer. -/
def ofInt (n : Int) : Binary64 := ofRatio (decide (n < 0)) n.natAbs 1

instance (n : Nat) : OfNat Binary64 n := ⟨ofNat n⟩

/-! ## Arithmetic -/

def neg : Binary64 → Binary64
  | .nan => .nan
  | .infinite n => .infinite !n
  | .finite n m e h => .finite (!n) m e h

/-- The sum.  A sum that is exactly zero is `-0` only if both terms are
negative. -/
def add : Binary64 → Binary64 → Binary64
  | .nan, _ | _, .nan => .nan
  | .infinite n, .infinite n' => if n = n' then .infinite n else .nan
  | .infinite n, .finite .. | .finite .., .infinite n => .infinite n
  | .finite n m e _, .finite n' m' e' _ =>
    let sum := signedSteps n m e + signedSteps n' m' e'
    if sum = 0 then signedZero (n && n') else ofSteps (decide (sum < 0)) sum.natAbs 1

def sub (x y : Binary64) : Binary64 := add x (neg y)

def mul : Binary64 → Binary64 → Binary64
  | .nan, _ | _, .nan => .nan
  | .infinite n, .infinite n' => .infinite (n ^^ n')
  | .infinite n, .finite n' m _ _ | .finite n' m _ _, .infinite n =>
    if m = 0 then .nan else .infinite (n ^^ n')
  | .finite n m e _, .finite n' m' e' _ =>
    ofSteps (n ^^ n') (steps m e * steps m' e') stepsPerUnit

/-- The quotient.  A quotient by zero is infinite, or a NaN if both are zero. -/
def div : Binary64 → Binary64 → Binary64
  | .nan, _ | _, .nan => .nan
  | .infinite _, .infinite _ => .nan
  | .infinite n, .finite n' _ _ _ => .infinite (n ^^ n')
  | .finite n _ _ _, .infinite n' => signedZero (n ^^ n')
  | .finite n m e _, .finite n' m' e' _ =>
    if m' = 0 then (if m = 0 then .nan else .infinite (n ^^ n'))
    else ofSteps (n ^^ n') (steps m e * stepsPerUnit) (steps m' e')

def abs : Binary64 → Binary64
  | .nan => .nan
  | .infinite _ => .infinite false
  | .finite _ m e h => .finite false m e h

instance : Neg Binary64 := ⟨neg⟩
instance : Add Binary64 := ⟨add⟩
instance : Sub Binary64 := ⟨sub⟩
instance : Mul Binary64 := ⟨mul⟩
instance : Div Binary64 := ⟨div⟩

/-! ## Comparison -/

/-- Is the first number less than the second?  A NaN is less than nothing. -/
def lt : Binary64 → Binary64 → Bool
  | .nan, _ | _, .nan => false
  | .infinite n, .infinite n' => n && !n'
  | .infinite n, .finite .. => n
  | .finite .., .infinite n => !n
  | .finite n m e _, .finite n' m' e' _ => signedSteps n m e < signedSteps n' m' e'

/-- Is the first number less than or equal to the second? -/
def le : Binary64 → Binary64 → Bool
  | .nan, _ | _, .nan => false
  | .infinite n, .infinite n' => n || !n'
  | .infinite n, .finite .. => n
  | .finite .., .infinite n => !n
  | .finite n m e _, .finite n' m' e' _ => signedSteps n m e ≤ signedSteps n' m' e'

/-- The larger of two numbers.  A NaN counts only beside another, and of two
that compare equal the first is taken. -/
def max (x y : Binary64) : Binary64 :=
  if x.isNaN then y else if lt x y then y else x

/-- The smaller of two numbers, by the same rules. -/
def min (x y : Binary64) : Binary64 :=
  if x.isNaN then y else if lt y x then y else x

/-- Do two numbers compare equal?  A NaN does not equal itself, and `0` equals
`-0`. -/
def sameValue (x y : Binary64) : Bool := le x y && le y x

/-! ## Whole numbers -/

/-- The whole number that a finite number is, if it is one. -/
def whole? : Binary64 → Option Int
  | .finite n m e _ =>
    if steps m e % stepsPerUnit = 0 then
      some (if n then -(steps m e / stepsPerUnit : Nat) else (steps m e / stepsPerUnit : Nat))
    else none
  | _ => none

/-! ## Tests -/

example : (1 : Binary64) + 2 = 3 := by decide +kernel
example : ofRatio false 1 10 + ofRatio false 2 10 ≠ ofRatio false 3 10 := by decide +kernel
example : ofNat (2 ^ 53 + 1) = ofNat (2 ^ 53) := by decide +kernel
example : ofNat (2 ^ 1024 - 2 ^ 970) = .infinite false := by decide +kernel
example : ofNat (2 ^ 1024 - 2 ^ 970 - 1) ≠ .infinite false := by decide +kernel
example : sub 1 1 = zero ∧ mul (neg 1) 0 = signedZero true := by decide +kernel
example : whole? (ofRatio false 5 2) = none ∧ whole? (ofInt (-7)) = some (-7) := by decide +kernel

end Binary64

end MarketRules
