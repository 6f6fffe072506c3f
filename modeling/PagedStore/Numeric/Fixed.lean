/-!
# Fixed-point text of a float

A float with a fixed number of decimal places.  The value of the float is
taken exactly, as `m * 2 ^ q`, and rounded once: to the nearest decimal with
that many places (`roundDiv_near`), and on a tie to the even one
(`roundDiv_even_of_tie`).  No step uses float arithmetic, so the rule can be
read off `roundDiv`.
-/

namespace PagedStore.Numeric

/-- The quotient rounded to the nearest whole number, a tie to the even one. -/
def roundDiv (num den : Nat) : Nat :=
  let q := num / den
  let r := num % den
  if 2 * r < den then q
  else if den < 2 * r then q + 1
  else if q % 2 = 0 then q
  else q + 1

/-- The rounded quotient is within half a unit of the exact one. -/
theorem roundDiv_near (num : Nat) {den : Nat} (h : 0 < den) :
    2 * num ≤ (2 * roundDiv num den + 1) * den ∧ (2 * roundDiv num den) * den ≤ 2 * num + den := by
  have hd := Nat.div_add_mod num den
  have hm := Nat.mod_lt num h
  have e : den * (num / den) = num / den * den := Nat.mul_comm ..
  unfold roundDiv
  simp only [Nat.add_mul, Nat.mul_assoc, Nat.one_mul]
  split
  · omega
  · split
    · simp only [Nat.add_mul]
      omega
    · split
      · omega
      · simp only [Nat.add_mul]
        omega

/-- Halfway between two whole numbers the even one is chosen. -/
theorem roundDiv_even_of_tie {num den : Nat} (h : 2 * (num % den) = den) :
    roundDiv num den % 2 = 0 := by
  unfold roundDiv
  simp only [h, Nat.lt_irrefl, if_false]
  split
  · assumption
  · omega

/-- The exact magnitude of a finite float as a fraction. -/
def magnitude (x : Float) : Nat × Nat :=
  let bits := x.toBits.toNat
  let exponent := (bits >>> 52) % (1 <<< 11)
  let fraction := bits % (1 <<< 52)
  let (m, e) := if exponent = 0 then (fraction, 1) else (fraction + (1 <<< 52), exponent)
  if 1075 ≤ e then (m <<< (e - 1075), 1) else (m, 1 <<< (1075 - e))

/-- Digits of a whole number with a point before the last `places` of them. -/
def withPoint (places : Nat) (n : Nat) : String :=
  let unit := Nat.pow 10 places
  let fraction := toString (n % unit)
  toString (n / unit) ++ "." ++
    String.ofList (List.replicate (places - fraction.length) '0') ++ fraction

/-- A float with two decimal places. -/
def hundredths (x : Float) : String :=
  if x.isNaN then "NaN"
  else
    let sign := if x.toBits.toNat >>> 63 = 1 then "-" else ""
    if x.isInf then sign ++ "inf"
    else
      let (num, den) := magnitude x
      sign ++ withPoint 2 (roundDiv (num * 100) den)

end PagedStore.Numeric
