import ColumnFlow.Decimal.Reading

/-!
Quantiles of the normal distribution, by a quotient of two polynomials in each of three ranges: the
middle, the tails, and the far tails.
-/
namespace ColumnFlow.Numbers

/-- A polynomial at `x`, the coefficient of the highest power first. -/
def polynomialAt (coefficients : List Float) (x : Float) : Float :=
  coefficients.foldl (fun sum c => sum * x + c) 0.0

namespace Normal

def middleAbove : List Float := [2.50908092873012267270e3, 3.34305755835881281050e4,
  6.72657709270087008530e4, 4.59219539315498714570e4, 1.37316937655094611250e4,
  1.97159095030655144270e3, 1.33141667891784377450e2, 3.38713287279636660800e0]

def middleBelow : List Float := [5.22649527885285456100e3, 2.87290857357219426740e4,
  3.93078958000927106100e4, 2.12137943015865958670e4, 5.39419602142475110770e3,
  6.87187007492057908300e2, 4.23133307016009112520e1, 1.0]

def tailAbove : List Float := [7.74545014278341407640e-4, 2.27238449892691845833e-2,
  2.41780725177450611770e-1, 1.27045825245236838258e0, 3.64784832476320460504e0,
  5.76949722146069140550e0, 4.63033784615654529590e0, 1.42343711074968357734e0]

def tailBelow : List Float := [1.05075007164441684324e-9, 5.47593808499534494600e-4,
  1.51986665636164571966e-2, 1.48103976427480074590e-1, 6.89767334985100004550e-1,
  1.67638483018380384940e0, 2.05319162663775882187e0, 1.0]

def farAbove : List Float := [2.01033439929228813265e-7, 2.71155556874348757815e-5,
  1.24266094738807843860e-3, 2.65321895265761230930e-2, 2.96560571828504891230e-1,
  1.78482653991729133580e0, 5.46378491116411436990e0, 6.65790464350110377720e0]

def farBelow : List Float := [2.04426310338993978564e-15, 1.42151175831644588870e-7,
  1.84631831751005468180e-5, 7.86869131145613259100e-4, 1.48753612908506148525e-2,
  1.36929880922735805310e-1, 5.99832206555887937690e-1, 1.0]

def quotient (above below : List Float) (x : Float) : Float :=
  polynomialAt above x / polynomialAt below x

/-- The magnitude of the quantile of a share of less than a half. -/
def tail (share : Float) : Float :=
  let r := Float.sqrt (-Float.log share)
  if r ≤ 5.0 then quotient tailAbove tailBelow (r - 1.6)
  else quotient farAbove farBelow (r - 5.0)

/-- The number below which a share of the standard normal distribution lies. -/
def quantile (share : Float) : Float :=
  let q := share - 0.5
  if share ≤ 0.0 then -Decimal.positiveInfinity
  else if share ≥ 1.0 then Decimal.positiveInfinity
  else if q.abs ≤ 0.425 then q * quotient middleAbove middleBelow (0.180625 - q * q)
  else if q < 0.0 then -tail share
  else tail (1.0 - share)

end Normal
end ColumnFlow.Numbers
