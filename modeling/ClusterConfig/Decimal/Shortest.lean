import ClusterConfig.Decimal.Binary64

/-!
# The fewest digits that read back

`shortest x` is the decimal with the fewest digits among those that `Binary64.ofDecimal` reads as
`x`, the nearest of them to the value, an exact tie going to the even digit. `FloatLayout` says how
such a decimal is spelled.
-/

set_option autoImplicit false

namespace ClusterConfig

/-- The decimal `digits * 10 ^ power`. -/
structure Decimal where
  digits : Nat
  power : Int
deriving DecidableEq

namespace Decimal

def digitCount (n : Nat) : Nat := if n = 0 then 0 else (Nat.toDigits 10 n).length

/-- The power `e` of ten with `10 ^ e ≤ num / den < 10 ^ (e + 1)`. -/
def leadingPower (num den : Nat) : Int :=
  if den ≤ num then (digitCount (num / den) : Int) - 1
  else -(digitCount ((den - 1) / num) : Int)

def readsAs (x : Binary64) (d : Decimal) : Bool :=
  Binary64.ofDecimal x.isNegative d.digits d.power = x

/-- The neighbours of `num / den` on the grid of the multiples of `10 ^ power` that read as `x`,
the nearer first. -/
def onGrid (x : Binary64) (num den : Nat) (power : Int) : List Decimal :=
  let num := if 0 ≤ power then num else num * Nat.pow 10 (-power).toNat
  let den := if 0 ≤ power then den * Nat.pow 10 power.toNat else den
  let lower := num / den
  let twice := 2 * (num % den)
  let lowerFirst := twice < den || (twice == den && lower % 2 == 0)
  let below : Decimal := ⟨lower, power⟩
  let above : Decimal := ⟨lower + 1, power⟩
  (if lowerFirst then [below, above] else [above, below]).filter (readsAs x)

/-- Drops trailing zeros, at most `fuel` of them. -/
def trimZeros : Nat → Decimal → Decimal
  | 0, d => d
  | fuel + 1, d =>
    if d.digits ≠ 0 && d.digits % 10 == 0 then trimZeros fuel ⟨d.digits / 10, d.power + 1⟩ else d

/-- The exact value of a finite number. -/
def exact (x : Binary64) : Decimal := ⟨x.mantissa * Nat.pow 2 x.scale * Nat.pow 5 1074, -1074⟩

/-- The decimal of fewest digits that reads as the finite number `x`. -/
def shortest (x : Binary64) : Decimal :=
  let num := x.ratio.1
  let den := x.ratio.2
  if num = 0 then ⟨0, 0⟩
  else
    let top := leadingPower num den
    let candidates := (List.range 17).flatMap fun (n : Nat) => onGrid x num den (top - (n : Int))
    trimZeros 20 (candidates.headD (exact x))

end Decimal

/-- How a decimal is spelled: positionally while the place of its point lies strictly above
`smallest` and at most at `largest`, else with an exponent. -/
structure FloatLayout where
  smallest : Int
  largest : Int
  /-- What stands before an exponent that is not negative. -/
  mark : String

namespace FloatLayout

def zeros (n : Int) : String := String.ofList (List.replicate n.toNat '0')

/-- Spells a nonnegative decimal; a whole number keeps one zero after its point. -/
def spell (layout : FloatLayout) (d : Decimal) : String :=
  let digits := Nat.toDigits 10 d.digits
  let text := String.ofList digits
  let place := (digits.length : Int) + d.power
  if d.digits = 0 then "0.0"
  else if 0 ≤ d.power && place ≤ layout.largest then text ++ zeros d.power ++ ".0"
  else if 0 < place && place ≤ layout.largest then
    String.ofList (digits.take place.toNat) ++ "." ++ String.ofList (digits.drop place.toNat)
  else if layout.smallest < place && place ≤ 0 then "0." ++ zeros (-place) ++ text
  else
    let power := (if 0 < place then layout.mark else "e") ++ toString (place - 1)
    match digits with
    | [] => power
    | [_] => text ++ power
    | d :: rest => String.ofList (d :: '.' :: rest) ++ power

end FloatLayout

namespace FloatLayout

/-- Positional from `1e-5` to below `1e16`, with the sign of every exponent. -/
def signed : FloatLayout := ⟨-5, 16, "e+"⟩

/-- Positional from `1e-5` to below `1e16`. -/
def unsigned : FloatLayout := ⟨-5, 16, "e"⟩

/-- Positional for every number of the format. -/
def positional : FloatLayout := ⟨-400, 400, "e"⟩

end FloatLayout

/-- The text of a finite number: the fewest digits that read back. -/
def Binary64.text (layout : FloatLayout) (x : Binary64) : String :=
  let body := layout.spell (Decimal.shortest x)
  if x.isNegative then "-" ++ body else body

end ClusterConfig
