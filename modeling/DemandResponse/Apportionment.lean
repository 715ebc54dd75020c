import DemandResponse.Band
import DemandResponse.Decimal.Arithmetic

/-!
# Apportioning an imbalance

All participants are asked for the same fraction of what they can do against an imbalance, at
most for all of it. The fraction is a decimal quotient. A share is the fraction of one
participant's band under the sign of the imbalance, brought to the nearest integer with halves
going up, towards positive infinity, in both directions. A quotient, a product and a sum of
decimals may each round; the last step is exact.
-/

namespace DemandResponse.Apportionment

/-- What a band can do against an imbalance. -/
def capable (imbalance : Power) (band : Band) : Power :=
  if 0 < imbalance then band.up else band.down

/-- What some bands can do together against an imbalance. -/
def capacity (imbalance : Power) : (bands : List Band) → Int
  | [] => 0
  | band :: rest => (capable imbalance band).toInt + capacity imbalance rest

/-- The part of every band that an imbalance asks for. A quotient of one or more asks for all. -/
def fraction (imbalance : Power) (bands : List Band) : Except Fault Decimal :=
  let total := capacity imbalance bands
  if imbalance = 0 ∨ total = 0 then .ok 0
  else if Decimal.limit ≤ total.natAbs then .error .decimalSumOverflow
  else
    match Decimal.quotient imbalance.toInt.natAbs total with
    | some quotient => .ok (if quotient ≤ 1 then quotient else 1)
    | none => .ok 1

/-- The signed limit of a band towards which an imbalance pushes. -/
def signedLimit (imbalance : Power) (band : Band) : Except Fault Power :=
  if 0 < imbalance then .ok band.up else Power.negate band.down

/-- The integer nearest to a decimal, if it is a power value, and zero otherwise. -/
def settle (x : Decimal) : Power := (Power.ofInt? x.floor).getD 0

def share (fraction : Decimal) (imbalance : Power) (band : Band) : Except Fault Power :=
  if imbalance = 0 then .ok 0
  else do
    let limit ← signedLimit imbalance band
    let product ← Fault.decimalProductOverflow.ifNone (fraction.mul (.ofInt64 limit))
    let raised ← Fault.decimalSumOverflow.ifNone (product.add .half)
    return settle raised

end DemandResponse.Apportionment
