import VirtualMemory.Error.Failure
import VirtualMemory.Layout

/-!
# Checked address arithmetic

For numbers that nobody has checked, an address at a distance from another may leave the address
width, in the product or in the sum.
-/
namespace VirtualMemory.Layout

/-- The address `i` strides past `base`. -/
def checkedOffset (base i stride : Nat) : Except Violation Nat :=
  if i * stride ≥ addressLimit then .error .multiplicationOverflow
  else if base + i * stride ≥ addressLimit then .error .additionOverflow
  else .ok (base + i * stride)

/-- `tableView d`, for any `d`. -/
def checkedTableView (d : Nat) : Except Violation Nat := checkedOffset tablesView d pageSize

end VirtualMemory.Layout
