import VirtualMemory.Fault.Resolve

/-!
# Stores of user programs

A store by a user program goes through if the page is present with the write and the user right.
Otherwise the processor raises a fault first, and the store is tried again after that.
-/
namespace VirtualMemory.Kernel

/-- Store `value` at `va` as a user program would. After the fault only the write right is asked
for. -/
def userWrite (policy : Policy) (va : Nat) (value : UInt8) : Kernel Unit := do
  match ← lookup va with
  | some m =>
    if !(m.isWritable && m.isUser) then
      discard (pageFault policy va TrapCode.userWriteDenied)
  | none => discard (pageFault policy va TrapCode.userWriteAbsent)
  match ← lookup va with
  | some m =>
    if m.isWritable then drive (·.storeVirtual va value) else violate (.readOnlyWrite va)
  | none => violate (.unresolvedWrite va)

end VirtualMemory.Kernel
