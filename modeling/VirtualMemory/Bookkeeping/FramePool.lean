import VirtualMemory.Error.Failure

/-!
# The frame pool

Free frames, the one handed out next first. A returned frame is the next one handed out.
-/
namespace VirtualMemory

structure FramePool where
  free : List Nat
  deriving DecidableEq, Repr

namespace FramePool

def available (p : FramePool) : Nat := p.free.length

/-- The free frames, the one handed out next last. -/
def listing (p : FramePool) : List Nat := p.free.reverse

def alloc? (p : FramePool) : Option (Nat × FramePool) :=
  match p.free with
  | [] => none
  | frame :: rest => some (frame, ⟨rest⟩)

/-- `alloc?`, where an empty pool is the caller's mistake. -/
def take (p : FramePool) : Except Violation (Nat × FramePool) :=
  match p.alloc? with
  | some r => .ok r
  | none => .error .poolExhausted

def release (p : FramePool) (frame : Nat) : Except Violation FramePool :=
  if frame ∈ p.free then .error (.doubleFree frame) else .ok ⟨frame :: p.free⟩

/-- Hand out frames until at most `keep` are left. -/
def drain (p : FramePool) (keep : Nat) : FramePool := ⟨p.free.drop (p.available - keep)⟩

end FramePool
end VirtualMemory
