import VirtualMemory.Entry.Flags

/-!
# Protections

Access rights as callers state them, and the entry flags they come down to. The hardware has one
write bit and one user bit, so reading, execution and the split of write rights between kernel and
user are not kept.
-/
namespace VirtualMemory

def protectionVocabulary : Vocabulary where
  title := "VmProt"
  names := ["KERNEL_READ", "KERNEL_WRITE", "KERNEL_EXEC", "USER_READ", "USER_WRITE", "USER_EXEC"]

abbrev Protection := FlagSet protectionVocabulary

namespace Protection

def kernelRead : Protection := ⟨0x1⟩
def kernelWrite : Protection := ⟨0x2⟩
def kernelExec : Protection := ⟨0x4⟩
def userRead : Protection := ⟨0x8⟩
def userWrite : Protection := ⟨0x10⟩
def userExec : Protection := ⟨0x20⟩

def kernelRW : Protection := kernelRead ||| kernelWrite
def kernelRWX : Protection := kernelRW ||| kernelExec
def userRW : Protection := userRead ||| userWrite
def userRWX : Protection := userRW ||| userExec

def grantsWrite (p : Protection) : Bool := p.intersects (kernelWrite ||| userWrite)
def grantsUser (p : Protection) : Bool := p.intersects userRWX

/-- The flags of a present entry with these rights. -/
def entryFlags (p : Protection) : EntryFlags :=
  let writable := if p.grantsWrite then EntryFlags.writable else .empty
  let user := if p.grantsUser then EntryFlags.user else .empty
  EntryFlags.present ||| writable ||| user

end Protection
end VirtualMemory
