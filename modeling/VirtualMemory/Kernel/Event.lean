import VirtualMemory.Error.Failure
import VirtualMemory.Fault.Kind

/-!
# Events

What the kernel reports about its work, each with a level and one line of text.
-/
namespace VirtualMemory

inductive Level where
  | error | warn | info | debug | trace
  deriving DecidableEq, Repr

def Level.render : Level → String
  | error => "ERROR"
  | warn => "WARN"
  | info => "INFO"
  | debug => "DEBUG"
  | trace => "TRACE"

inductive Event where
  | ready (store tables : Nat)
  | frameAcquired (frame : Nat)
  | frameReleased (frame : Nat)
  | tableBound (table slot : Nat)
  | tableUnbound (table slot : Nat)
  | spaceCreated (space directory : Nat)
  | spaceReleased (space : Nat)
  | destroyedWhileOwned (space owners : Nat)
  | mappingsDropped (count directory : Nat)
  | switched (old new : Nat)
  | forked (parent child pages : Nat)
  | faultDelegated (va : Nat) (kind : FaultKind)
  | untrackedFrame (page frame : Nat)
  | writeGranted (page frame : Nat)
  | pageCopied (page frame copy : Nat)
  | fatal (reason : Halt)
  deriving DecidableEq, Repr

namespace Event

def level : Event → Level
  | ready .. => .info
  | spaceCreated .. | spaceReleased .. | forked .. => .debug
  | destroyedWhileOwned .. | mappingsDropped .. | untrackedFrame .. => .warn
  | fatal .. => .error
  | frameAcquired .. | frameReleased .. | tableBound .. | tableUnbound .. | switched ..
  | faultDelegated .. | writeGranted .. | pageCopied .. => .trace

open Text (hex)

def text : Event → String
  | ready store tables =>
    "[PAGING] 32-bit paging ready, kernel directory store " ++ hex store ++ ", " ++
      toString tables ++ " boot tables"
  | frameAcquired frame => "[PAGING] acquired frame " ++ hex frame
  | frameReleased frame => "[PAGING] released frame " ++ hex frame
  | tableBound table slot => "[PAGING] bound table " ++ hex table ++ " at slot " ++ toString slot
  | tableUnbound table slot =>
    "[PAGING] unbound table " ++ hex table ++ " from slot " ++ toString slot
  | spaceCreated space directory =>
    "[PMAP] created " ++ renderSpace space ++ " with directory " ++ hex directory
  | spaceReleased space => "[PMAP] released " ++ renderSpace space
  | destroyedWhileOwned space owners =>
    "[PMAP] destroy of " ++ renderSpace space ++ " with " ++ toString owners ++ " owners"
  | mappingsDropped count directory =>
    "[PMAP] dropped " ++ toString count ++ " live mappings with directory " ++ hex directory
  | switched old new => "[PMAP] switched " ++ renderSpace old ++ " -> " ++ renderSpace new
  | forked parent child pages =>
    "[PMAP] fork " ++ renderSpace parent ++ " -> " ++ renderSpace child ++ ": " ++
      toString pages ++ " pages shared"
  | faultDelegated va kind => "[FAULT] " ++ hex va ++ " " ++ kind.render ++ " delegated"
  | untrackedFrame page frame => "[FAULT] " ++ hex page ++ " maps untracked frame " ++ hex frame
  | writeGranted page frame =>
    "[FAULT] " ++ hex page ++ " write enabled in place on " ++ hex frame
  | pageCopied page frame copy =>
    "[FAULT] " ++ hex page ++ " copied " ++ hex frame ++ " -> " ++ hex copy ++ " (4096 bytes)"
  | fatal reason => "[PAGING] fatal: " ++ reason.reason

/-- Level and text, as in a log. -/
def render (e : Event) : String := e.level.render ++ " " ++ e.text

end Event
end VirtualMemory
