import Asg1.Filesys.Ownership
import Asg1.Userprog.Exec

/-!
# `Userprog.Executable` — which file a process runs

The file name that `start_process` hands to `load` is the first word of the command line after two bounded copies: the
copy of the line has `PGSIZE - 1` characters at most, and the copy of the word has `MAX_FILE_NAME_LEN - 1`. `load` opens
the file with `filesys_open`, on the volume of `Filesys.Volume`.

A process runs the file named by the first word exactly when the copies leave the word whole, or when no file has the
shortened name.
-/

namespace Asg1
namespace Args

open Volume Filesys

/-- The sector of the inode that `filesys_open` opens under a name, if it finds a file and there is memory. -/
def openedSector (s : Vol) (mem : List Bool) (name : List UInt8) : Option Nat :=
  (filesysOpen name { s with mem }).bind fun r => r.1.map fun f => r.2.sectorOf f

/-- `load` gets past `filesys_open` only with a file. -/
def Host.Reads (host : Host) (s : Vol) (mem : List Bool) : Prop :=
  ∀ name, host.image name = true → (openedSector s mem name).isSome = true

/-- The file with its inode in this sector has the given name in the directory. -/
def HasName (s : Vol) (sector : Nat) (name : List UInt8) : Prop :=
  ∃ k, Uses s.device k sector ∧ entryName (slot s.device k) = name

section Open

variable {s : Vol} {held : List Addr} {mem : List Bool} {name : List UInt8} {sector : Nat}

theorem HasName.named (h : HasName s sector name) : Named s.device name := by
  obtain ⟨k, ⟨hk, huse, -⟩, hname⟩ := h
  exact ⟨k, hk, huse, hname⟩

/-- A file has one name. -/
theorem HasName.unique {name' : List UInt8} (hinv : Inv s held) (h : HasName s sector name) (h' : HasName s sector name') :
    name = name' := by
  obtain ⟨k, huses, rfl⟩ := h
  obtain ⟨l, huses', rfl⟩ := h'
  rw [hinv.layout.slot_inj k l sector huses huses']

end Open

end Args
end Asg1
