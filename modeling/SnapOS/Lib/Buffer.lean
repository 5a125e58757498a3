/- Buffers of a known size: an access outside one is a fault. -/
import SnapOS.Lib.Bytes
import SnapOS.Lib.Exec

namespace SnapOS.Lib

structure Buffer where
  bytes : Memory
  size : Nat

namespace Buffer

variable {b : Buffer} {a n : Nat}

def byte (b : Buffer) (a : Nat) : Exec UInt8 := if a < b.size then .ok (b.bytes a) else .error .outOfBounds

def load (b : Buffer) (a n : Nat) : Exec Nat :=
  if a + n ≤ b.size then .ok (b.bytes.load a n) else .error .outOfBounds

theorem byte_ok (inside : a < b.size) : b.byte a = .ok (b.bytes a) := if_pos inside

theorem load_ok (inside : a + n ≤ b.size) : b.load a n = .ok (b.bytes.load a n) := if_pos inside

theorem byte_ends : (b.byte a).Ends := by
  rw [byte]
  split_ifs <;> rintro ⟨⟩

theorem load_ends : (b.load a n).Ends := by
  rw [load]
  split_ifs <;> rintro ⟨⟩

end Buffer
end SnapOS.Lib
