/- Constants and address arithmetic shared by the memory manager: pages, the direct map, errors. -/
import Mathlib.Algebra.Group.Nat.Defs
import Mathlib.Data.Nat.Basic

namespace SnapOS

/-- Machine words are natural numbers below this bound; wrap-around is written out where it
can happen. -/
def word64 : Nat := 2 ^ 64
def word32 : Nat := 2 ^ 32

/-- A shift of 32 bits. The processor takes the count modulo 32. -/
def shl32 (x n : Nat) : Nat := x <<< (n % 32) % word32

def pageSize : Nat := 4096

/-- `x & ~(PAGE_SIZE - 1)` -/
def pageAlignDown (x : Nat) : Nat := x / pageSize * pageSize

/-- `(x + PAGE_SIZE - 1) & ~(PAGE_SIZE - 1)` with the addition modulo the word size. -/
def pageAlignUp (x : Nat) : Nat := pageAlignDown ((x + (pageSize - 1)) % word64)

/-- The macro `IS_PAGE_ALIGNED`: a complement, not a negation, of the offset in the page. -/
def isPageAligned (x : Nat) : Bool := word64 - 1 - x % pageSize ≠ 0

def minUsablePaddr : Nat := 0x100000
def kernelStartPhysAddr : Nat := 0x1000000
def kernelStartVirtAddr : Nat := 0xFFFFFFFF81000000
def idVirtRegionStart : Nat := 0xffff888000000000

def physToVirt (p : Nat) : Nat := (p + idVirtRegionStart) % word64
def virtToPhys (v : Nat) : Nat := (v + (word64 - idVirtRegionStart)) % word64

def eNoEnt : Int := 2
def eNoMem : Int := 12
def eFault : Int := 14
def eInval : Int := 22
def eBadF : Int := 9
def eNotDir : Int := 20
def eUClean : Int := 117

def maxErrno : Nat := 4095

def ssizeMax : Nat := 2 ^ 63 - 1

def taskUserStackTopAddr : Nat := 0x7FFFFFFFF000

def newline : UInt8 := 10

/-- The macro `IS_ERR`. -/
def isErr (ptr : Nat) : Bool := word64 - maxErrno ≤ ptr

theorem pageAlignDown_le (x : Nat) : pageAlignDown x ≤ x := Nat.div_mul_le_self x pageSize

theorem pageAlignDown_mod (x : Nat) : pageAlignDown x % pageSize = 0 := Nat.mul_mod_left _ _

theorem pageAlignUp_mod (x : Nat) : pageAlignUp x % pageSize = 0 := pageAlignDown_mod _

/-- Below the wrap-around `PAGE_ALIGN_UP` is the least aligned address that is not smaller. -/
theorem pageAlignUp_spec {x : Nat} (h : x + pageSize ≤ word64) :
    x ≤ pageAlignUp x ∧ pageAlignUp x < x + pageSize := by
  have hsum : (x + (pageSize - 1)) % word64 = x + (pageSize - 1) :=
    Nat.mod_eq_of_lt (by simp only [pageSize] at *; omega)
  rw [pageAlignUp, pageAlignDown, hsum]
  simp only [pageSize]
  omega

theorem le_pageAlignUp {size : Nat} (fits : size ≤ word64 - pageSize) : size ≤ pageAlignUp size :=
  (pageAlignUp_spec (by simp only [pageSize, word64] at *; omega)).1

theorem pageAlignUp_wraps {size : Nat} (word : size < word64) (big : ¬ size ≤ word64 - pageSize) :
    pageAlignUp size = 0 := by
  simp only [pageAlignUp, pageAlignDown, pageSize, word64] at *
  omega

theorem pageAlignUp_le {x y : Nat} (h : x ≤ y) (aligned : y % pageSize = 0)
    (fits : y + pageSize ≤ word64) : pageAlignUp x ≤ y := by
  have := pageAlignUp_spec (x := x) (by omega)
  have := pageAlignUp_mod x
  simp only [pageSize] at *
  omega

theorem isPageAligned_always (x : Nat) : isPageAligned x = true := by
  have : x % pageSize < pageSize := Nat.mod_lt _ (by decide)
  apply decide_eq_true
  simp only [pageSize, word64] at *
  omega

theorem virtToPhys_physToVirt {p : Nat} (h : p < word64) : virtToPhys (physToVirt p) = p := by
  simp only [virtToPhys, physToVirt, word64, idVirtRegionStart] at *
  omega

theorem physToVirt_lt (p : Nat) : physToVirt p < word64 := Nat.mod_lt _ (by decide)

attribute [irreducible] physToVirt virtToPhys

end SnapOS
