import Mathlib.Data.UInt

/-! Guest RAM as the host maps it, and the scatter/gather segments that point into it. -/
namespace HyperCog.Virtio

/-- The host image of guest RAM, indexed by guest-physical address. -/
abbrev HostMem := ℕ → UInt8

/-- Sizes of the two RAM segments: below 3 GiB and from 4 GiB up. -/
structure GuestRam where
  lowmem : UInt64
  highmem : UInt64
  deriving DecidableEq, Repr

/-- `struct iovec`. A null base is what `paddr_guest2host` returns off RAM. -/
structure Iovec where
  iovBase : Option ℕ
  iovLen : ℕ
  deriving DecidableEq, Repr

def highmemBase : ℕ := 4 * 2 ^ 30

/-- `xh_vm_map_gpa`: the whole range must lie in one RAM segment. -/
def mapGpa (lowmem highmem lowmemAddr highmemAddr gpa len : ℕ) : Option ℕ :=
  if gpa < lowmem ∧ len ≤ lowmem ∧ (gpa + len) % 2 ^ 64 ≤ lowmem then some (lowmemAddr + gpa)
  else if highmemBase ≤ gpa then
    if gpa - highmemBase < highmem ∧ len ≤ highmem ∧ (gpa - highmemBase + len) % 2 ^ 64 ≤ highmem then
      some (highmemAddr + (gpa - highmemBase))
    else none
  else none

def xhVmMapGpa (ram : GuestRam) (gpa : UInt64) (len : ℕ) : Option ℕ :=
  mapGpa ram.lowmem.toNat ram.highmem.toNat 0 highmemBase gpa.toNat len

def paddrGuest2host (ram : GuestRam) (gaddr : UInt64) (len : ℕ) : Option ℕ :=
  xhVmMapGpa ram gaddr len

/-- `k` bytes at `a`, in memory order. -/
def bytesAt (m : HostMem) (a : ℕ) : ℕ → List UInt8
  | 0 => []
  | k + 1 => m a :: bytesAt m (a + 1) k

/-- Stores `bs` at `a`. -/
def storeBytes (m : HostMem) (a : ℕ) (bs : List UInt8) : HostMem :=
  fun x => if a ≤ x then (bs[x - a]?).getD (m x) else m x

/-- Little-endian value of a byte string. -/
def leValue : List UInt8 → ℕ
  | [] => 0
  | b :: bs => b.toNat + 256 * leValue bs

/-- Little-endian digits of a number. -/
def leDigits (n : ℕ) : ℕ → List UInt8
  | 0 => []
  | k + 1 => UInt8.ofNat n :: leDigits (n / 256) k

@[simp] theorem length_bytesAt (m : HostMem) (a k : ℕ) : (bytesAt m a k).length = k := by
  induction k generalizing a with
  | zero => rfl
  | succ k ih => simp [bytesAt, ih]

@[simp] theorem storeBytes_nil (m : HostMem) (a : ℕ) : storeBytes m a [] = m := by
  funext x
  simp [storeBytes]

/-- A range of memory is the concatenation of its two parts. -/
theorem bytesAt_add (m : HostMem) (a j k : ℕ) :
    bytesAt m a (j + k) = bytesAt m a j ++ bytesAt m (a + j) k := by
  induction j generalizing a with
  | zero => simp [bytesAt]
  | succ j ih =>
    rw [Nat.succ_add]
    simp [bytesAt, ih, Nat.add_assoc, Nat.add_comm 1 j]

theorem bytesAt_congr {m m' : HostMem} {a k : ℕ} (h : ∀ x, a ≤ x → x < a + k → m' x = m x) :
    bytesAt m' a k = bytesAt m a k := by
  induction k generalizing a with
  | zero => rfl
  | succ k ih =>
    rw [bytesAt, bytesAt, h a (Nat.le_refl a) (by omega), ih]
    intro x hx hxk
    exact h x (by omega) (by omega)

/-- A store leaves every range that ends before it unchanged. -/
theorem bytesAt_storeBytes_before (m : HostMem) {a b k : ℕ} (bs : List UInt8) (h : a + k ≤ b) :
    bytesAt (storeBytes m b bs) a k = bytesAt m a k := by
  apply bytesAt_congr
  intro x _ hx
  simp [storeBytes, show ¬ b ≤ x by omega]

/-- What was stored is read back. -/
theorem bytesAt_storeBytes_self (m : HostMem) (a : ℕ) (bs : List UInt8) :
    bytesAt (storeBytes m a bs) a bs.length = bs := by
  induction bs generalizing a with
  | nil => rfl
  | cons b bs ih =>
    have hshift : bytesAt (storeBytes m a (b :: bs)) (a + 1) bs.length =
        bytesAt (storeBytes m (a + 1) bs) (a + 1) bs.length := by
      apply bytesAt_congr
      intro x hx _
      have hxa : x - a = (x - (a + 1)) + 1 := by omega
      simp [storeBytes, hx, show a ≤ x by omega, hxa]
    rw [List.length_cons, bytesAt, hshift, ih]
    simp [storeBytes]

end HyperCog.Virtio
