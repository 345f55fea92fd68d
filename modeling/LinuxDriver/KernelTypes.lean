import Mathlib.Data.Int.Notation
import Mathlib.Data.Nat.Notation

/-! Error numbers and pointers as the drivers use them. -/
namespace KernelTypes

def EINTR : ℤ := 4
def EAGAIN : ℤ := 11
def ENOMEM : ℤ := 12
def EFAULT : ℤ := 14
def EBUSY : ℤ := 16
def EEXIST : ℤ := 17
def ENODEV : ℤ := 19
def EINVAL : ℤ := 22
def ERANGE : ℤ := 34
def ERESTARTSYS : ℤ := 512

/-- The largest write that sysfs hands to a store handler. -/
def PAGE_SIZE : ℕ := 4096

/-- `NULL` is `none`; the objects a driver points to are numbered. -/
abbrev Pointer := Option ℕ

end KernelTypes
