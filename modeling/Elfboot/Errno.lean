import Mathlib.Data.Int.Notation

/-!
The error numbers of `errno.h`, as the functions of the bootloader return them.
-/

namespace Elfboot.Errno

abbrev enoent : ℤ := 2
abbrev enoexec : ℤ := 8
abbrev enomem : ℤ := 12
abbrev efault : ℤ := 14
abbrev enotsup : ℤ := 35

end Elfboot.Errno
