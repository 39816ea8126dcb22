/-
# Kernel error numbers

Every fallible function of the kernel and of its drivers returns zero or a
negated error number. The development keeps the symbolic name: two functions
that refuse for different reasons return different values, and the numeric
encoding is never inspected by the code that is modelled here.
-/

import Mathlib

namespace OpenXJ380

/-- The error numbers the modelled functions return, under the names of
`errno.h`. -/
inductive Errno
  | eperm | enoent | eio | e2big | ebadf | enomem | eacces | efault | ebusy
  | eexist | enodev | enotdir | eisdir | einval | efbig | enospc | emlink
  | enametoolong | enotempty | eoverflow | eopnotsupp | euclean | eintr | eagain
  | epipe | emfile | enobufs | esrch | enosys | enotty | edeadlk | estale | ebadmsg | eloop
  | eaddrinuse | econnrefused | edestaddrreq | exdev
  deriving DecidableEq, Repr

end OpenXJ380
