/-!
# Error numbers

The values of `SyscallErr` that the modelled functions return.
-/

namespace MangoCore

/-- The error numbers the system calls report. -/
inductive Errno where
  | EPERM | ENOENT | ESRCH | EINTR | EIO | ENXIO | E2BIG | EBADF | ECHILD | EAGAIN | ENOMEM | EACCES
  | EFAULT | EBUSY | EEXIST | ENOTDIR | EINVAL | ENFILE | EMFILE | EFBIG | ENOSPC | EPIPE | ERANGE
  | EDEADLK | ENAMETOOLONG | ELOOP | ENOMSG | EIDRM | EOVERFLOW | EMSGSIZE | EOPNOTSUPP
  | EAFNOSUPPORT | EADDRINUSE | EADDRNOTAVAIL | EISCONN | ENOTCONN | ETIMEDOUT | ECONNREFUSED
  deriving DecidableEq, Repr

end MangoCore
