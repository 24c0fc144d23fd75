import Dabba.Program.Basic

/-!
# Requests through a socket

The library makes every request about an interface through a socket of its own, which it
opens before and closes behind it. The function is generic here in the system that it runs
on, and in what its caller makes of the error number and the answer.
-/

namespace Interface

open Program

/-- Opens a socket, makes the request and closes the socket. -/
def devKernelRequest {F : Type → Type*} {ε α ρ : Type} (socket : Prog F ℤ)
    (ioctl : ℤ → Prog F (Option α)) (close : ℤ → Prog F ℤ) (errno : Prog F ε)
    (failed : ε → ρ) (answered : α → ρ) : Prog F ρ := do
  let sock ← socket
  if sock < 0 then
    let e ← errno
    return failed e
  else
    let answer ← ioctl sock
    let _ ← close sock
    match answer with
    | some a => return answered a
    | none =>
        let e ← errno
        return failed e

end Interface
