import Enml.Core.Result

/-! Who a request comes from. Identities are resolved from what the supervisor
knows of a process, never read from a payload. -/
namespace Enml.Core

structure PrincipalId where
  high : UInt64 := 0
  low : UInt64 := 0
  deriving DecidableEq

abbrev UserId := UInt64

abbrev ProcessId := UInt64

/-- Who is at the other end of a channel. -/
structure PeerIdentity where
  principal : PrincipalId := {}
  user : UserId := 0
  process : ProcessId := 0
  deriving DecidableEq

def validPrincipal (principal : PrincipalId) : Bool := principal.high != 0 || principal.low != 0

def validPeerIdentity (identity : PeerIdentity) : Bool :=
  validPrincipal identity.principal && identity.process != 0

/-- What the kernel attests of the sender of a packet. -/
structure KernelPeerCredentials where
  processId : Int64 := 0
  userId : UInt32 := 0
  groupId : UInt32 := 0
  deriving DecidableEq

end Enml.Core
