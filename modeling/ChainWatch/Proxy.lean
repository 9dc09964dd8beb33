import ChainWatch.Address

/-!
# Proxies

A proxy contract keeps the address of its logic in one of two storage slots. The newer slot wins when
both are set.
-/

namespace ChainWatch

inductive ImplementationSlot where
  /-- The slot of EIP-1967: the digest of `eip1967.proxy.implementation`, less one. -/
  | eip1967
  /-- The older slot: the digest of `org.zeppelinos.proxy.implementation`. -/
  | legacy
  deriving DecidableEq, Repr

namespace ImplementationSlot

def key : ImplementationSlot → Word
  | .eip1967 => 0x360894a13ba1a3210667c828492db98dca3e2076cc3735a920a3ca505d382bbc
  | .legacy => 0x7050c9e0f4ca769c69bd3a8ef740bc37934f8e2c036e5a723fd8ee048ed3f8c3

end ImplementationSlot

/-- Where the logic of a contract lives, if it is a proxy. -/
structure ProxyInfo where
  implementation : Option Address
  deriving DecidableEq, Repr

namespace ProxyInfo

def isProxy (info : ProxyInfo) : Bool :=
  info.implementation.isSome

/-- The checksummed address of the logic, empty when the contract is no proxy. -/
def implementationText (info : ProxyInfo) : String :=
  match info.implementation with
  | some a => a.checksum
  | none => ""

def ofSlots (eip1967 legacy : Word) : ProxyInfo :=
  if eip1967 ≠ 0 then ⟨some (.ofWord eip1967)⟩
  else if legacy ≠ 0 then ⟨some (.ofWord legacy)⟩
  else ⟨none⟩

/-- The address whose interface describes calls to `a`. -/
def source (info : ProxyInfo) (a : Address) : Address :=
  info.implementation.getD a

end ProxyInfo

end ChainWatch
