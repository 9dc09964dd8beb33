import ChainWatch.Text.Blank
import ChainWatch.Text.Digit

/-!
# Published ports

A container's ports are published on ports of the host. The container engine lists bindings one per
line, as `8545/tcp -> 0.0.0.0:18545`; lines of another form hold no binding.
-/

namespace ChainWatch

open Text

abbrev PortNumber := UInt16

structure PortBinding where
  host : PortNumber
  container : PortNumber
  deriving DecidableEq, Repr

namespace PortBinding

/-- By the host's number, then by the container's. -/
def lt (a b : PortBinding) : Bool :=
  a.host < b.host || (a.host == b.host && a.container < b.container)

def insert (b : PortBinding) : List PortBinding → List PortBinding
  | [] => [b]
  | c :: rest =>
    if b.lt c then b :: c :: rest
    else if b = c then c :: rest
    else c :: insert b rest

/-- The bindings of a list as a set: in order, each once. -/
def toSet (bindings : List PortBinding) : List PortBinding :=
  bindings.foldr insert []

/-- Decimal digits, a plus sign allowed in front. -/
def number? (text : List Char) : Option PortNumber :=
  let digits := match text with
    | '+' :: rest => rest
    | text => text
  (decimal? digits).bind fun n => if n < 65536 then some (UInt16.ofNat n) else none

def ofLine? (line : List Char) : Option PortBinding := do
  let (left, right) ← splitOnce? ['-', '>'] line
  let container ← number? (before '/' (trim left))
  let host ← number? (afterLast ':' (trim right))
  some ⟨host, container⟩

def ofListing (listing : String) : List PortBinding :=
  toSet ((lines listing.toList).filterMap ofLine?)

/-- Whether a listing shows exactly the wanted bindings, their order and repetition ignored. -/
def listingMatches (listing : String) (wanted : List PortBinding) : Bool :=
  ofListing listing == toSet wanted

end PortBinding

end ChainWatch
