import ChainWatch.System
import ChainWatch.Text.Utf8

/-!
# Containers under Docker

Each request to the container engine is one command. A command that ends with a code other than zero
has failed, and what it wrote to its error stream is the reason.
-/

namespace ChainWatch

structure CommandOutcome where
  code : Int
  output : Bytes
  errors : Bytes
  deriving DecidableEq, Repr

namespace Docker

def arguments : ContainerRequest → List String
  | .start c =>
    ["run", "-d", "--name", c.name] ++
      c.ports.flatMap (fun b => ["-p", s!"{b.host.toNat}:{b.container.toNat}"]) ++ [c.image] ++ c.args
  | .stop name => ["rm", "-f", name]
  | .presence name =>
    ["ps", "-a", "--filter", s!"name=^/{name}$", "--format", "\x7b\x7b.Names\x7d\x7d"]
  | .portsMatch name _ => ["port", name]

/-- Whether a program can be given such arguments: none holds the character that ends them. -/
def areArguments (arguments : List String) : Bool :=
  arguments.all fun a => !a.toList.contains '\x00'

def lists (name : String) (listing : String) : Bool :=
  (Text.lines listing.toList).any fun line => String.ofList (Text.trim line) = name

def value (request : ContainerRequest) (output : String) : request.Value :=
  match request with
  | .start _ => ()
  | .stop _ => ()
  | .presence name => lists name output
  | .portsMatch _ ports => PortBinding.listingMatches output ports

/-- What a command brought, the engine's program going by the given name. Without an outcome the
program could not be run. -/
def read (program : String) (request : ContainerRequest) :
    Option CommandOutcome → Except ContainerFault request.Value
  | none => .error .unavailable
  | some outcome =>
    if outcome.code = 0 then .ok (value request (Text.ofUtf8 outcome.output))
    else
      let reason := String.ofList (Text.trim (Text.ofUtf8 outcome.errors).toList)
      let command := (arguments request).headD ""
      .error (.failed s!"{program} {command} failed: {reason}")

end Docker

end ChainWatch
