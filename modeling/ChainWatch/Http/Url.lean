import ChainWatch.Bytes
import ChainWatch.Text.Blank
import ChainWatch.Text.Digit
import ChainWatch.Text.Utf8

/-!
# Addresses on the web

Absolute addresses of HTTP servers: the scheme, the host, the path and the query.
Reading normalises as web clients do: slashes may lean either way, dots in the path are resolved, and
characters that cannot stand in a request are percent-encoded. A fragment is dropped.
-/

namespace ChainWatch.Http

open Text

structure Url where
  secure : Bool
  host : List Char
  portNumber : Option Nat
  /-- The segments of the path; the path `/` is one empty segment. -/
  segments : List (List Char)
  query : Option (List Char)
  deriving DecidableEq, Repr

namespace Url

def percent (b : UInt8) : List Char :=
  let digit (d : Nat) : Char := if d < 10 then Char.ofNat (48 + d) else Char.ofNat (55 + d)
  ['%', digit (b.toNat / 16), digit (b.toNat % 16)]

/-- A character, percent-encoded if it belongs to a class or is not ASCII. -/
def encodeChar (reserved : Char → Bool) (c : Char) : List Char :=
  if c.toNat ≤ 0x20 || 0x7F ≤ c.toNat || reserved c then
    (Bytes.ofString (String.singleton c)).flatMap percent
  else [c]

def inPath (c : Char) : Bool :=
  ['"', '#', '<', '>', '?', '`', '\x7b', '\x7d'].contains c

def inQuery (c : Char) : Bool :=
  ['"', '#', '<', '>', '\''].contains c

def isSlash (c : Char) : Bool :=
  c = '/' || c = '\\'

def endsAuthority (c : Char) : Bool :=
  isSlash c || c = '?' || c = '#'

def pathPieces : List Char → List (List Char)
  | [] => [[]]
  | c :: rest =>
    if isSlash c then [] :: pathPieces rest
    else
      match pathPieces rest with
      | [] => [[c]]
      | piece :: more => (c :: piece) :: more

/-- A segment with the encoded form of a dot read as a dot. -/
def plainDots : List Char → List Char
  | '%' :: '2' :: 'e' :: rest => '.' :: plainDots rest
  | '%' :: '2' :: 'E' :: rest => '.' :: plainDots rest
  | c :: rest => c :: plainDots rest
  | [] => []

/-- Resolve segments that stand for this place and the one above. The segments read so far are in
reverse order. -/
def resolve (above : List (List Char)) : List (List Char) → List (List Char)
  | [] => above.reverse
  | segment :: rest =>
    let dots := plainDots segment
    if dots = ['.'] then
      if rest.isEmpty then ([] :: above).reverse else resolve above rest
    else if dots = ['.', '.'] then
      if rest.isEmpty then ([] :: above.tail).reverse else resolve above.tail rest
    else resolve (segment.flatMap (encodeChar inPath) :: above) rest

/-- A part of an address of version four; none when it is no number. -/
def v4Part? (text : List Char) : Option Nat :=
  match text with
  | [] => none
  | '0' :: 'x' :: digits => (digits? 16 digits).map (ofDigits 16)
  | '0' :: 'X' :: digits => (digits? 16 digits).map (ofDigits 16)
  | '0' :: digits => (digits? 8 digits).map (ofDigits 8)
  | digits => decimal? digits

/-- The parts of a host between dots, an empty part at the end left out. -/
def hostParts (host : List Char) : List (List Char) :=
  let parts := pieces '.' host
  if 1 < parts.length ∧ parts.getLast? = some [] then parts.dropLast else parts

/-- Whether a host must be an address of version four: its last part is a number. -/
def endsInNumber (host : List Char) : Bool :=
  match (hostParts host).getLast? with
  | none => false
  | some last => (!last.isEmpty && last.all Char.isDigit) ||
      (("0x".toList.isPrefixOf last || "0X".toList.isPrefixOf last) && (v4Part? last).isSome)

/-- Whether a host is an address of version four: up to four numbers, of which the last one fills the
bytes that the others leave. -/
def isV4 (host : List Char) : Bool :=
  match (hostParts host).mapM v4Part? with
  | none => false
  | some numbers =>
    match numbers.reverse with
    | [] => false
    | last :: others =>
      numbers.length ≤ 4 && others.all (· < 256) && last < Nat.pow 256 (5 - numbers.length)

def isDottedQuad (text : List Char) : Bool :=
  let parts := pieces '.' text
  parts.length = 4 && parts.all fun part =>
    match decimal? part with
    | none => false
    | some n => n < 256 && (part.length = 1 || part.head? ≠ some '0')

/-- How many groups of two bytes a piece of an address of version six stands for. -/
def v6Groups? (text : List Char) : Option Nat :=
  if text.isEmpty then some 0
  else
    let parts := pieces ':' text
    let isGroup (part : List Char) : Bool :=
      !part.isEmpty && part.length ≤ 4 && (digits? 16 part).isSome
    match parts.reverse with
    | [] => none
    | last :: others =>
      if !others.all isGroup then none
      else if isGroup last then some parts.length
      else if isDottedQuad last then some (parts.length + 1)
      else none

/-- Whether a text is an address of version six: eight groups, or fewer around one gap. -/
def isV6 (text : List Char) : Bool :=
  match splitOnce? [':', ':'] text with
  | none => v6Groups? text = some 8
  | some (front, back) =>
    match v6Groups? front, v6Groups? back with
    | some m, some n => m + n ≤ 7 && !front.contains '.'
    | _, _ => false

def isForbidden (c : Char) : Bool :=
  c.toNat ≤ 0x20 || c.toNat = 0x7F ||
    ['#', '/', ':', '<', '>', '?', '@', '[', '\\', ']', '^', '|', '%'].contains c

def plainBytes : List Char → Bytes
  | '%' :: a :: b :: rest =>
    match digitIn? 16 a, digitIn? 16 b with
    | some high, some low => UInt8.ofNat (16 * high + low) :: plainBytes rest
    | _, _ => '%'.toUInt8 :: plainBytes (a :: b :: rest)
  | c :: rest => Bytes.ofString (String.singleton c) ++ plainBytes rest
  | [] => []

def host? (text : List Char) : Option (List Char) :=
  match text with
  | '[' :: rest =>
    match rest.reverse with
    | ']' :: inner => if isV6 inner.reverse then some (text.map Char.toLower) else none
    | _ => none
  | [] => none
  | text => do
    let host := (← ofUtf8? (plainBytes text)).toList.map Char.toLower
    if host.isEmpty || host.any isForbidden then none
    else if endsInNumber host && !isV4 host then none
    else some host

/-- The number behind a colon; there may be none. -/
def portNumber? (text : List Char) : Option (Option Nat) :=
  if text.isEmpty then some none
  else (decimal? text).bind fun n => if n < 65536 then some (some n) else none

/-- The last colon outside brackets cuts a host from the number behind it. -/
def hostAndNumber? (text : List Char) : Option (List Char × Option Nat) :=
  let back := text.reverse.takeWhile fun c => c ≠ ':' && c ≠ ']'
  match text.reverse.drop back.length with
  | ':' :: front => do some (← host? front.reverse, ← portNumber? back.reverse)
  | _ => (host? text).map fun host => (host, none)

def withoutUser (authority : List Char) : List Char :=
  afterLast '@' authority

def ofRest? (secure : Bool) (text : List Char) : Option Url := do
  let text := text.dropWhile isSlash
  let authority := text.takeWhile (!endsAuthority ·)
  let behind := (text.dropWhile (!endsAuthority ·)).takeWhile (· ≠ '#')
  let (host, portNumber) ← hostAndNumber? (withoutUser authority)
  let path := behind.takeWhile (· ≠ '?')
  let query := match behind.dropWhile (· ≠ '?') with
    | '?' :: query => some (query.flatMap (encodeChar inQuery))
    | _ => none
  let pieces := pathPieces (match path with
    | c :: rest => if isSlash c then rest else path
    | [] => [])
  some ⟨secure, host, portNumber, resolve [] pieces, query⟩

def isMargin (c : Char) : Bool :=
  c.toNat ≤ 0x20

/-- An absolute address of a web server. -/
def ofText? (text : String) : Option Url :=
  let chars := (trimEnd isMargin (text.toList.dropWhile isMargin)).filter
    fun c => c ≠ '\t' && c ≠ '\n' && c ≠ '\r'
  match splitOnce? [':'] chars with
  | none => none
  | some (scheme, rest) =>
    match String.ofList (scheme.map Char.toLower) with
    | "http" => ofRest? false rest
    | "https" => ofRest? true rest
    | _ => none

/-- What a request for the address names: the path and the query. -/
def target (url : Url) : String :=
  let path := url.segments.flatMap fun segment => '/' :: segment
  String.ofList (path ++ match url.query with
    | none => []
    | some query => '?' :: query)

end Url

end ChainWatch.Http
