import MkyBoot.Lua.Value

/-!
# The host of a request

`bin/mkyctl.lua` runs afresh for every request.  What it takes from outside the
repository is collected in `Host`: the clock, the json module, the SHA-1 and
the base64 of the nginx module, the random device and whether the disk accepts a new file.  Where
a theorem needs more than their types it says so in a hypothesis.
-/

namespace MkyBoot
namespace Control

open Lua

structure Host where
  now : ℚ
  /-- `json.decode`, `none` where it raises. -/
  decode : Str → Option Doc
  encode : Doc → Str
  sha1_bin : Str → Str
  encode_base64 : Str → Str
  /-- `n` bytes of `/dev/urandom`, `none` where it cannot be read. -/
  urandom : ℕ → Option Str
  date : Str
  /-- A temporary file can be opened and renamed. -/
  saves : Bool

/-! ## Text of bytes -/

def hexDigit (n : ℕ) : Char := Nat.digitChar n

/-- `string.format("%02x", b)` -/
def hexByte (b : Char) : Str := [hexDigit (b.toNat / 16 % 16), hexDigit (b.toNat % 16)]

def hexText (s : Str) : Str := s.flatMap hexByte

namespace Random

/-- `mkyboot.inc.random.bytes` -/
def bytes (host : Host) (n : ℕ) : Option Str :=
  if n < 1 then none
  else (host.urandom n).bind fun data => if data.length = n then some data else none

/-- `mkyboot.inc.random.hex` -/
def hex (host : Host) (n : ℕ) : Option Str := (bytes host n).map hexText

/-- `mkyboot.inc.random.base64` -/
def base64 (host : Host) (n : ℕ) : Option Str := (bytes host n).map host.encode_base64

end Random
end Control
end MkyBoot
