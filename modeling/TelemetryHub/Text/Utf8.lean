/-!
# Texts as bytes

UTF-8 in both directions. `scan` cuts any byte string into scalar values and ill-formed pieces,
where a piece is as long as a prefix of a well-formed sequence can be; `decodeLossy` writes one
replacement character for each piece and `decode?` accepts only strings without one.
-/

namespace TelemetryHub.Text

def encode (cs : List Char) : List UInt8 := cs.flatMap String.utf8EncodeChar

def byteLength (cs : List Char) : Nat := cs.foldl (fun n c => n + c.utf8Size) 0

/-- A sequence that has begun: the bits read so far, how many bytes are missing, and the interval
the next byte has to lie in. -/
structure Pending where
  bits : Nat
  missing : Nat
  low : UInt8
  high : UInt8

/-- What one byte at the start of a sequence means. -/
inductive Lead where
  | done (c : Char)
  | more (p : Pending)
  | bad

/-- The first byte of a sequence. The second byte of some three- and four-byte sequences is
confined further, so that no surrogate, no overlong form and nothing above U+10FFFF is read. -/
def lead (b : UInt8) : Lead :=
  if b < 0x80 then .done (Char.ofNat b.toNat)
  else if b < 0xC2 then .bad
  else if b < 0xE0 then .more ⟨b.toNat % 0x20, 1, 0x80, 0xBF⟩
  else if b = 0xE0 then .more ⟨0, 2, 0xA0, 0xBF⟩
  else if b = 0xED then .more ⟨0xD, 2, 0x80, 0x9F⟩
  else if b < 0xF0 then .more ⟨b.toNat % 0x10, 2, 0x80, 0xBF⟩
  else if b = 0xF0 then .more ⟨0, 3, 0x90, 0xBF⟩
  else if b < 0xF4 then .more ⟨b.toNat % 0x08, 3, 0x80, 0xBF⟩
  else if b = 0xF4 then .more ⟨4, 3, 0x80, 0x8F⟩
  else .bad

/-- Cut bytes into scalar values and ill-formed pieces (`none`), continuing a sequence that has
begun. A byte that cannot continue it ends the piece and is read afresh. -/
def scan : Option Pending → List UInt8 → List (Option Char)
  | none, [] => []
  | some _, [] => [none]
  | none, b :: bs =>
    match lead b with
    | .done c => some c :: scan none bs
    | .more p => scan (some p) bs
    | .bad => none :: scan none bs
  | some p, b :: bs =>
    if p.low ≤ b && b ≤ p.high then
      let bits := p.bits * 0x40 + b.toNat % 0x40
      if p.missing = 1 then some (Char.ofNat bits) :: scan none bs
      else scan (some ⟨bits, p.missing - 1, 0x80, 0xBF⟩) bs
    else
      none ::
        match lead b with
        | .done c => some c :: scan none bs
        | .more q => scan (some q) bs
        | .bad => none :: scan none bs

/-- The text of a byte string, with U+FFFD for each ill-formed piece. -/
def decodeLossy (bytes : List UInt8) : List Char :=
  (scan none bytes).map fun unit => unit.getD '\uFFFD'

def decode? (bytes : List UInt8) : Option (List Char) :=
  (scan none bytes).mapM id

end TelemetryHub.Text
