import JlrModel.Lib.Text

-- Text that is safe to store in an event and to print on a terminal.

-- The other characters that must not be printed as themselves, as ranges with both ends included.
def hostileRanges : List (Nat × Nat) := [
  (0x00AD, 0x00AD), (0x034F, 0x034F), (0x0600, 0x0605), (0x061C, 0x061C), (0x06DD, 0x06DD),
  (0x070F, 0x070F), (0x08E2, 0x08E2), (0x115F, 0x115F), (0x1160, 0x1160), (0x17B4, 0x17B4),
  (0x17B5, 0x17B5), (0x180B, 0x180F), (0x200B, 0x200F), (0x2028, 0x202E), (0x2060, 0x206F),
  (0x2800, 0x2800), (0x3164, 0x3164), (0xFE00, 0xFE0F), (0xFEFF, 0xFEFF), (0xFFA0, 0xFFA0),
  (0xFFF9, 0xFFFC), (0x110BD, 0x110BD), (0x1D173, 0x1D17A), (0xE0000, 0xE0FFF)
]

def isHostile (c : Char) : Bool :=
  Text.isControl c ∨ hostileRanges.any fun r => r.1 ≤ c.toNat ∧ c.toNat ≤ r.2

def MARKER : String := "…[truncated]"

-- The number of a character in hexadecimal, between braces after `\u`.
def escape (c : Char) : List Char :=
  ['\\', 'u', '\x7b'] ++ Nat.toDigits 16 c.toNat ++ ['\x7d']

def piece (c : Char) : List Char :=
  if isHostile c then escape c else [c]

-- Writes the pieces of the characters one after the other, each as a whole, and the marker instead of
-- the first piece with which there would be more than `limit` bytes. So far there are `len`.
def sanitizeFrom (limit : Nat) : (len : Nat) → List Char → List Char
  | _, []        => []
  | len, c :: cs =>
    if limit < len + Text.len (.ofList (piece c)) then
      MARKER.toList
    else
      piece c ++ sanitizeFrom limit (len + Text.len (.ofList (piece c))) cs

-- Text that is safe and short enough stays as it is.
def sanitizeTo (s : String) (limit : Nat) : String :=
  if Text.len s ≤ limit + Text.len MARKER ∧ ¬ s.toList.any isHostile then
    s
  else
    .ofList (sanitizeFrom limit 0 s.toList)

def sanitize (s : String) : String :=
  sanitizeTo s 1024
