import PeerShare.Text.Basic

/-!
UTF-8 over lists of bytes. `encode` writes characters, `decode` reads them back or says at which
byte the text stops being UTF-8 and whether it was merely cut short there. Bytes are shown as
hexadecimal text, two digits for each.
-/

namespace PeerShare

abbrev Bytes := List UInt8

namespace Text

def cont (n : Nat) : UInt8 := UInt8.ofNat (0x80 + n % 64)

def encodeChar (c : Char) : Bytes :=
  let n := c.toNat
  if n < 0x80 then [UInt8.ofNat n]
  else if n < 0x800 then [UInt8.ofNat (0xC0 + n / 64), cont n]
  else if n < 0x10000 then [UInt8.ofNat (0xE0 + n / 4096), cont (n / 64), cont n]
  else [UInt8.ofNat (0xF0 + n / 262144), cont (n / 4096), cont (n / 64), cont n]

def encode (s : List Char) : Bytes := s.flatMap encodeChar

/-- Where bytes stop being UTF-8: the length of the sound part, and the number of bytes that
cannot belong to any character, or none when the text ends inside one. -/
structure Flaw where
  validUpTo : Nat
  badLength : Option Nat
  deriving DecidableEq, Repr

def Flaw.message (f : Flaw) : String :=
  match f.badLength with
  | some k => s!"invalid utf-8 sequence of {k} bytes from index {f.validUpTo}"
  | none => s!"incomplete utf-8 byte sequence from index {f.validUpTo}"

/-- What follows a first byte: the number of further bytes and the range of the first of them. -/
def follow (lead : Nat) : Option (Nat × Nat × Nat) :=
  if lead < 0xC2 then none
  else if lead < 0xE0 then some (1, 0x80, 0xBF)
  else if lead = 0xE0 then some (2, 0xA0, 0xBF)
  else if lead = 0xED then some (2, 0x80, 0x9F)
  else if lead < 0xF0 then some (2, 0x80, 0xBF)
  else if lead = 0xF0 then some (3, 0x90, 0xBF)
  else if lead < 0xF4 then some (3, 0x80, 0xBF)
  else if lead = 0xF4 then some (3, 0x80, 0x8F)
  else none

def isTail (b : UInt8) : Bool := 0x80 ≤ b.toNat && b.toNat ≤ 0xBF

def point (lead : Nat) (tails : Bytes) : Char :=
  Char.ofNat (tails.foldl (fun n b => n * 64 + (b.toNat - 0x80)) lead)

def decodeFrom (start : Nat) : Bytes → Except Flaw (List Char)
  | [] => .ok []
  | a :: r =>
    if a.toNat < 0x80 then (decodeFrom (start + 1) r).map (point a.toNat [] :: ·)
    else match follow a.toNat with
      | none => .error ⟨start, some 1⟩
      | some (k, low, high) =>
        match r with
        | [] => .error ⟨start, none⟩
        | b :: r =>
          if ¬ (low ≤ b.toNat ∧ b.toNat ≤ high) then .error ⟨start, some 1⟩
          else if k = 1 then
            (decodeFrom (start + 2) r).map (point (a.toNat - 0xC0) [b] :: ·)
          else match r with
            | [] => .error ⟨start, none⟩
            | c :: r =>
              if ¬ isTail c then .error ⟨start, some 2⟩
              else if k = 2 then
                (decodeFrom (start + 3) r).map (point (a.toNat - 0xE0) [b, c] :: ·)
              else match r with
                | [] => .error ⟨start, none⟩
                | d :: r =>
                  if ¬ isTail d then .error ⟨start, some 3⟩
                  else (decodeFrom (start + 4) r).map (point (a.toNat - 0xF0) [b, c, d] :: ·)

def decode (bytes : Bytes) : Except Flaw (List Char) := decodeFrom 0 bytes

def bytes (s : String) : Bytes := encode s.toList

def hexOfBytes (bytes : Bytes) : String :=
  String.ofList (bytes.flatMap fun b => hexDigits 2 b.toNat)

/-- Characters that are no digits count as zero; a last digit alone is dropped. -/
def bytesOfHex (s : String) : Bytes := go s.toList
where
  go : List Char → Bytes
    | a :: b :: r =>
      UInt8.ofNat ((hexValue a).getD 0 * 16 + (hexValue b).getD 0) :: go r
    | _ => []

end Text

end PeerShare
