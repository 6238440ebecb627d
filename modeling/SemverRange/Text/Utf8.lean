import SemverRange.Numeric.Digit

/-!
# Texts from octets

A text is stored as octets in UTF-8.  What is no such text is refused at the first
octet that cannot belong to one; the refusal tells which octets make no character, and
why.

## Main definitions

* `Utf8.Fault` — why some octets are refused.
* `Utf8.decode` — the characters that octets stand for.
-/

namespace SemverRange

namespace Utf8

/-- Why octets make no character. -/
inductive Reason
  /-- The octet starts no character. -/
  | start
  /-- The octet after these does not continue the character. -/
  | continuation
  /-- The data end within a character. -/
  | ending
  deriving DecidableEq, Repr

/-- Octets that make no character: their place, their number, and the first of them. -/
structure Fault where
  pos : Nat
  count : Nat
  first : Nat
  reason : Reason
  deriving DecidableEq, Repr

/-- The wording of the reason. -/
def Reason.describe : Reason → String
  | start => "invalid start byte"
  | continuation => "invalid continuation byte"
  | ending => "unexpected end of data"

/-- The wording of the fault. -/
def Fault.message (f : Fault) : String :=
  let place :=
    if f.count = 1 then
      "byte 0x" ++ String.ofList (padded 16 2 f.first) ++ " in position " ++ toString f.pos
    else
      "bytes in position " ++ toString f.pos ++ "-" ++ toString (f.pos + f.count - 1)
  "'utf-8' codec can't decode " ++ place ++ ": " ++ f.reason.describe

/-- What the first octet of a character tells about the others. -/
structure Lead where
  /-- How many octets follow. -/
  more : Nat
  /-- The bits that the first octet contributes. -/
  bits : Nat
  /-- The least second octet. -/
  least : Nat
  /-- The greatest second octet. -/
  greatest : Nat

/-- What the first octet of a character tells.  The bounds on the second octet keep out
the characters that have a shorter form, the surrogates, and what is no character. -/
def lead? (b : Nat) : Option Lead :=
  if b < 0x80 then some ⟨0, b, 0x80, 0xBF⟩
  else if b < 0xC2 then none
  else if b < 0xE0 then some ⟨1, b - 0xC0, 0x80, 0xBF⟩
  else if b < 0xF0 then
    some ⟨2, b - 0xE0, if b = 0xE0 then 0xA0 else 0x80, if b = 0xED then 0x9F else 0xBF⟩
  else if b < 0xF5 then
    some ⟨3, b - 0xF0, if b = 0xF0 then 0x90 else 0x80, if b = 0xF4 then 0x8F else 0xBF⟩
  else none

/-- The code point that is finished by `more` further octets, of which the first lies
between the bounds.  If they do not, the reason comes with the number of those that do. -/
def continued (more bits least greatest : Nat) (bs : List UInt8) : Except (Reason × Nat) Nat :=
  match more, bs with
  | 0, _ => .ok bits
  | _ + 1, [] => .error (.ending, 0)
  | more + 1, b :: bs =>
    let n := b.toNat
    if least ≤ n ∧ n ≤ greatest then
      (continued more (bits * 64 + (n - 0x80)) 0x80 0xBF bs).mapError fun (r, k) => (r, k + 1)
    else .error (.continuation, 0)

/-- The characters that the octets stand for, which come after `pos` others. -/
def decodeFrom (pos : Nat) (bs : List UInt8) : Except Fault (List Char) :=
  match bs with
  | [] => .ok []
  | b :: bs =>
    match lead? b.toNat with
    | none => .error ⟨pos, 1, b.toNat, .start⟩
    | some l =>
      match continued l.more l.bits l.least l.greatest bs with
      | .error (reason, k) => .error ⟨pos, k + 1, b.toNat, reason⟩
      | .ok n => (Char.ofNat n :: ·) <$> decodeFrom (pos + l.more + 1) (bs.drop l.more)
termination_by bs.length
decreasing_by
  simp only [List.length_drop, List.length_cons]
  omega

/-- The characters that the octets stand for. -/
def decode (bs : List UInt8) : Except Fault (List Char) := decodeFrom 0 bs

end Utf8

end SemverRange
