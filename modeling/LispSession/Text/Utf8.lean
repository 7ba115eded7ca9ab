/-!
# Bytes and text

Streams deliver bytes and channels accept bytes, so a text can be cut inside a character.
`decodeUtf8?` accepts well-formed UTF-8 only; `showUtf8` puts the replacement character for
every maximal piece that is the beginning of a character without its end, or no character at all.
`utf8Length` counts the bytes of a text.
-/
namespace LispSession

/-- How many bytes a text takes. -/
def utf8Length (cs : List Char) : Nat := cs.foldr (fun c later => c.utf8Size + later) 0

@[simp] theorem utf8Length_nil : utf8Length [] = 0 := rfl

@[simp] theorem utf8Length_cons (c : Char) (cs : List Char) :
    utf8Length (c :: cs) = c.utf8Size + utf8Length cs := rfl

@[simp] theorem utf8Length_append (as bs : List Char) :
    utf8Length (as ++ bs) = utf8Length as + utf8Length bs := by
  induction as with
  | nil => simp
  | cons c cs ih => simp [ih, Nat.add_assoc]

@[simp] theorem utf8Length_reverse (cs : List Char) : utf8Length cs.reverse = utf8Length cs := by
  induction cs with
  | nil => rfl
  | cons c cs ih => simp [ih, Nat.add_comm]

/-- The text that the bytes spell, if they spell one. -/
def decodeUtf8? (bytes : List UInt8) : Option (List Char) :=
  (String.fromUTF8? ⟨bytes.toArray⟩).map String.toList

/-! ## Reading damaged text

A character starts with a byte that fixes its length; the byte after it has a narrower range
for some starts (no overlong forms, no surrogates, nothing past the last code point), and the
others are plain continuation bytes. -/

/-- What a first byte announces: its own bits, the allowed range of the second byte, and how many
continuation bytes follow that one. -/
def utf8Start? (b : UInt8) : Option (Nat × UInt8 × UInt8 × Nat) :=
  let n := b.toNat
  if 0xC2 ≤ n && n ≤ 0xDF then some (n - 0xC0, 0x80, 0xBF, 0)
  else if n == 0xE0 then some (0, 0xA0, 0xBF, 1)
  else if n == 0xED then some (0xD, 0x80, 0x9F, 1)
  else if 0xE1 ≤ n && n ≤ 0xEF then some (n - 0xE0, 0x80, 0xBF, 1)
  else if n == 0xF0 then some (0, 0x90, 0xBF, 2)
  else if 0xF1 ≤ n && n ≤ 0xF3 then some (n - 0xF0, 0x80, 0xBF, 2)
  else if n == 0xF4 then some (4, 0x80, 0x8F, 2)
  else none

/-- The character that replaces what cannot be read. -/
def replacement : Char := '\uFFFD'

/-- A character under way: the bits so far, the range its next byte must lie in, and how many bytes
follow that one. -/
structure PartialChar where
  bits : Nat
  low : UInt8
  high : UInt8
  later : Nat

/-- One byte at a time: continue the character under way, or give it up and start afresh. -/
def showUtf8From (out : String) (under? : Option PartialChar) : List UInt8 → String
  | [] => if under?.isSome then out.push replacement else out
  | b :: bs =>
    let fresh (out : String) : String × Option PartialChar :=
      if b < 0x80 then (out.push (Char.ofNat b.toNat), none)
      else
        match utf8Start? b with
        | some (bits, low, high, later) => (out, some ⟨bits, low, high, later⟩)
        | none => (out.push replacement, none)
    let (out, under?) :=
      match under? with
      | none => fresh out
      | some p =>
        if p.low ≤ b && b ≤ p.high then
          let bits := p.bits * 64 + b.toNat % 64
          match p.later with
          | 0 => (out.push (Char.ofNat bits), none)
          | later + 1 => (out, some ⟨bits, 0x80, 0xBF, later⟩)
        else fresh (out.push replacement)
    showUtf8From out under? bs

/-- Every byte sequence as text, with the replacement character where it is damaged. -/
def showUtf8 (bytes : List UInt8) : String := showUtf8From "" none bytes

end LispSession
