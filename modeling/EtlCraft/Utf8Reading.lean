import Mathlib

/-! Reading UTF-8 a byte at a time: the characters that are complete, the one begun, and a
replacement character for what no character begins with or goes on with. -/

namespace Utf8Reading

/-- A character that has begun: how many bytes it still takes, the next one's bounds, and the value
so far. -/
structure Begun where
  left : Nat
  low : Nat := 0x80
  high : Nat := 0xbf
  value : Nat
  deriving DecidableEq, Repr

def replacement : Char :=
  Char.ofNat 0xfffd

def first (byte : Nat) : List Char × Option Begun :=
  if byte < 0x80 then ([Char.ofNat byte], none)
  else if 0xc2 ≤ byte ∧ byte ≤ 0xdf then ([], some { left := 1, value := byte - 0xc0 })
  else if byte = 0xe0 then ([], some { left := 2, low := 0xa0, value := 0 })
  else if byte = 0xed then ([], some { left := 2, high := 0x9f, value := 0xd })
  else if 0xe1 ≤ byte ∧ byte ≤ 0xef then ([], some { left := 2, value := byte - 0xe0 })
  else if byte = 0xf0 then ([], some { left := 3, low := 0x90, value := 0 })
  else if 0xf1 ≤ byte ∧ byte ≤ 0xf3 then ([], some { left := 3, value := byte - 0xf0 })
  else if byte = 0xf4 then ([], some { left := 3, high := 0x8f, value := 4 })
  else ([replacement], none)

def feed (begun : Option Begun) (byte : Nat) : List Char × Option Begun :=
  match begun with
  | none => first byte
  | some begun =>
      if begun.low ≤ byte ∧ byte ≤ begun.high then
        let value := begun.value * 64 + (byte - 0x80)
        if begun.left ≤ 1 then ([Char.ofNat value], none)
        else ([], some { left := begun.left - 1, value })
      else
        -- the byte may begin a character of its own
        let again := first byte
        (replacement :: again.1, again.2)

def decode (begun : Option Begun) : List Nat → List Char × Option Begun
  | [] => ([], begun)
  | byte :: bytes =>
      let now := feed begun byte
      let later := decode now.2 bytes
      (now.1 ++ later.1, later.2)

/-- What the end of the bytes makes of a character that has begun. -/
def flush (begun : Option Begun) : List Char :=
  if begun.isSome then [replacement] else []

def text (bytes : List Nat) : List Char :=
  (decode none bytes).1 ++ flush (decode none bytes).2

theorem decode_append (begun : Option Begun) (first second : List Nat) :
    decode begun (first ++ second) =
      ((decode begun first).1 ++ (decode (decode begun first).2 second).1,
        (decode (decode begun first).2 second).2) := by
  induction first generalizing begun with
  | nil => rfl
  | cons byte bytes ih =>
      rw [List.cons_append, decode, ih]
      simp [decode]

-- an overlong form, a surrogate and a cut character
example : text [0x68, 0xc3, 0xa9, 0xe0, 0x80, 0xed, 0xa0, 0xf0, 0x9f] =
    'h' :: Char.ofNat 0xe9 :: List.replicate 5 replacement := by decide

end Utf8Reading
