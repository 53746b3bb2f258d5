import Swyft.JsNumber

/-!
# Values of the language

The values a message can carry, and the operators that convert what they are given. An object is
known by the text it becomes; objects that become none, and those that are compared with
themselves, are left out.

## Main definitions

* `Js.Value` — numbers, texts, truth values, objects, `null` and `undefined`
* `Js.Value.toNumber` — `Number(value)`
* `Js.Value.less`, `Js.Value.strictEq`, `Js.Value.plus` — `<`, `===`, and `+` with a number
-/

namespace Swyft.Js

/-- The units of UTF-16 of a text. -/
def utf16 (text : String) : List ℕ :=
  text.toList.flatMap fun c =>
    if c.toNat < 0x10000 then [c.toNat]
    else [0xD800 + (c.toNat - 0x10000) / 0x400, 0xDC00 + (c.toNat - 0x10000) % 0x400]

/-- `<` between numbers. -/
def Number.less : Number → Number → Bool
  | nan, _ | _, nan => false
  | finite p, finite q => p < q
  | finite _, infinite negative => !negative
  | infinite negative, finite _ => negative
  | infinite s, infinite t => s && !t

inductive Value where
  | number (x : Number)
  | string (text : String)
  | boolean (b : Bool)
  | object (text : String)
  | null
  | undefined
  deriving DecidableEq

namespace Value

/-- A finite number. -/
abbrev finite (q : ℚ) : Value := number (.finite q)

def toPrimitive : Value → Value
  | object text => string text
  | v => v

/-- `Number(value)`. -/
def toNumber : Value → Number
  | number x => x
  | string text | object text => Js.toNumber text
  | boolean b => .finite (if b then 1 else 0)
  | null => .finite 0
  | undefined => .nan

/-- `<`: texts are compared as texts, all else as numbers. -/
def less (a b : Value) : Bool :=
  match a.toPrimitive, b.toPrimitive with
  | string s, string t => utf16 s < utf16 t
  | a, b => a.toNumber.less b.toNumber

/-- `===`. Two objects are never the same one. -/
def strictEq : Value → Value → Bool
  | number .nan, number .nan => false
  | object _, object _ => false
  | a, b => a = b

/-- `+` with a number: a text has it appended. -/
def plus (a : Value) (x : Number) : Value :=
  match a.toPrimitive with
  | string s => string (s ++ String.ofList x.toText)
  | a => number (a.toNumber.add x)

@[simp] theorem less_finite (p q : ℚ) : less (finite p) (finite q) = decide (p < q) := rfl

@[simp] theorem plus_finite (p q : ℚ) : plus (finite p) (.finite q) = number (.ofRat (p + q)) := rfl

@[simp] theorem strictEq_finite (p q : ℚ) : strictEq (finite p) (finite q) = decide (p = q) := by
  simp [strictEq, finite]

end Value

end Swyft.Js
