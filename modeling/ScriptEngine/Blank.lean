/-! The characters that separate words without meaning anything: those with the Unicode property
White_Space. -/

namespace ScriptEngine

def blankRuns : List (Nat × Nat) :=
  [(0x9, 0xD), (0x20, 0x20), (0x85, 0x85), (0xA0, 0xA0), (0x1680, 0x1680), (0x2000, 0x200A),
    (0x2028, 0x2029), (0x202F, 0x202F), (0x205F, 0x205F), (0x3000, 0x3000)]

def isBlank (char : Char) : Bool :=
  blankRuns.any fun (first, last) => first ≤ char.toNat && char.toNat ≤ last

example : (blankRuns.map fun (first, last) => last + 1 - first).sum = 25 := by decide

end ScriptEngine
