import Drayage.Text.Lowercase

/-!
# Case folding

Two characters are the same but for case if they have one folding: the lower case, with the
variants of some letters mapped to the plain letter.
-/

namespace Drayage.Text

def letterVariants : List (Nat × Nat) := [
  (0xb5, 0x3bc), (0x17f, 0x73), (0x345, 0x3b9), (0x3c2, 0x3c3), (0x3d0, 0x3b2), (0x3d1, 0x3b8),
  (0x3d5, 0x3c6), (0x3d6, 0x3c0), (0x3f0, 0x3ba), (0x3f1, 0x3c1), (0x3f5, 0x3b5),
  (0x1c80, 0x432), (0x1c81, 0x434), (0x1c82, 0x43e), (0x1c83, 0x441), (0x1c84, 0x442),
  (0x1c85, 0x442), (0x1c86, 0x44a), (0x1c87, 0x463), (0x1c88, 0xa64b), (0x1e9b, 0x1e61),
  (0x1fbe, 0x3b9)]

def fold (c : Char) : Char :=
  match letterVariants.find? fun v => v.1 == c.toNat with
  | some (_, plain) => Char.ofNat plain
  | none => lowerChar c

def uppersOf (lower : Char) : List Char :=
  lowerRuns.filterMap fun (a, b, step, l) =>
    let c := a + lower.toNat - l
    if l ≤ lower.toNat && c ≤ b && (c - a) % step == 0 then some (Char.ofNat c) else none

/-- All characters with the folding of a character. -/
def casings (c : Char) : List Char :=
  let f := fold c
  c :: f :: uppersOf f ++ letterVariants.filterMap fun v =>
    if v.2 == f.toNat then some (Char.ofNat v.1) else none

end Drayage.Text
