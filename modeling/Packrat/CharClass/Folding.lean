import Packrat.CharClass.Lowercase

/-! # Letters that differ in case only

Every letter with variants has one folded form, and two characters differ in case only when
their folded forms are the same. The folded form of a capital is its small letter; the other
variants of a letter, such as the long `ſ` or the final `ς`, are listed with it.
-/

namespace Packrat.CharClass

/-- The code points of a run with their small letters. -/
def CaseRun.pairs (run : CaseRun) : List (Nat × Nat) :=
  (List.range ((run.last - run.first) / run.step + 1)).map fun index =>
    (run.first + index * run.step, run.small + index * run.step)

/-- The variants that are no capitals, with their folded forms. -/
def caseVariants : List (Nat × Nat) :=
  [(0xB5, 0x3BC), (0x17F, 0x73), (0x345, 0x3B9), (0x3C2, 0x3C3), (0x3D0, 0x3B2), (0x3D1, 0x3B8),
   (0x3D5, 0x3C6), (0x3D6, 0x3C0), (0x3F0, 0x3BA), (0x3F1, 0x3C1), (0x3F5, 0x3B5),
   (0x1C80, 0x432), (0x1C81, 0x434), (0x1C82, 0x43E), (0x1C83, 0x441), (0x1C84, 0x442),
   (0x1C85, 0x442), (0x1C86, 0x44A), (0x1C87, 0x463), (0x1C88, 0xA64B), (0x1E9B, 0x1E61),
   (0x1FBE, 0x3B9), (0x1FD3, 0x390), (0x1FE3, 0x3B0), (0xFB05, 0xFB06)]

/-- The capital letters of ASCII with their folded forms. -/
def asciiFolds : List (Nat × Nat) := CaseRun.pairs ⟨0x41, 0x5A, 1, 0x61⟩

/-- The code points whose folded form is another, with that form. -/
def folds : List (Nat × Nat) := asciiFolds ++ caseRuns.flatMap CaseRun.pairs ++ caseVariants

end Packrat.CharClass
