import Headfirst.Text.Identifier
import Headfirst.Text.Printable

namespace Headfirst

structure Settings where
  maxSplices : Int := 10000
  maxPasses : Int := 16
  /-- Whether compound operands are put in parentheses. -/
  parenthesize : Bool := true
  /-- Whether malformed occurrences are left as they are, with a warning. -/
  tolerant : Bool := false
  /-- Whether the invisible groups of replacements stay in the result. -/
  keepGroups : Bool := false
  macroName : String := "sonic_spin"
deriving DecidableEq, Repr

structure Overrides where
  maxSplices : Option Int := none
  maxPasses : Option Int := none
  parenthesize : Option Bool := none
  tolerant : Option Bool := none
  keepGroups : Option Bool := none
  macroName : Option String := none
deriving DecidableEq, Repr

namespace Settings

def override (settings : Settings) (overrides : Overrides) : Settings where
  maxSplices := overrides.maxSplices.getD settings.maxSplices
  maxPasses := overrides.maxPasses.getD settings.maxPasses
  parenthesize := overrides.parenthesize.getD settings.parenthesize
  tolerant := overrides.tolerant.getD settings.tolerant
  keepGroups := overrides.keepGroups.getD settings.keepGroups
  macroName := overrides.macroName.getD settings.macroName

@[simp] theorem override_empty (settings : Settings) : settings.override {} = settings := rfl

def problems (settings : Settings) : List String :=
  (if settings.maxSplices ≤ 0 then ["max_rewrites must be positive"] else []) ++
    (if settings.maxPasses ≤ 0 then ["max_passes must be positive"] else []) ++
    if Text.isIdentifier settings.macroName then []
    else [s!"macro_name {Text.quoted settings.macroName} is not an identifier"]

end Settings

end Headfirst
