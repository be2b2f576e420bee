import StaticStyle.Config.Basic

/-!
# Rules of scripts

The rules that the style calls of a script make.  Whoever collects the styles of
a script and whoever replaces its calls have to agree on them, so both take them
from here.
-/

namespace StaticStyle.Script

/-- The rule of a call of a script. -/
def ruleOf (c : Config) (script : Script) (file : String) (call : StyleCall) :
    Except StyleError ClassRule := do
  let d ← script.evaluate call file c.limits
  (c.naming.ruleOf d).mapError (.inScript file)

/-- The rules of the calls of a script, or the error of the first call that has
none. -/
def rules (c : Config) (script : Script) (file : String) : Except StyleError (List ClassRule) :=
  script.calls.mapM (script.ruleOf c file)

end StaticStyle.Script
