
namespace DesignTokens

inductive EventLevel
  | debug
  | info
  | warn
  deriving DecidableEq, Repr

def EventLevel.word : EventLevel → String
  | .debug => "DEBUG"
  | .info => "INFO"
  | .warn => "WARN"

structure Event where
  level : EventLevel
  message : String
  fields : List (String × String)
  deriving DecidableEq, Repr

def Event.text (e : Event) : String :=
  " ".intercalate <|
    e.level.word :: e.message ::
      (e.fields.mergeSort fun a b => a.1 ≤ b.1).map fun (key, value) => key ++ "=" ++ value

end DesignTokens
