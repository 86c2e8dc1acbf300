import DesignTokens.Diagnostic.Basic

namespace DesignTokens

inductive DiagnosticGroup
  | references
  | decorators
  | sources
  deriving DecidableEq, Repr

def DiagnosticGroup.title : DiagnosticGroup → String
  | .references => "Property Reference Errors"
  | .decorators => "Decorator Warnings"
  | .sources => "Source Warnings"

structure Collector where
  groups : List (DiagnosticGroup × List Diagnostic)
  deriving DecidableEq, Repr

namespace Collector

def empty : Collector := ⟨[]⟩

def addOnce (messages : List Diagnostic) (message : Diagnostic) : List Diagnostic :=
  if messages.contains message then messages else messages ++ [message]

def addTo (group : DiagnosticGroup) (message : Diagnostic) :
    List (DiagnosticGroup × List Diagnostic) → List (DiagnosticGroup × List Diagnostic)
  | [] => [(group, [message])]
  | (g, messages) :: rest =>
    if g = group then (g, addOnce messages message) :: rest
    else (g, messages) :: addTo group message rest

def add (c : Collector) (group : DiagnosticGroup) (message : Diagnostic) : Collector :=
  ⟨addTo group message c.groups⟩

def addAll (c : Collector) (group : DiagnosticGroup) (messages : List Diagnostic) : Collector :=
  messages.foldl (fun c message => c.add group message) c

def messages (c : Collector) (group : DiagnosticGroup) : List Diagnostic :=
  (c.groups.lookup group).getD []

def count (c : Collector) (group : DiagnosticGroup) : Nat := (c.messages group).length

def flush (c : Collector) (group : DiagnosticGroup) : List Diagnostic × Collector :=
  (c.messages group, ⟨c.groups.filter (·.1 ≠ group)⟩)

def isEmpty (c : Collector) : Bool := c.groups.all (·.2.isEmpty)

def diagnostics (c : Collector) : List Diagnostic := c.groups.flatMap (·.2)

end Collector

end DesignTokens
