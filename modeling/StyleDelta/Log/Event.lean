import StyleDelta.Sheet.Basic
import StyleDelta.Text.Quoted

/-!
The events of a comparison that a log can show.
-/

namespace StyleDelta.Log

/-- How much an event matters; the order of the constructors is from the most
important to the least. -/
inductive Level where
  | error | warn | info | debug | trace
  deriving DecidableEq, Repr

def Level.rank : Level → Nat
  | .error => 1
  | .warn => 2
  | .info => 3
  | .debug => 4
  | .trace => 5

def Level.text : Level → String
  | .error => "ERROR"
  | .warn => "WARN"
  | .info => "INFO"
  | .debug => "DEBUG"
  | .trace => "TRACE"

inductive Event where
  /-- A sheet with so many top-level nodes was read. -/
  | loaded (origin : String) (nodes : Nat)
  /-- Two lists of siblings were matched. -/
  | matched (pairs extra missing : Nat)
  /-- A matched node of a kind and place has other contents. -/
  | differs (kind : String) (span : Span)
  /-- Two sheets were compared. -/
  | compared (changed : Bool) (extra missing modified : Nat)
  deriving DecidableEq, Repr

namespace Event

def level : Event → Level
  | loaded .. => .debug
  | matched .. => .trace
  | differs .. => .trace
  | compared .. => .debug

/-- The name under which a filter finds the event. -/
def target : Event → String
  | loaded .. => "cssdiff_core::loader"
  | matched .. => "cssdiff_core::matcher"
  | differs .. => "cssdiff_core::differ"
  | compared .. => "cssdiff_core::differ"

def message : Event → String
  | loaded origin nodes => s!"loaded stylesheet origin={Text.quote origin} nodes={nodes}"
  | matched pairs extra missing =>
    s!"matched sibling nodes pairs={pairs} extra={extra} missing={missing}"
  | differs kind span => s!"matched node differs kind={Text.quote kind} span={span.text}"
  | compared changed extra missing modified =>
    s!"compared stylesheets changed={changed} extra={extra} missing={missing} modified={modified}"

/-- The line of the log. -/
def line (event : Event) : String := event.level.text ++ " " ++ event.message

end Event

end StyleDelta.Log
