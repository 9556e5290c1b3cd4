import AtaCapture.Ata.Label
import AtaCapture.Fault
import AtaCapture.Output

/-!
Consumers of events. A sink takes events one at a time and may refuse one with a fault; whoever
feeds it then stops. Its state is what it has made of the events so far.
-/

namespace AtaCapture.Ata

structure Sink (σ : Type) where
  /-- Takes an event, or refuses it; the state is kept in both cases. -/
  put : σ → Event → Option Fault × σ

namespace Sink

def collect : Sink (Array Event) where
  put events e := (none, events.push e)

/-- Takes this many events and refuses the one after them. -/
def atMost (limit : Nat) : Sink (Array Event) where
  put events e :=
    if events.size < limit then (none, events.push e) else (some (.device "sink full"), events)

end Sink

structure Log where
  output : Output
  /-- The lines written. -/
  count : Nat := 0
  deriving DecidableEq, Inhabited

namespace Log

def put (log : Log) (e : Event) : Option Fault × Log :=
  match log.output.write e.logLine with
  | (some reason, output) => (some (.device reason), { log with output })
  | (none, output) => (none, { output, count := log.count + 1 })

def sink : Sink Log where
  put := Log.put

end Log

/-- What a viewer is told about an event: its span, the index of its category and its
labels. -/
structure Annotation where
  start : Nat
  stop : Nat
  category : Nat
  labels : List String
  deriving DecidableEq, Repr

namespace Annotation

def ofEvent (e : Event) : Annotation :=
  { start := e.start
    stop := e.stop
    category := e.category.index
    labels := e.content.labels }

def sink : Sink (Array Annotation) where
  put annotations e := (none, annotations.push (.ofEvent e))

end Annotation

end AtaCapture.Ata
