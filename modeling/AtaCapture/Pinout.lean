import AtaCapture.Fault

/-!
Pinouts. A signal is a run of neighbouring lines with a name and the short symbol that
waveforms use for it. A pinout is a list of signals in display order whose runs tile the lines
of the capture from offset 0 on, without overlap or gap, under symbols that are all different.
-/

namespace AtaCapture

structure Signal where
  /-- The offset of the lowest line. -/
  bit : Nat
  width : Nat
  name : String
  symbol : String
  deriving DecidableEq, Repr, Inhabited

structure Pinout where
  signals : List Signal
  /-- The number of lines. -/
  width : Nat
  deriving DecidableEq, Repr, Inhabited

namespace Pinout

/-! ### Checking a list of signals -/

/-- The offset that is `count` lines above another. Offsets have 32 bits, and start over behind
the last one. -/
def above (offset count : Nat) : Nat := (offset + count) % 2 ^ 32

theorem above_of_lt {offset count : Nat} (h : offset + count < 2 ^ 32) :
    above offset count = offset + count :=
  Nat.mod_eq_of_lt h

/-- Lays signals in ascending order next to each other, the first at `next`, and gives the
offset behind the last. -/
def lay (next : Nat) : List Signal → Except PinoutFault Nat
  | [] => .ok next
  | s :: rest =>
    if s.width = 0 then .error (.zeroWidth s.name)
    else if s.bit < next then .error (.overlap s.name s.bit)
    else if next < s.bit then .error (.uncovered next s.bit)
    else lay (above s.bit s.width) rest

/-- The first symbol that already occurred, after the symbols in `seen`. -/
def repeatedSymbol (seen : List String) : List Signal → Option String
  | [] => none
  | s :: rest =>
    if s.symbol ∈ seen then some s.symbol else repeatedSymbol (s.symbol :: seen) rest

def sortByBit (signals : List Signal) : List Signal :=
  signals.mergeSort fun a b => a.bit ≤ b.bit

def check (signals : List Signal) : Except PinoutFault Nat :=
  if signals.isEmpty then .error .empty
  else match lay 0 (sortByBit signals) with
    | .error cause => .error cause
    | .ok width =>
      if 64 < width then .error (.tooWide width)
      else match repeatedSymbol [] signals with
        | some symbol => .error (.duplicateSymbol symbol)
        | none => .ok width

def ofSignals (signals : List Signal) : Except Fault Pinout :=
  match check signals with
  | .error cause => .error (.pinout cause)
  | .ok width => .ok { signals, width }

/-! ### Finding lines -/

def find? (p : Pinout) (name : String) : Option Signal :=
  p.signals.find? fun s => s.name = name

/-- The offset of a line: that of the single line called `line`, or else the line `index` of
the bus called `bus`. -/
def lineOffset (p : Pinout) (line bus : String) (index : Nat) : Option Nat :=
  match (p.find? line).filter (·.width = 1) with
  | some s => some s.bit
  | none => ((p.find? bus).filter (index < ·.width)).map fun s => above s.bit index

/-! ### The recorder's own pinout -/

def line (bit : Nat) (name symbol : String) : Signal := { bit, width := 1, name, symbol }

def dataLine (i : Nat) : Signal := line (8 + i) s!"D{i}" s!"d{i}"

/-- Every line of the recorder as a signal of its own, so that viewers can assign the lines
they look for by name. -/
def flat : Pinout where
  signals :=
    [line 0 "DIOW" "W", line 1 "DIOR" "R", line 2 "DA0" "A0", line 3 "DA1" "A1",
      line 4 "DA2" "A2", line 5 "CS0" "C0", line 6 "CS1" "C1", line 7 "DMACK" "D"]
    ++ (List.range 16).map dataLine
    ++ [line 24 "DATA_SEL" "s", line 25 "DATA_DIR" "r", line 26 "IORDY" "i"]
  width := 27

def grouped : Pinout where
  signals :=
    [line 0 "DIOW" "W", line 1 "DIOR" "R",
      { bit := 2, width := 3, name := "DA", symbol := "A" },
      line 5 "CS0" "c", line 6 "CS1" "C", line 7 "DMACK" "D",
      { bit := 8, width := 16, name := "DATA", symbol := "d" },
      line 24 "DATA_SEL" "s", line 25 "DATA_DIR" "r", line 26 "IORDY" "i"]
  width := 27

end Pinout

end AtaCapture
