import AtaCapture.Instances

/-!
Command line arguments. An option has a long name behind two dashes and may have a letter
behind one. One that needs a value takes it from the same argument, or else from the next one,
which then must not look like an option itself. What follows a bare double dash is no option,
and neither is a single dash. No option may be given twice.
-/

namespace AtaCapture.CommandLine

structure Switch where
  long : String
  short : Option Char := none
  takesValue : Bool := true
  deriving DecidableEq, Repr

structure Arguments where
  /-- The options by their long names, in the order given. -/
  given : List (String × String) := []
  /-- The arguments that are no options. -/
  free : List String := []
  deriving DecidableEq, Repr, Inhabited

namespace Arguments

def has (a : Arguments) (long : String) : Bool := a.given.any fun option => option.1 = long

def value? (a : Arguments) (long : String) : Option String :=
  (a.given.find? fun option => option.1 = long).map Prod.snd

def give (a : Arguments) (long value : String) : Option Arguments :=
  if a.has long then none else some { a with given := a.given ++ [(long, value)] }

def addFree (a : Arguments) (texts : List String) : Arguments :=
  { a with free := a.free ++ texts }

end Arguments

inductive Shape where
  | endOfOptions
  | long (name : List Char) (value : Option (List Char))
  | short (letters : List Char)
  | free
  deriving DecidableEq, Repr

def splitValue (text : List Char) : List Char × Option (List Char) :=
  match text.span (· ≠ '=') with
  | (name, _ :: value) => (name, some value)
  | (name, []) => (name, none)

def Shape.ofChars : List Char → Shape
  | ['-', '-'] => .endOfOptions
  | '-' :: '-' :: rest => let (name, value) := splitValue rest; .long name value
  | '-' :: c :: rest => .short (c :: rest)
  | _ => .free

def isPlain (argument : String) : Bool := Shape.ofChars argument.toList = .free

/-- The letters of an argument with a single dash. The first letter with a value ends them:
what is left is the value, an equals sign in front of it aside. Gives the switch that still
needs a value from the next argument, if there is one. -/
def readLetters (switches : List Switch) (a : Arguments) :
    List Char → Option (Arguments × Option Switch)
  | [] => some (a, none)
  | c :: rest =>
    match switches.find? fun s => s.short = some c with
    | none => none
    | some s =>
      if s.takesValue then
        match rest with
        | [] => some (a, some s)
        | '=' :: value => (a.give s.long (String.ofList value)).map (·, none)
        | value => (a.give s.long (String.ofList value)).map (·, none)
      else (a.give s.long "").bind fun a => readLetters switches a rest

def readLong (switches : List Switch) (a : Arguments) (name : List Char)
    (value : Option (List Char)) : Option (Arguments × Option Switch) :=
  match switches.find? fun s => s.long.toList = name with
  | none => none
  | some s =>
    match s.takesValue, value with
    | true, some value => (a.give s.long (String.ofList value)).map (·, none)
    | true, none => some (a, some s)
    | false, some _ => none
    | false, none => (a.give s.long "").map (·, none)

/-- Reads the arguments that follow those in `a`. While a switch waits for its value, the next
argument has to be that value. -/
def readFrom (switches : List Switch) (a : Arguments) (waiting : Option Switch) :
    List String → Option Arguments
  | [] => if waiting.isSome then none else some a
  | argument :: rest =>
    match waiting with
    | some s =>
      if isPlain argument then
        (a.give s.long argument).bind fun a => readFrom switches a none rest
      else none
    | none =>
      match Shape.ofChars argument.toList with
      | .endOfOptions => some (a.addFree rest)
      | .free => readFrom switches (a.addFree [argument]) none rest
      | .long name value =>
        (readLong switches a name value).bind fun (a, waiting) =>
          readFrom switches a waiting rest
      | .short letters =>
        (readLetters switches a letters).bind fun (a, waiting) =>
          readFrom switches a waiting rest

def read (switches : List Switch) (arguments : List String) : Option Arguments :=
  readFrom switches {} none arguments

/-! ### Values -/

/-- A natural number below `2 ^ 64`, with a plus sign or without. -/
def natural? (text : String) : Option Nat :=
  let digits := match text.toList with
    | '+' :: rest => rest
    | text => text
  if digits ≠ [] ∧ digits.all Char.isDigit then
    let n := Nat.ofDigitChars 10 digits 0
    if n < 2 ^ 64 then some n else none
  else none

/-- The value of an option, read by `parse`; `other` if the option was not given. Nothing if
the text is no such value. -/
def optionOr {α : Type} (a : Arguments) (long : String) (other : α)
    (parse : String → Option α) : Option α :=
  match a.value? long with
  | none => some other
  | some text => parse text

end AtaCapture.CommandLine
