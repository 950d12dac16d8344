import Scriptlet.Log

/-!
# Command lines

The program takes a file, or one of the commands `run`, `check` and `repl`. Options stand before or
after the command; an option of the command wins over the same option before it. An option other
than a verbosity is given at most once on each side, and what follows `--` is no option and no
command.
-/

namespace Scriptlet.CommandLine

/-- What to print instead of running. -/
inductive Emit where
  | tokens
  | tree
deriving DecidableEq, Repr

def Emit.ofName? : String → Option Emit
  | "tokens" => some tokens
  | "ast" => some tree
  | _ => none

/-- How errors are shown. -/
inductive ErrorFormat where
  | human
  | json
deriving DecidableEq, Repr

def ErrorFormat.ofName? : String → Option ErrorFormat
  | "human" => some human
  | "json" => some json
  | _ => none

inductive Command where
  | run (file : String)
  | check (file : String)
  | repl
deriving DecidableEq, Repr

/-- The options on one side of the command word. -/
structure Options where
  emit : Option Emit := none
  errorFormat : Option ErrorFormat := none
  blockScope : Bool := false
  verbose : Nat := 0
deriving DecidableEq, Repr

/-- The options that hold when `inner` stand after the command word and `outer` before it. -/
def Options.override (outer inner : Options) : Options where
  emit := inner.emit.or outer.emit
  errorFormat := inner.errorFormat.or outer.errorFormat
  blockScope := inner.blockScope || outer.blockScope
  verbose := if inner.verbose = 0 then outer.verbose else inner.verbose

structure Settings where
  emit : Option Emit
  errorFormat : ErrorFormat
  blockScope : Bool
  verbosity : Verbosity
deriving DecidableEq, Repr

def Options.settings (options : Options) : Settings where
  emit := options.emit
  errorFormat := options.errorFormat.getD .human
  blockScope := options.blockScope
  verbosity :=
    match options.verbose with
    | 0 => .quiet
    | 1 => .debug
    | _ => .trace

/-- What a command line asks for. -/
inductive Request where
  | usage
  | version
  | help
  | execute (command : Command) (settings : Settings)
deriving DecidableEq, Repr

/-! ## Single arguments -/

/-- What an argument is by its spelling; an option's value may be attached by `=`. -/
inductive Argument where
  | escape
  | emit (value : Option String)
  | errorFormat (value : Option String)
  | blockScope
  /-- One-letter flags, or a long flag as its letter. -/
  | letters (letters : List Char)
  | word (text : String)
  | unknown
deriving DecidableEq, Repr

/-- The value that `text` attaches to the option called `name`. -/
def attached? (name : String) (text : String) : Option String :=
  let start := (name ++ "=").toList
  if start.isPrefixOf text.toList then some (String.ofList (text.toList.drop start.length))
  else none

def Argument.ofText (text : String) : Argument :=
  match text.toList with
  | '-' :: '-' :: _ =>
    match text with
    | "--" => escape
    | "--emit" => emit none
    | "--error-format" => errorFormat none
    | "--block-scope" => blockScope
    | "--verbose" => letters ['v']
    | "--version" => letters ['V']
    | "--help" => letters ['h']
    | _ =>
      match attached? "--emit" text, attached? "--error-format" text with
      | some value, _ => emit (some value)
      | none, some value => errorFormat (some value)
      | none, none => unknown
  | '-' :: c :: others => letters (c :: others)
  | _ => word text

/-! ## Whole command lines -/

/-- Where in the command line a reader is. -/
inductive Level where
  | top
  | run
  | check
  | repl
deriving DecidableEq, Repr

def Level.ofWord? : String → Option Level
  | "run" => some run
  | "check" => some check
  | "repl" => some repl
  | _ => none

/-- What has been read so far. -/
structure State where
  level : Level := .top
  /-- The options before the command word. -/
  outer : Options := {}
  /-- The options of the current level. -/
  options : Options := {}
  file : Option String := none

namespace State

def setEmit (value : String) (state : State) : Option State :=
  match Emit.ofName? value, state.options.emit with
  | some emit, none => some { state with options := { state.options with emit := some emit } }
  | _, _ => none

def setErrorFormat (value : String) (state : State) : Option State :=
  match ErrorFormat.ofName? value, state.options.errorFormat with
  | some format, none =>
    some { state with options := { state.options with errorFormat := some format } }
  | _, _ => none

def setBlockScope (state : State) : Option State :=
  if state.options.blockScope then none
  else some { state with options := { state.options with blockScope := true } }

/-- A file name, which is not empty and given at most once where one is taken. -/
def setFile (text : String) (state : State) : Option State :=
  if text == "" || state.level == .repl || state.file.isSome then none
  else some { state with file := some text }

/-- Goes on after a command word. -/
def enter (level : Level) (state : State) : State :=
  { level := level, outer := state.options }

/-- Reads flags letter by letter; `version` and `help` end the reading at once. -/
def setLetters : List Char → State → Except Request State
  | [], state => .ok state
  | 'v' :: rest, state =>
    setLetters rest
      { state with options := { state.options with verbose := state.options.verbose + 1 } }
  | 'h' :: _, _ => .error .help
  | 'V' :: _, state => .error (if state.level == .top then .version else .usage)
  | _, _ => .error .usage

/-- The request once all arguments are read. -/
def finish (state : State) : Request :=
  match state.level, state.file with
  | .top, some file => .execute (.run file) state.options.settings
  | .top, none => .execute .repl state.options.settings
  | .run, some file => .execute (.run file) (state.outer.override state.options).settings
  | .check, some file => .execute (.check file) (state.outer.override state.options).settings
  | .repl, _ => .execute .repl (state.outer.override state.options).settings
  | .run, none | .check, none => .usage

/-- Reads arguments of which none is an option. -/
def readFiles : List String → State → Request
  | [], state => state.finish
  | text :: rest, state =>
    match state.setFile text with
    | some state => readFiles rest state
    | none => .usage

/-- Help for the program or for the one command that is named. -/
def readHelp : List String → Request
  | [] => .help
  | [text] => if text == "help" || (Level.ofWord? text).isSome then .help else .usage
  | _ => .usage

/-- Whether an argument can be the value of an option before it. -/
def isValue (text : String) : Bool :=
  match text.toList with
  | '-' :: _ :: _ => false
  | _ => true

def readArgs : List String → State → Request
  | [], state => state.finish
  | text :: rest, state =>
    match Argument.ofText text with
    | .escape => readFiles rest state
    | .unknown => .usage
    | .blockScope => (state.setBlockScope).elim .usage (readArgs rest)
    | .emit (some value) => (state.setEmit value).elim .usage (readArgs rest)
    | .errorFormat (some value) => (state.setErrorFormat value).elim .usage (readArgs rest)
    | .emit none =>
      match rest with
      | value :: rest =>
        if isValue value then (state.setEmit value).elim .usage (readArgs rest) else .usage
      | [] => .usage
    | .errorFormat none =>
      match rest with
      | value :: rest =>
        if isValue value then (state.setErrorFormat value).elim .usage (readArgs rest) else .usage
      | [] => .usage
    | .letters letters =>
      match setLetters letters state with
      | .ok state => readArgs rest state
      | .error request => request
    | .word text =>
      if state.level == .top then
        match Level.ofWord? text with
        | some level => readArgs rest (state.enter level)
        | none =>
          if text == "help" then readHelp rest
          else (state.setFile text).elim .usage (readArgs rest)
      else (state.setFile text).elim .usage (readArgs rest)

end State

/-- What a command line asks for. -/
def parse (args : List String) : Request := State.readArgs args {}

end Scriptlet.CommandLine
