import Scriptlet.Text.Control

/-!
# Log records

A log keeps the records that its verbosity asks for, in the order in which they arise. A record
says which component speaks.
-/

namespace Scriptlet

inductive Level where
  | debug
  | trace
deriving DecidableEq, Repr

def Level.name : Level → String
  | debug => "DEBUG"
  | trace => "TRACE"

/-- Who writes a record. -/
inductive Component where
  | command | lexer | parser | interpreter | environment
deriving DecidableEq, Repr

def Component.name : Component → String
  | command => "mocha"
  | lexer => "mochascript::frontend::lexer"
  | parser => "mochascript::frontend::parser"
  | interpreter => "mochascript::runtime::interpreter"
  | environment => "mochascript::runtime::environment"

structure Record where
  level : Level
  component : Component
  message : String
deriving DecidableEq, Repr

namespace Record

/-- The level and the message. -/
def summary (record : Record) : String := record.level.name ++ " " ++ record.message

/-- The message with its further lines indented. -/
def indented (record : Record) : List Char :=
  record.message.toList.flatMap fun c ↦
    if c = '\n' then '\n' :: List.replicate 4 ' ' else [c]

/-- The record as one entry of a log, without anything that would steer a terminal. -/
def entry (record : Record) : String :=
  let head := "[" ++ record.level.name ++ " " ++ record.component.name ++ "] "
  String.ofList (Text.withoutControl (head.toList ++ record.indented ++ ['\n']))

end Record

/-- Which records a log keeps: none, those of level `debug`, or all. -/
inductive Verbosity where
  | quiet | debug | trace
deriving DecidableEq, Repr

def Verbosity.keeps : Verbosity → Level → Bool
  | quiet, _ => false
  | debug, level => level == .debug
  | trace, _ => true

structure Log where
  verbosity : Verbosity
  records : Array Record

namespace Log

def empty (verbosity : Verbosity) : Log := ⟨verbosity, #[]⟩

def add (log : Log) (level : Level) (component : Component) (message : String) : Log :=
  if log.verbosity.keeps level then
    { log with records := log.records.push ⟨level, component, message⟩ }
  else log

end Log

end Scriptlet
