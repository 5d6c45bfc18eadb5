/-
Flags of a command line.

A flag begins with one or two dashes. Its value follows an equals sign or is
the next argument; a switch needs no value. Flags end at the first argument
that is none, or after `--`.

* `Flag`: the spellings of a flag and whether it is a switch.
* `Flag.parseAll`: the settings that the flags make, the last first, and the
  arguments after the flags.
-/
import FlatClosure.Text.Quoted

namespace FlatClosure

/-- A flag that a command understands. -/
structure Flag where
  name : Text
  /-- A second spelling; empty if there is none. -/
  short : Text
  /-- Whether the flag is on or off and needs no value. -/
  isSwitch : Bool
  deriving DecidableEq, Inhabited

/-- What is wrong with the flags of a command line. -/
inductive UsageError where
  | badSyntax (argument : Text)
  | undefined (name : Text)
  | needsValue (name : Text)
  | notSwitchValue (name value : Text)
  deriving DecidableEq, Inhabited

/-- The message of a usage error. -/
def UsageError.message : UsageError → Text
  | badSyntax argument => "bad flag syntax: " ++ argument
  | undefined name => "flag provided but not defined: -" ++ name
  | needsValue name => "flag needs an argument: -" ++ name
  | notSwitchValue name value =>
    "invalid boolean value " ++ Text.quote value ++ " for -" ++ name ++ ": parse error"

/-- The values of flags by name, the last one given first. -/
abbrev Settings := List (Text × Text)

/-- The value of a flag, if it was given. -/
def Settings.value? (settings : Settings) (flag : Text) : Option Text := settings.lookup flag

/-- Whether a switch is on, for the ways to write it. -/
def switchValue? (value : Text) : Option Bool :=
  if List.contains (["1", "t", "T", "TRUE", "true", "True"] : List Text) value then some true
  else if List.contains (["0", "f", "F", "FALSE", "false", "False"] : List Text) value then
    some false
  else none

/-- How an argument reads where a flag may stand. -/
inductive Argument where
  /-- The first argument that is no flag. -/
  | positional
  /-- The end of the flags. -/
  | terminator
  | malformed
  | flag (name : Text) (value? : Option Text)

namespace Argument

/-- A flag without its dashes, cut at the first equals sign. -/
def ofBody (body : Text) : Argument :=
  match body with
  | [] => .malformed
  | b :: _ =>
    if b = 45 ∨ b = 61 then .malformed
    else
      match body.dropWhile (· ≠ 61) with
      | [] => .flag body none
      | _ :: value => .flag (body.takeWhile (· ≠ 61)) (some value)

/-- The reading of an argument. -/
def ofText : Text → Argument
  | [45, 45] => .terminator
  | 45 :: 45 :: body => ofBody body
  | [45] => .positional
  | 45 :: body => ofBody body
  | _ => .positional

end Argument

namespace Flag

/-- Whether the flag has this spelling. -/
def hasName (flag : Flag) (name : Text) : Bool :=
  name == flag.name || (!flag.short.isEmpty && name == flag.short)

/-- The settings made by the flags at the start of a command line, after those
made before, and the arguments that follow. -/
def parseAll (flags : List Flag) (settings : Settings) :
    List Text → Except UsageError (Settings × List Text)
  | [] => .ok (settings, [])
  | argument :: rest =>
    match Argument.ofText argument with
    | .positional => .ok (settings, argument :: rest)
    | .terminator => .ok (settings, rest)
    | .malformed => .error (.badSyntax argument)
    | .flag name value? =>
      match flags.find? (·.hasName name) with
      | none => .error (.undefined name)
      | some flag =>
        match flag.isSwitch, value? with
        | true, none => parseAll flags ((flag.name, "true") :: settings) rest
        | true, some value =>
          if (switchValue? value).isSome then
            parseAll flags ((flag.name, value) :: settings) rest
          else .error (.notSwitchValue name value)
        | false, some value => parseAll flags ((flag.name, value) :: settings) rest
        | false, none =>
          match rest with
          | [] => .error (.needsValue name)
          | value :: rest => parseAll flags ((flag.name, value) :: settings) rest

end Flag

end FlatClosure
