/-! The commands of the command line, and what can be wrong with how one is asked for. -/
namespace Accounts

/-- What the program can be asked to do. -/
inductive Command where
  /-- Show the groups of all accounts. -/
  | list
  /-- Create an account and show its group. -/
  | create (manager protocol : String) (params : List (String × String))
  /-- Write an attribute. -/
  | set (group key value : String)
  /-- Show an attribute. -/
  | get (group key : String)
  /-- Remove an account with its secrets. -/
  | remove (group : String)
  /-- Show all accounts without their secrets. -/
  | dump (json : Bool)
  /-- Check the account file and the secret backend. -/
  | health
  /-- Write a configuration file unless there is one. -/
  | configInit
  /-- Show the version. -/
  | version
  deriving DecidableEq, Repr

/-- Why arguments make no command. Two of the reasons are requests for information. -/
inductive Usage where
  /-- Help was asked for, on the part of the program with the given name. -/
  | help (name : String)
  /-- The version was asked for, of the part of the program with the given name. -/
  | version (name : String)
  /-- A subcommand is required and there is none. -/
  | missingSubcommand
  /-- There is no such subcommand. -/
  | unknownSubcommand
  /-- There is no such option, or there is no place for a further word. -/
  | unknownArgument
  /-- A word is required and there is none. -/
  | missingArgument
  /-- An option has no value and requires one. -/
  | missingValue
  /-- The value of an option is malformed. -/
  | malformedValue
  /-- An option has a value and takes none. -/
  | surplusValue
  /-- An option is repeated that may stand only once. -/
  | repeatedOption
  deriving DecidableEq, Repr

namespace Usage

/-- What is wrong, for people to read. -/
def message : Usage → String
  | help name => "usage: " ++ name ++ " [COMMAND] [ARGUMENTS]"
  | version name => name
  | missingSubcommand => "a subcommand is required"
  | unknownSubcommand => "unrecognized subcommand"
  | unknownArgument => "unexpected argument"
  | missingArgument => "a required argument was not provided"
  | missingValue => "an option requires a value"
  | malformedValue => "a parameter is written name=value"
  | surplusValue => "an option takes no value"
  | repeatedOption => "an option cannot be used twice"

end Usage
end Accounts
