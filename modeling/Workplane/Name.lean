import Workplane.Invalid

/-!
# Names

The grammar of the names that users give to photons, deployments and environment variables.  A
name starts with a letter, ends with a letter or a digit, holds letters, digits and dashes, and
has at most 32 bytes.  Names that differ only in case denote the same deployment.
-/

namespace Workplane.Name

/-- The longest name, in bytes. -/
def maxBytes : Nat := 32

/-- The prefix of environment variables that the platform sets itself. -/
def reservedPrefix : String := "LEPTON_"

/-- The last character of a list that starts with `c`. -/
def lastChar (c : Char) : List Char → Char
  | [] => c
  | d :: rest => lastChar d rest

/-- The grammar of names, apart from their length. -/
def isName : List Char → Bool
  | [] => false
  | c :: rest =>
    c.isAlpha && rest.all (fun d => d.isAlphanum || d == '-') && lastChar c rest != '-'

/-- Checks a name given by a user. -/
def validate (name : String) : Except Invalid Unit :=
  if name.utf8ByteSize = 0 ∨ maxBytes < name.utf8ByteSize then .error (.nameLength name)
  else if isName name.toList then .ok ()
  else .error (.nameFormat name)

/-- The identifier of the deployment with a given name: the name in lower case. -/
def deploymentId (name : String) : String :=
  name.map Char.toLower

/-- The grammar of environment variable names. -/
def isEnvName : List Char → Bool
  | [] => false
  | c :: rest => (c.isAlpha || c == '_') && rest.all fun d => d.isAlphanum || d == '_'

/-- Checks the name of an environment variable. -/
def validateEnv (name : String) : Except Invalid Unit :=
  if !isEnvName name.toList then .error (.envNameFormat name)
  else if reservedPrefix.toList.isPrefixOf name.toList then .error (.envNameReserved name)
  else .ok ()

end Workplane.Name
