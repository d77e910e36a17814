/-!
# What is wrong with a user's input

Every rule that a user's input can break is a constructor of `Invalid`; its wording is in
`Invalid.message` alone.
-/

namespace Workplane

/-- A broken rule. -/
inductive Invalid where
  /-- A name is empty or too long. -/
  | nameLength (name : String)
  /-- A name holds a character, or ends with one, that it must not. -/
  | nameFormat (name : String)
  | envNameFormat (name : String)
  /-- An environment variable starts with the prefix of the platform. -/
  | envNameReserved (name : String)
  /-- An environment variable has no value, or both a value and a reference. -/
  | envSource (name : String)
  | mountNotAbsolute (path mountPath : String)
  | negativeResources
  /-- Both a shape and raw resources are given. -/
  | shapeAndRaw
  /-- Neither a shape nor both raw resources are given. -/
  | noResources
  | unknownShape (shape : String)
  | noReplicas
  /-- The resources of all replicas together leave the range of the numbers. -/
  | totalTooLarge
  deriving DecidableEq, Repr

namespace Invalid

private def nameMessage (name reason : String) : String :=
  s!"invalid name '{name}': {reason}"

private def envMessage (name reason : String) : String :=
  s!"invalid environment variable '{name}': {reason}"

private def requirementMessage (reason : String) : String :=
  s!"invalid resource requirement: {reason}"

/-- The text shown to the user. -/
def message : Invalid → String
  | nameLength name => nameMessage name "must be 1 to 32 characters long"
  | nameFormat name =>
    nameMessage name
      "must start with a letter and contain only letters, digits and dashes, not ending with a dash"
  | envNameFormat name => envMessage name "must match [A-Za-z_][A-Za-z0-9_]*"
  | envNameReserved name => envMessage name "the LEPTON_ prefix is reserved"
  | envSource name => envMessage name "exactly one of value or value_from must be set"
  | mountNotAbsolute path mountPath =>
    s!"invalid mount: path '{path}' and mount_path '{mountPath}' must be absolute"
  | negativeResources => requirementMessage "cpu, memory and accelerator_num must not be negative"
  | shapeAndRaw => requirementMessage "resource_shape and cpu/memory are mutually exclusive"
  | noResources => requirementMessage "either resource_shape or both cpu and memory must be set"
  | unknownShape shape => s!"unsupported resource shape '{shape}'"
  | noReplicas => requirementMessage "min_replicas must be greater than 0"
  | totalTooLarge => requirementMessage "total resources across replicas are too large"

end Invalid

end Workplane
