import Workplane.Workspace.Config

/-!
# Options of the server

The settings of a server come from the words of its command line, then from environment variables,
then from defaults.  A setting is written `--name value` or `--name=value`; a switch has no value.

The words are read from left to right and the first one that is wrong decides what is reported.  A
setting whose value stands in a word of its own is checked only when the next setting begins or the
words end, so a word that is no setting at all is reported before it.
-/

namespace Workplane.CommandLine

/-! ### Settings -/

/-- The settings, in the order in which the environment is asked for them. -/
inductive Setting where
  | listenAddress
  | etcdEndpoint
  | scope
  | workspaceName
  | workspaceState
  | backupDirectory
  | bucketName
  | efsId
  | rootDomain
  | workspaceToken
  | certificateArn
  | imageRegistry
  | restoreFromBackup
  | telemetryEndpoint
  | telemetryToken
  deriving DecidableEq, Repr

namespace Setting

/-- The settings in their order. -/
def all : List Setting :=
  [listenAddress, etcdEndpoint, scope, workspaceName, workspaceState, backupDirectory, bucketName,
    efsId, rootDomain, workspaceToken, certificateArn, imageRegistry, restoreFromBackup,
    telemetryEndpoint, telemetryToken]

/-- The name of a setting on the command line. -/
def name : Setting → String
  | listenAddress => "listen-addr"
  | etcdEndpoint => "etcd-endpoint"
  | scope => "namespace"
  | workspaceName => "workspace-name"
  | workspaceState => "workspace-state"
  | backupDirectory => "backup-dir"
  | bucketName => "bucket-name"
  | efsId => "efs-id"
  | rootDomain => "root-domain"
  | workspaceToken => "workspace-token"
  | certificateArn => "certificate-arn"
  | imageRegistry => "image-registry"
  | restoreFromBackup => "restore-from-backup"
  | telemetryEndpoint => "otlp-endpoint"
  | telemetryToken => "otlp-token"

/-- The environment variable of a setting. -/
def environmentName : Setting → String
  | listenAddress => "LEPTON_APISERVER_ADDR"
  | etcdEndpoint => "ETCD_ENDPOINT"
  | scope => "LEPTON_NAMESPACE"
  | workspaceName => "LEPTON_WORKSPACE_NAME"
  | workspaceState => "LEPTON_WORKSPACE_STATE"
  | backupDirectory => "LEPTON_BACKUP_DIR"
  | bucketName => "LEPTON_BUCKET_NAME"
  | efsId => "LEPTON_EFS_ID"
  | rootDomain => "LEPTON_ROOT_DOMAIN"
  | workspaceToken => "LEPTON_WORKSPACE_TOKEN"
  | certificateArn => "LEPTON_CERTIFICATE_ARN"
  | imageRegistry => "LEPTON_IMAGE_REGISTRY"
  | restoreFromBackup => "LEPTON_RESTORE_FROM_BACKUP"
  | telemetryEndpoint => "OTLP_ENDPOINT"
  | telemetryToken => "OTLP_TOKEN"

/-- The setting of a name on the command line. -/
def ofName? (name : String) : Option Setting :=
  all.find? fun s => s.name == name

/-- The setting is written without a value. -/
def isSwitch (s : Setting) : Bool :=
  s == restoreFromBackup

/-- The setting can have a value. -/
def accepts (s : Setting) (value : String) : Bool :=
  if s = backupDirectory then !value.isEmpty
  else if s.isSwitch then value == "true" || value == "false"
  else true

end Setting

/-! ### Reading the words -/

/-- Why no options are read. -/
inductive UsageError where
  | missingRequiredArgument
  | invalidValue
  /-- A setting is given twice. -/
  | argumentConflict
  | unknownArgument
  /-- A switch has a value. -/
  | tooManyValues
  | displayHelp
  | displayVersion
  deriving DecidableEq, Repr

/-- The name of an error. -/
def UsageError.name : UsageError → String
  | missingRequiredArgument => "MissingRequiredArgument"
  | invalidValue => "InvalidValue"
  | argumentConflict => "ArgumentConflict"
  | unknownArgument => "UnknownArgument"
  | tooManyValues => "TooManyValues"
  | displayHelp => "DisplayHelp"
  | displayVersion => "DisplayVersion"

/-- The words of a command line as far as they are read. -/
structure Words where
  /-- The values of the settings that were checked. -/
  values : List (Setting × String)
  /-- The last setting, with its value if that was read, before it is checked. -/
  pending : Option (Setting × Option String)

namespace Words

/-- No words. -/
def empty : Words := ⟨[], none⟩

/-- Adds a value that is checked. -/
def add (w : Words) (s : Setting) (value : String) : Except UsageError Words :=
  if (w.values.lookup s).isSome then .error .argumentConflict
  else if s.accepts value then .ok { w with values := w.values ++ [(s, value)] }
  else .error .invalidValue

/-- Checks the last setting. -/
def settle (w : Words) : Except UsageError Words :=
  match w.pending with
  | none => .ok w
  | some (_, none) => .error .invalidValue
  | some (s, some value) => { w with pending := none }.add s value

/-- Reads a setting with its value, if that stands in the same word. -/
def readSetting (w : Words) (s : Setting) (value : Option String) : Except UsageError Words := do
  match value with
  | some value => if s.isSwitch then throw .tooManyValues else (← w.settle).add s value
  | none =>
    let w ← w.settle
    if s.isSwitch then w.add s "true" else return { w with pending := some (s, none) }

/-- Reads a switch that asks for a text instead of a server. -/
def readQuestion (w : Words) (answer : UsageError) (value : Option String) :
    Except UsageError Words := do
  if value.isSome then throw .tooManyValues
  let _ ← w.settle
  throw answer

/-- Reads what follows two dashes. -/
def readLong (w : Words) (word : List Char) : Except UsageError Words :=
  let name := String.ofList (word.takeWhile (· != '='))
  let value := match word.dropWhile (· != '=') with
    | _ :: value => some (String.ofList value)
    | [] => none
  if name = "help" then w.readQuestion .displayHelp value
  else if name = "version" then w.readQuestion .displayVersion value
  else match Setting.ofName? name with
  | some s => w.readSetting s value
  | none => .error .unknownArgument

/-- Reads a word that is not written like a setting. -/
def readPlain (w : Words) (word : List Char) : Except UsageError Words :=
  match w.pending with
  | some (s, none) => .ok { w with pending := some (s, some (String.ofList word)) }
  | _ => .error .unknownArgument

/-- Reads a word. -/
def read (w : Words) : List Char → Except UsageError Words
  | '-' :: '-' :: rest => w.readLong rest
  | '-' :: 'h' :: _ => w.readQuestion .displayHelp none
  | '-' :: 'V' :: _ => w.readQuestion .displayVersion none
  | ['-'] => w.readPlain ['-']
  | '-' :: _ => .error .unknownArgument
  | word => w.readPlain word

/-- Reads words up to their end; after two dashes alone there must be none. -/
def readAll (w : Words) : List String → Except UsageError Words
  | [] => w.settle
  | word :: rest =>
    if word = "--" then if rest.isEmpty then w.settle else .error .unknownArgument
    else do (← w.read word.toList).readAll rest

/-- Adds the values of environment variables for settings that were not given. -/
def addVariables (w : Words) (environment : List (String × String)) :
    List Setting → Except UsageError Words
  | [] => .ok w
  | s :: rest =>
    match w.values.lookup s, environment.lookup s.environmentName with
    | none, some value => do (← w.add s value).addVariables environment rest
    | _, _ => w.addVariables environment rest

end Words

/-! ### Options -/

/-- The options of a server. -/
structure Options where
  listenAddress : String
  /-- Without an endpoint objects are kept in memory. -/
  etcdEndpoint : Option String
  scope : String
  workspaceName : String
  /-- As it was given. -/
  workspaceState : String
  backupDirectory : String
  bucketName : String
  efsId : String
  rootDomain : String
  workspaceToken : String
  certificateArn : String
  imageRegistry : String
  restoreFromBackup : Bool
  telemetryEndpoint : Option String
  telemetryToken : Option String
  deriving DecidableEq, Repr

namespace Options

/-- The options with the given values; only the name of the workspace has no default. -/
def ofValues (values : List (Setting × String)) : Except UsageError Options :=
  let value (s : Setting) (default : String) : String := (values.lookup s).getD default
  match values.lookup .workspaceName with
  | none => .error .missingRequiredArgument
  | some workspaceName => .ok {
      listenAddress := value .listenAddress "0.0.0.0:20863"
      etcdEndpoint := values.lookup .etcdEndpoint
      scope := value .scope "default"
      workspaceName := workspaceName
      workspaceState := value .workspaceState "normal"
      backupDirectory := value .backupDirectory "/var/lib/lepton/backups"
      bucketName := value .bucketName ""
      efsId := value .efsId ""
      rootDomain := value .rootDomain ""
      workspaceToken := value .workspaceToken ""
      certificateArn := value .certificateArn ""
      imageRegistry := value .imageRegistry ""
      restoreFromBackup := value .restoreFromBackup "false" == "true"
      telemetryEndpoint := values.lookup .telemetryEndpoint
      telemetryToken := values.lookup .telemetryToken }

/-- The options of a command line in an environment. -/
def parse (words : List String) (environment : List (String × String)) :
    Except UsageError Options := do
  let given ← Words.empty.readAll words
  let given ← given.addVariables environment Setting.all
  ofValues given.values

/-- The configuration of the workspace; the error is the text that names no state. -/
def config (o : Options) : Except String Workspace.Config :=
  match Workspace.State.parse? o.workspaceState with
  | none => .error o.workspaceState
  | some state => .ok {
      scope := o.scope
      name := o.workspaceName
      state := state
      bucketName := o.bucketName
      efsId := o.efsId
      rootDomain := o.rootDomain
      token := o.workspaceToken
      certificateArn := o.certificateArn
      imageRegistry := o.imageRegistry }

end Options

end Workplane.CommandLine
