import WriteBehind.Lifecycle
import WriteBehind.Text.Quoted

/-!
# Errors, breaches and failures

An `Error` is reported to the caller, who goes on.  A `Breach` is a contract
that the caller broke; it ends the run.  A `Failure` is one or the other.  The
wording of each stands in one `message` function.
-/

namespace WriteBehind

/-- Causes of errors. -/
inductive Error where
  /-- A database file cannot be opened. -/
  | database
  /-- The file system refused an operation. -/
  | fileSystem
  /-- A JSON value does not have the wanted form. -/
  | malformedDocument
  /-- A byte string is not the wire form of a commitment. -/
  | malformedBytes
  /-- Settings cannot be read. -/
  | settings
  | duplicate (ns key : String)
  | duplicateNamespace (ns : String)
  | unregisteredNamespace (ns : String)
  | unknownDriver (driver : String)
  | missingTableOptions (driver ns : String)
  | missingDaoKey (ns : String)
  | missingDaoOptions (daoKey : String)
  | validation (driver ns reason : String)
  | invalidLifecycle (lifecycle : Lifecycle)
  | invalidKey (reason : String)
  | saverClosed (ns : String)
  | saveAborted (ns : String)
  | notFound (what : String)
  | custom (text : String)
deriving DecidableEq, Repr

namespace Error

/-- The name of a cause. -/
def name : Error → String
  | .database => "Database"
  | .fileSystem => "FileSystem"
  | .malformedDocument => "MalformedDocument"
  | .malformedBytes => "MalformedBytes"
  | .settings => "Settings"
  | .duplicate .. => "Duplicate"
  | .duplicateNamespace _ => "DuplicateNamespace"
  | .unregisteredNamespace _ => "UnregisteredNamespace"
  | .unknownDriver _ => "UnknownDriver"
  | .missingTableOptions .. => "MissingTableOptions"
  | .missingDaoKey _ => "MissingDaoKey"
  | .missingDaoOptions _ => "MissingDaoOptions"
  | .validation .. => "Validation"
  | .invalidLifecycle _ => "InvalidLifecycle"
  | .invalidKey _ => "InvalidKey"
  | .saverClosed _ => "SaverClosed"
  | .saveAborted _ => "SaveAborted"
  | .notFound _ => "NotFound"
  | .custom _ => "Custom"

/-- The text of an error. -/
def message : Error → String
  | .database => "the database file cannot be opened"
  | .fileSystem => "the file system refused the operation"
  | .malformedDocument => "the document is malformed"
  | .malformedBytes => "the bytes are malformed"
  | .settings => "the settings cannot be read"
  | .duplicate ns key => s!"duplicate key {key} in {ns}"
  | .duplicateNamespace ns => s!"namespace {ns} registered twice"
  | .unregisteredNamespace ns => s!"namespace {ns} is not registered"
  | .unknownDriver driver => s!"driver {driver} is not registered"
  | .missingTableOptions driver ns => s!"no table options for {ns} on driver {driver}"
  | .missingDaoKey ns => s!"table options of {ns} carry no dao key"
  | .missingDaoOptions daoKey => s!"no dao options for dao key {daoKey}"
  | .validation driver ns reason => s!"{ns} rejected by driver {driver}: {reason}"
  | .invalidLifecycle lifecycle => s!"cannot change fields of a {lifecycle.name} record"
  | .invalidKey reason => s!"invalid key: {reason}"
  | .saverClosed ns => s!"saver of {ns} is closed"
  | .saveAborted ns => s!"saving of {ns} was aborted"
  | .notFound what => s!"Not Found: {what}"
  | .custom text => s!"Custom error: {text}"

/-- A lock whose holder failed, as an error. -/
def poisonedLock : Error :=
  .custom ("Poison error: " ++ Text.quote "poisoned lock: another task failed inside")

end Error

/-- Broken contracts. -/
inductive Breach where
  /-- A field code that no field set can hold. -/
  | fieldOutOfRange (code : Nat)
  /-- Sharding by a number of groups that is not a power of two. -/
  | groupsNotPowerOfTwo
  /-- A repository without groups. -/
  | noGroups
  /-- A namespace served as a model it is not registered with. -/
  | wrongModel (ns : String)
  /-- A registration that had to succeed. -/
  | registration (cause : Error)
  /-- A setup that had to succeed. -/
  | setup (cause : Error)
  /-- A size that does not fit a machine word. -/
  | sizeOverflow
  /-- A table of a database file without a name. -/
  | emptyTableName
  /-- An index before the start of an array. -/
  | indexUnderflow
  /-- An array that no memory can hold. -/
  | arrayTooLong
deriving DecidableEq, Repr

/-- The text of a breach. -/
def Breach.message : Breach → String
  | .fieldOutOfRange code => s!"field code {code} exceeds capacity of 64"
  | .groupsNotPowerOfTwo => "group count must be a power of two"
  | .noGroups => "group count must be > 0"
  | .wrongModel ns => s!"{ns} is registered with another model"
  | .registration cause => s!"cannot register: {cause.message}"
  | .setup cause => s!"stowage setup failed: {cause.message}"
  | .sizeOverflow => "attempt to multiply with overflow"
  | .emptyTableName => "assertion failed: !name.is_empty()"
  | .indexUnderflow => "attempt to subtract with overflow"
  | .arrayTooLong => "capacity overflow"

/-- Why an operation gave no result. -/
inductive Failure where
  /-- The caller hears of it and goes on. -/
  | error (e : Error)
  /-- The run ends. -/
  | breach (b : Breach)
deriving DecidableEq, Repr

/-- The text of a failure. -/
def Failure.message : Failure → String
  | .error e => e.message
  | .breach b => b.message

end WriteBehind
