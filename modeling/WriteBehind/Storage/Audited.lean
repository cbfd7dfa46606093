import WriteBehind.Key
import WriteBehind.Json.Printer
import WriteBehind.Storage.Memory

/-!
# Audited tables

A store in memory that writes down what it is asked for and refuses chosen
stages.  A refused call is written down, too, and then has no effect.
-/

namespace WriteBehind

/-- What an audited store can be asked for. -/
inductive Stage where
  | init (options : Json)
  | validate (ns : String)
  | extend (ns : String)
  | dao (options : Json)
  | table (ns : String)
  | recover (count : Nat)
  | fetch (onlyOne : Bool) (key : String)
  | fetchMulti (keys : List String)
  | find (filter : Document)

namespace Stage

/-- The name of a stage. -/
def name : Stage → String
  | .init _ => "init"
  | .validate _ => "validate"
  | .extend _ => "extend"
  | .dao _ => "dao"
  | .table _ => "table"
  | .recover _ => "recover"
  | .fetch _ _ => "fetch"
  | .fetchMulti _ => "fetch_multi"
  | .find _ => "find"

/-- What a stage is asked for, as text. -/
def detail : Stage → String
  | .init options | .dao options => options.compact
  | .validate ns | .extend ns | .table ns => ns
  | .recover count => toString count
  | .fetch onlyOne key => toString onlyOne ++ " " ++ key
  | .fetchMulti keys => String.intercalate "," keys
  | .find filter => (Json.ofDocument filter).compact

/-- A call as it is written down. -/
def text (s : Stage) : String := s.name ++ " " ++ s.detail

end Stage

/-- A store in memory that writes down its calls. -/
structure AuditedStore where
  store : MemoryStore := {}
  /-- The names of the stages that are refused. -/
  refused : List String := []
  /-- The calls so far, earliest first. -/
  calls : List String := []

/-- Writes a call down and refuses it if it is to be refused. -/
def AuditedStore.ask (a : AuditedStore) (s : Stage) : Except Error Unit × AuditedStore :=
  (if s.name ∈ a.refused then .error (.custom s!"probe refused {s.name}") else .ok (),
    { a with calls := a.calls ++ [s.text] })

end WriteBehind
