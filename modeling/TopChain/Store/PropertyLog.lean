import TopChain.Lib.SortedMap
import Mathlib.Data.List.DropRight
import Mathlib.Data.String.Basic

/-!
# Account properties and their binlog

`xaccount_cmd` with its binlogs, and the property part of `xstore::execute_lightunit`.
-/
namespace TopChain.Store

open TopChain.Lib

inductive PropertyOpCode where
  | invalid | delete
  | int64Create | int64Add | int64Sub
  | stringCreate | stringSet
  | listCreate | listPushBack | listPushFront | listPopBack | listPopFront | listClear
  | mapCreate | mapSet | mapRemove | mapClear
  | max
deriving DecidableEq, Repr

structure PropertyInstruction where
  opCode : PropertyOpCode
  opPara1 : String := ""
  opPara2 : String := ""
deriving DecidableEq, Repr

abbrev PropertyBinlog := List PropertyInstruction

namespace PropertyBinlog

def deleteBinlogDequePush (logs : PropertyBinlog) (opCode : PropertyOpCode) :
    Option PropertyBinlog :=
  match logs.getLast? with
  | some last => if last.opCode = opCode then some logs.dropLast else none
  | none => none

def deleteBinlogStringSet (logs : PropertyBinlog) (opCode : PropertyOpCode) : PropertyBinlog :=
  (logs.deleteBinlogDequePush opCode).getD logs

def deleteBinlogSince (logs : PropertyBinlog) (create : PropertyOpCode) : PropertyBinlog :=
  logs.rdropWhile (fun i => i.opCode ≠ create)

def deleteBinlogListClear (logs : PropertyBinlog) : PropertyBinlog :=
  logs.deleteBinlogSince .listCreate

def deleteBinlogMapClear (logs : PropertyBinlog) : PropertyBinlog :=
  logs.deleteBinlogSince .mapCreate

def isSetOf (opCode : PropertyOpCode) (key : String) (i : PropertyInstruction) : Bool :=
  i.opCode = opCode && i.opPara1 = key

def deleteBinlogMapSet (logs : PropertyBinlog) (opCode : PropertyOpCode) (key : String) :
    Option PropertyBinlog :=
  if logs.any (isSetOf opCode key) then some (logs.eraseP (isSetOf opCode key)) else none

def addBinlog (logs : PropertyBinlog) (i : PropertyInstruction) : PropertyBinlog :=
  match i.opCode with
  | .listPopBack => (logs.deleteBinlogDequePush .listPushBack).getD (logs ++ [i])
  | .listPopFront => (logs.deleteBinlogDequePush .listPushFront).getD (logs ++ [i])
  | .mapRemove => (logs.deleteBinlogMapSet .mapSet i.opPara1).getD (logs ++ [i])
  | .stringSet => logs.deleteBinlogStringSet .stringSet ++ [i]
  | .listClear => logs.deleteBinlogListClear ++ [i]
  | .mapClear => logs.deleteBinlogMapClear ++ [i]
  | _ => logs ++ [i]

end PropertyBinlog

abbrev AccountBinlog := SortedMap String PropertyBinlog

namespace AccountBinlog

def addInstruction (b : AccountBinlog) (name : String) (i : PropertyInstruction) : AccountBinlog :=
  match b.find? name with
  | some logs =>
    let logs := logs.addBinlog i
    if logs.isEmpty then b.erase name else b.insert name logs
  | none => b.insert name (PropertyBinlog.addBinlog [] i)

def isPropertyChanged (b : AccountBinlog) (name : String) : Bool := (b.find? name).isSome

def logOf (b : AccountBinlog) (name : String) : PropertyBinlog := (b.find? name).getD []

end AccountBinlog

inductive ObjType where
  | string | deque | map
deriving DecidableEq, Repr

inductive Dataobj where
  | string (value : String)
  | deque (values : List String)
  | map (fields : SortedMap String String)
deriving DecidableEq

inductive PropertyError where
  | hasAlreadyDelete | behindNotExist | notCreate | operateTypeUnmatch
  | hasAlreadyCreate | setValueSame | operateFail | cmdInvalid
deriving DecidableEq, Repr

namespace Dataobj

def objType : Dataobj → ObjType
  | string _ => .string
  | deque _ => .deque
  | map _ => .map

def make : ObjType → Dataobj
  | .string => string ""
  | .deque => deque []
  | .map => map .empty

-- Each operation casts the object first; the callers have checked its type, so the other
-- kinds do not occur and stand as failures.

def stringSet (value : String) : Dataobj → Except PropertyError Dataobj
  | string old => if value ≠ old then .ok (string value) else .error .setValueSame
  | _ => .error .operateFail

def listPushBack (value : String) : Dataobj → Except PropertyError Dataobj
  | deque values => .ok (deque (values ++ [value]))
  | _ => .error .operateFail

def listPushFront (value : String) : Dataobj → Except PropertyError Dataobj
  | deque values => .ok (deque (value :: values))
  | _ => .error .operateFail

def listPopBack : Dataobj → Except PropertyError Dataobj
  | deque [] => .error .operateFail
  | deque values => .ok (deque values.dropLast)
  | _ => .error .operateFail

def listPopFront : Dataobj → Except PropertyError Dataobj
  | deque (_ :: values) => .ok (deque values)
  | _ => .error .operateFail

def front : Dataobj → String
  | deque (value :: _) => value
  | _ => ""

def listClear : Dataobj → Except PropertyError Dataobj
  | deque _ => .ok (deque [])
  | _ => .error .operateFail

def mapSet (field value : String) : Dataobj → Except PropertyError Dataobj
  | map fields => .ok (map (fields.insert field value))
  | _ => .error .operateFail

def mapRemove (field : String) : Dataobj → Except PropertyError Dataobj
  | map fields =>
    if (fields.find? field).isSome then .ok (map (fields.erase field)) else .error .operateFail
  | _ => .error .operateFail

def mapClear : Dataobj → Except PropertyError Dataobj
  | map _ => .ok (map .empty)
  | _ => .error .operateFail

end Dataobj

structure StoredProperties where
  hasProperty : String → Bool
  cloneProperty : String → Option Dataobj

structure AccountCmd where
  cloneObjs : SortedMap String (Option Dataobj)
  proplogs : AccountBinlog

namespace AccountCmd

def new : AccountCmd := ⟨.empty, .empty⟩

def setObj (c : AccountCmd) (name : String) (obj : Option Dataobj) : AccountCmd :=
  { c with cloneObjs := c.cloneObjs.insert name obj }

def addLog (c : AccountCmd) (addFlag : Bool) (name : String) (i : PropertyInstruction) :
    AccountCmd :=
  if addFlag then { c with proplogs := c.proplogs.addInstruction name i } else c

def getChangeProperty (c : AccountCmd) : SortedMap String (Option Dataobj) :=
  c.cloneObjs.filter (fun e => c.proplogs.isPropertyChanged e.1)

def getPropertyHash (hash : Option Dataobj → String) (c : AccountCmd) : SortedMap String String :=
  c.getChangeProperty.mapVal hash

def getPropertyLog (c : AccountCmd) : Option AccountBinlog :=
  if c.proplogs.entries.length = 0 then none else some c.proplogs

end AccountCmd

namespace StoredProperties
variable (P : StoredProperties)

def getProperty (c : AccountCmd) (name : String) : AccountCmd × Except PropertyError Dataobj :=
  match c.cloneObjs.find? name with
  | some (some obj) => (c, .ok obj)
  | some none => (c, .error .hasAlreadyDelete)
  | none =>
    if P.hasProperty name then
      match P.cloneProperty name with
      | none => (c, .error .behindNotExist)
      | some obj => (c.setObj name (some obj), .ok obj)
    else (c, .error .notCreate)

def getPropertyWithType (c : AccountCmd) (name : String) (type : ObjType) :
    AccountCmd × Except PropertyError Dataobj :=
  match P.getProperty c name with
  | (c, .error e) => (c, .error e)
  | (c, .ok obj) => (c, if obj.objType = type then .ok obj else .error .operateTypeUnmatch)

def createProperty (c : AccountCmd) (name : String) (type : ObjType) :
    AccountCmd × Except PropertyError Unit :=
  match P.getProperty c name with
  | (c, .error .notCreate) => (c.setObj name (some (.make type)), .ok ())
  | (c, _) => (c, .error .hasAlreadyCreate)

def create (c : AccountCmd) (name : String) (type : ObjType) (opCode : PropertyOpCode)
    (addFlag : Bool) : AccountCmd × Except PropertyError Unit :=
  match P.createProperty c name type with
  | (c, .ok ()) => (c.addLog addFlag name { opCode }, .ok ())
  | (c, .error e) => (c, .error e)

def deleteProperty (c : AccountCmd) (name : String) (addFlag : Bool) :
    AccountCmd × Except PropertyError Unit :=
  match P.getProperty c name with
  | (c, .error .hasAlreadyDelete) => (c, .error .hasAlreadyDelete)
  | (c, .error .notCreate) => (c, .error .notCreate)
  | (c, _) => ((c.setObj name none).addLog addFlag name { opCode := .delete }, .ok ())

def stringSet (c : AccountCmd) (name value : String) (addFlag : Bool) :
    AccountCmd × Except PropertyError Unit :=
  match P.getPropertyWithType c name .string with
  | (c, .error e) => (c, .error e)
  | (c, .ok obj) =>
    match obj.stringSet value with
    | .ok obj => ((c.setObj name (some obj)).addLog addFlag name ⟨.stringSet, value, ""⟩, .ok ())
    | .error _ => (c, .ok ())

/-- The object of the right type is changed, and the change is logged when it succeeds. -/
def objectOp (c : AccountCmd) (name : String) (type : ObjType)
    (op : Dataobj → Except PropertyError Dataobj) (log : Dataobj → PropertyInstruction)
    (addFlag : Bool) : AccountCmd × Except PropertyError Unit :=
  match P.getPropertyWithType c name type with
  | (c, .error e) => (c, .error e)
  | (c, .ok obj) =>
    match op obj with
    | .ok obj' => ((c.setObj name (some obj')).addLog addFlag name (log obj), .ok ())
    | .error e => (c, .error e)

def listPushBack (c : AccountCmd) (name value : String) (addFlag : Bool) :=
  P.objectOp c name .deque (·.listPushBack value) (fun _ => ⟨.listPushBack, value, ""⟩) addFlag

def listPushFront (c : AccountCmd) (name value : String) (addFlag : Bool) :=
  P.objectOp c name .deque (·.listPushFront value) (fun _ => ⟨.listPushFront, value, ""⟩) addFlag

def listPopBack (c : AccountCmd) (name : String) (addFlag : Bool) :=
  P.objectOp c name .deque (·.listPopBack) (fun _ => { opCode := .listPopBack }) addFlag

def listPopFront (c : AccountCmd) (name : String) (addFlag : Bool) :=
  P.objectOp c name .deque (·.listPopFront) (fun obj => ⟨.listPopFront, obj.front, ""⟩) addFlag

def listClear (c : AccountCmd) (name : String) (addFlag : Bool) :=
  P.objectOp c name .deque (·.listClear) (fun _ => { opCode := .listClear }) addFlag

def mapSet (c : AccountCmd) (name field value : String) (addFlag : Bool) :=
  P.objectOp c name .map (·.mapSet field value) (fun _ => ⟨.mapSet, field, value⟩) addFlag

def mapRemove (c : AccountCmd) (name field : String) (addFlag : Bool) :=
  P.objectOp c name .map (·.mapRemove field) (fun _ => ⟨.mapRemove, field, ""⟩) addFlag

def mapClear (c : AccountCmd) (name : String) (addFlag : Bool) :=
  P.objectOp c name .map (·.mapClear) (fun _ => { opCode := .mapClear }) addFlag

def changeProperty (c : AccountCmd) (name : String) (i : PropertyInstruction) (addFlag : Bool) :
    AccountCmd × Except PropertyError Unit :=
  match i.opCode with
  | .delete => P.deleteProperty c name addFlag
  | .stringSet => P.stringSet c name i.opPara1 addFlag
  | .listPushBack => P.listPushBack c name i.opPara1 addFlag
  | .listPushFront => P.listPushFront c name i.opPara1 addFlag
  | .listPopBack => P.listPopBack c name addFlag
  | .listPopFront => P.listPopFront c name addFlag
  | .listClear => P.listClear c name addFlag
  | .mapSet => P.mapSet c name i.opPara1 i.opPara2 addFlag
  | .mapRemove => P.mapRemove c name i.opPara1 addFlag
  | .mapClear => P.mapClear c name addFlag
  | _ => (c, .error .cmdInvalid)

def doInstruction (c : AccountCmd) (name : String) (i : PropertyInstruction) (addFlag : Bool) :
    AccountCmd × Except PropertyError Unit :=
  match i.opCode with
  | .stringCreate => P.create c name .string .stringCreate addFlag
  | .listCreate => P.create c name .deque .listCreate addFlag
  | .mapCreate => P.create c name .map .mapCreate addFlag
  | _ => P.changeProperty c name i addFlag

def restoreLogInstruction (c : AccountCmd) (name : String) (i : PropertyInstruction) :
    AccountCmd × Except PropertyError Unit :=
  match i.opCode with
  | .stringCreate => (c.setObj name (some (.make .string)), .ok ())
  | .listCreate => (c.setObj name (some (.make .deque)), .ok ())
  | .mapCreate => (c.setObj name (some (.make .map)), .ok ())
  | _ => P.changeProperty c name i false

def restoreLogs (name : String) : AccountCmd → PropertyBinlog →
    AccountCmd × Except PropertyError Unit
  | c, [] => (c, .ok ())
  | c, i :: rest =>
    match P.restoreLogInstruction c name i with
    | (c, .ok ()) => restoreLogs name c rest
    | (c, .error e) => (c, .error e)

def restoreAll : AccountCmd → List (String × PropertyBinlog) →
    AccountCmd × Except PropertyError Unit
  | c, [] => (c, .ok ())
  | c, (name, logs) :: rest =>
    match P.restoreLogs name c logs with
    | (c, .ok ()) => restoreAll c rest
    | (c, .error e) => (c, .error e)

def doPropertyLog (c : AccountCmd) (log : AccountBinlog) : AccountCmd × Except PropertyError Unit :=
  P.restoreAll c log.entries

end StoredProperties

structure PropertyOutput where
  propertyLog : Option AccountBinlog
  propertyHash : SortedMap String String

def AccountCmd.output (hash : Option Dataobj → String) (c : AccountCmd) : PropertyOutput :=
  ⟨c.getPropertyLog, c.getPropertyHash hash⟩

def StoredProperties.executeLightunit (P : StoredProperties) (hash : Option Dataobj → String)
    (unit : PropertyOutput) : Option (SortedMap String (Option Dataobj)) :=
  match unit.propertyLog with
  | none => some .empty
  | some log =>
    match P.doPropertyLog .new log with
    | (_, .error _) => none
    | (c, .ok ()) =>
      if c.cloneObjs.entries.length ≠ unit.propertyHash.entries.length then none
      else if c.cloneObjs.entries.all
          (fun e => hash e.2 = (unit.propertyHash.find? e.1).getD "") then some c.cloneObjs
      else none

end TopChain.Store
