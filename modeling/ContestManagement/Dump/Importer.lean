import ContestManagement.Dump.Exporter

/-!
# Importing a dump

`DumpImporter` of `cmscontrib/DumpImporter.py`, from the data of `contest.json` to the objects that
are in the session when it is committed.
-/

namespace ContestManagement
namespace Dump

open Lib

variable {Doc : Type} {ip : Ipaddress}

/-- A new object: the attributes that were set.  The objects of its relationships are named by
their ids in the dump. -/
structure NewObject (Doc : Type) (ip : Ipaddress) where
  cls : ClassDef Doc ip
  attrs : Dict String (PyObj Doc ip.Network)
  rels : Dict String (RelValue String)

/-- The objects, and those that were added to the session. -/
structure Restored (Doc : Type) (ip : Ipaddress) where
  objs : Dict String (NewObject Doc ip)
  added : List String

/-- What `json.load` gives back of what `json.dump` wrote: the keys are sorted.  (So are those of the
data of an object and of a relationship, where nothing depends on their order.) -/
def Data.jsonLoad (dump : Data Doc ip) : List (String × ObjectData Doc ip) :=
  dump.datas.items.mergeSort fun first second => first.1 ≤ second.1

namespace Importer

/-- The arguments for the constructor: the columns that the data have. -/
def importArgs (data : ObjectData Doc ip) :
    List (ColProp Doc ip) → Dict String (PyObj Doc ip.Network) →
    Except DumpError (Dict String (PyObj Doc ip.Network))
  | [], args => .ok args
  | prp :: rest, args =>
      match data.get? prp.key with
      | none => importArgs data rest args
      | some value =>
          match decodeValue ip prp.type value with
          | .error error => .error error
          | .ok value => importArgs data rest (args.set prp.key value)

/-- `Base.set_attrs`, with the defaults, as the constructor calls it. -/
def setAttrs (args : Dict String (PyObj Doc ip.Network)) :
    List (ColProp Doc ip) → Dict String (PyObj Doc ip.Network) →
    Except DumpError (Dict String (PyObj Doc ip.Network))
  | [], attrs => .ok attrs
  | prp :: rest, attrs =>
      match args.get? prp.key with
      | none =>
          match prp.default with
          | some value => setAttrs args rest (attrs.set prp.key value)
          | none => if prp.nullable then setAttrs args rest attrs else .error .typeError
      | some value =>
          if prp.accepts value then setAttrs args rest (attrs.set prp.key value)
          else .error .typeError

/-- `import_object`. -/
def importObject (schema : Schema Doc ip) (data : ObjectData Doc ip) :
    Except DumpError (NewObject Doc ip) :=
  match data.get? "_class" with
  | none => .error (.keyError "_class")
  | some (.str name) =>
      match schema.classHook name with
      | none => .error .attributeError
      | some cls =>
          match importArgs data cls.cols .empty with
          | .error error => .error error
          | .ok args => (setAttrs args cls.cols .empty).map fun attrs => ⟨cls, attrs, .empty⟩
  | some _ => .error .typeError

/-- The first pass. -/
def importObjects (schema : Schema Doc ip) :
    List (String × ObjectData Doc ip) → Dict String (NewObject Doc ip) →
    Except DumpError (Dict String (NewObject Doc ip))
  | [], objs => .ok objs
  | (id, data) :: rest, objs =>
      match importObject schema data with
      | .error error => .error error
      | .ok obj => importObjects schema rest (objs.set id obj)

/-- The ids of a list that are those of objects. -/
def present (objs : Dict String (NewObject Doc ip)) (ids : List (PyObj Doc ip.Network)) :
    List String :=
  ids.filterMap fun
    | .str id => if (objs.get? id).isSome then some id else none
    | _ => none

/-- The objects of a dictionary, by its keys. -/
def presentItems (objs : Dict String (NewObject Doc ip)) :
    List (String × PyObj Doc ip.Network) → Dict String String → Dict String String
  | [], found => found
  | (key, .str id) :: rest, found =>
      presentItems objs rest (if (objs.get? id).isSome then found.set key id else found)
  | _ :: rest, found => presentItems objs rest found

/-- The value of a relationship. -/
def relValue (objs : Dict String (NewObject Doc ip)) :
    PyObj Doc ip.Network → Except DumpError (RelValue String)
  | .none => .ok .none
  | .str id => .ok (if (objs.get? id).isSome then .one id else .none)
  | .list ids => .ok (.many (present objs ids))
  | .dict items => .ok (.keyed (presentItems objs items .empty))
  | _ => .error (.runtimeError "Unknown RelationshipProperty value")

/-- `add_relationships`. -/
def addRelationships (objs : Dict String (NewObject Doc ip)) (data : ObjectData Doc ip) :
    List RelProp → Dict String (RelValue String) → Except DumpError (Dict String (RelValue String))
  | [], rels => .ok rels
  | prp :: rest, rels =>
      match data.get? prp.key with
      | none => addRelationships objs data rest rels
      | some value =>
          match relValue objs value with
          | .error error => .error error
          | .ok value => addRelationships objs data rest (rels.set prp.key value)

/-- The second pass. -/
def addAllRelationships :
    List (String × ObjectData Doc ip) → Dict String (NewObject Doc ip) →
    Except DumpError (Dict String (NewObject Doc ip))
  | [], objs => .ok objs
  | (id, data) :: rest, objs =>
      match objs.get? id with
      | none => addAllRelationships rest objs
      | some obj =>
          match addRelationships objs data obj.cls.rels obj.rels with
          | .error error => .error error
          | .ok rels => addAllRelationships rest (objs.set id { obj with rels })

end Importer

/-- The objects that `do_import` removes, by their class. -/
def Skips.removes (skips : Skips) (name : String) : Bool :=
  skips.submissions && name = "Submission" ||
    skips.userTests && name = "UserTest" ||
    skips.users && ["User", "Participation", "Submission", "UserTest", "Announcement"].contains name ||
    skips.generated && ["SubmissionResult", "UserTestResult"].contains name

/-- A contest that does not come from a full restore arrives inactive. -/
def NewObject.deactivate (obj : NewObject Doc ip) : NewObject Doc ip :=
  if obj.cls.name = "Contest" then { obj with attrs := obj.attrs.set "active" (.bool false) } else obj

/-- `do_import` into an empty database, up to the commit; nothing when the dump is of a newer data
model.  `update` are the updaters, by the version they start from. -/
def doImport (schema : Schema Doc ip) (update : Nat → Data Doc ip → Data Doc ip) (skips : Skips)
    (drop : Bool) (dump : Data Doc ip) : Option (Except DumpError (Restored Doc ip)) :=
  if modelVersion < dump.version then none
  else
    let dump := (List.range' dump.version (modelVersion - dump.version)).foldl
      (fun dump version => { update version dump with version := version + 1 }) dump
    let items := dump.jsonLoad
    some <|
      match Importer.importObjects schema items .empty with
      | .error error => .error error
      | .ok objs =>
          let objs := if drop then objs else objs.mapValues NewObject.deactivate
          let objs := objs.filterValues fun obj => !skips.removes obj.cls.name
          (Importer.addAllRelationships items objs).map fun restored =>
            ⟨restored, dump.objects.filter fun id => (restored.get? id).isSome⟩

/-- The objects that are stored: those that were added, and what `save-update` cascades to. -/
def Restored.Stored (r : Restored Doc ip) : String → Prop :=
  Worklist.Reachable
    (fun id => match r.objs.get? id with
      | none => []
      | some obj => obj.rels.items.flatMap fun item => item.2.targets)
    r.added

end Dump
end ContestManagement
