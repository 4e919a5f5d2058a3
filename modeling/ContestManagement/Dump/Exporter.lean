import ContestManagement.Lib.Dict
import ContestManagement.Lib.Worklist
import ContestManagement.Dump.Values

/-!
# Exporting a dump

`DumpExporter` of `cmscontrib/DumpExporter.py`, from the roots to the data that are written to
`contest.json`.
-/

namespace ContestManagement
namespace Dump

open Lib

variable (Doc : Type) (ip : Ipaddress)

/-- A relationship property: its key, and the class that it leads to. -/
structure RelProp where
  key : String
  otherClass : String
  deriving DecidableEq

/-- A class of the data model, with its `_col_props` and its `_rel_props`. -/
structure ClassDef where
  name : String
  cols : List (ColProp Doc ip)
  rels : List RelProp
  /-- The attributes have different names, and none is called `_class`. -/
  distinct : ("_class" :: (cols.map (·.key) ++ rels.map (·.key))).Nodup

/-- The classes, by their names: `class_hook`. -/
structure Schema where
  classHook : String → Option (ClassDef Doc ip)
  name_eq : ∀ name cls, classHook name = some cls → cls.name = name

/-- The value of a relationship. -/
inductive RelValue (O : Type)
  | none
  | one (o : O)
  | many (os : List O)
  | keyed (os : Dict String O)

/-- The objects that a relationship leads to. -/
def RelValue.targets {O : Type} : RelValue O → List O
  | none => []
  | one o => [o]
  | many os => os
  | keyed os => os.items.map Prod.snd

variable {Doc ip}

/-- The objects of a database: each has a class, values of the types of its columns, and
relationships to objects of the right class. -/
structure Graph (schema : Schema Doc ip) (O : Type) where
  cls : O → ClassDef Doc ip
  known : ∀ o, schema.classHook (cls o).name = some (cls o)
  col : O → String → PyObj Doc ip.Network
  rel : O → String → RelValue O
  holds : ∀ o, ∀ prp ∈ (cls o).cols, prp.type.Holds (col o prp.key)
  related : ∀ o, ∀ prp ∈ (cls o).rels, ∀ x ∈ (rel o prp.key).targets, (cls x).name = prp.otherClass

/-- The options of an export or of an import. -/
structure Skips where
  generated : Bool
  submissions : Bool
  userTests : Bool
  users : Bool

def noSkips : Skips := ⟨false, false, false, false⟩

/-- The relationships that `export_object` does not follow, by the class they lead to. -/
def Skips.leavesOut (skips : Skips) (otherClass : String) : Bool :=
  otherClass = "RankingGroup" ||
    skips.submissions && otherClass = "Submission" ||
    skips.userTests && otherClass = "UserTest" ||
    skips.users && ["Participation", "Submission", "UserTest", "Announcement"].contains otherClass ||
    skips.generated && ["SubmissionResult", "UserTestResult"].contains otherClass

/-- The data of an object. -/
abbrev ObjectData (Doc : Type) (ip : Ipaddress) := Dict String (PyObj Doc ip.Network)

/-- The ids that were given, as the list of their objects: the id of an object is its place, in
decimal.  And the objects that are still to be exported. -/
structure Exporter (O : Type) where
  ids : List O
  queue : List O
  deriving DecidableEq

/-- What is written to `contest.json`; the keys that do not begin with an underscore are `datas`. -/
structure Data (Doc : Type) (ip : Ipaddress) where
  objects : List String
  version : Nat
  datas : Dict String (ObjectData Doc ip)

/-- The version of the data model. -/
def modelVersion : Nat := 49

section

variable {O : Type} [DecidableEq O]

def idOf (ids : List O) (o : O) : String := toString (ids.idxOf o)

namespace Exporter

/-- `get_id`. -/
def getId (s : Exporter O) (o : O) : Exporter O × String :=
  if o ∈ s.ids then (s, idOf s.ids o)
  else (⟨s.ids ++ [o], s.queue ++ [o]⟩, toString s.ids.length)

/-- `get_id` of some objects, one after the other. -/
def getIds (s : Exporter O) : List O → Exporter O × List String
  | [] => (s, [])
  | o :: rest =>
      let (s, id) := s.getId o
      let (s, ids) := s.getIds rest
      (s, id :: ids)

variable {schema : Schema Doc ip} (g : Graph schema O) (skips : Skips)

/-- The value of a relationship, by ids. -/
def exportRel (s : Exporter O) (otherClass : String) :
    RelValue O → Except DumpError (Exporter O × PyObj Doc ip.Network)
  | .none => .ok (s, .none)
  | .one o =>
      if (g.cls o).name = otherClass then
        let (s, id) := s.getId o
        .ok (s, .str id)
      else .error (.runtimeError "Unknown SQLAlchemy relationship type")
  | .many os =>
      let (s, ids) := s.getIds os
      .ok (s, .list (ids.map .str))
  | .keyed os =>
      let (s, ids) := s.getIds (os.items.map Prod.snd)
      .ok (s, .dict (os.keys.zip (ids.map .str)))

/-- The columns of an object. -/
def exportCols (o : O) :
    List (ColProp Doc ip) → ObjectData Doc ip → Except DumpError (ObjectData Doc ip)
  | [], data => .ok data
  | prp :: rest, data =>
      match encodeValue ip prp.type (g.col o prp.key) with
      | .error error => .error error
      | .ok value => exportCols o rest (data.set prp.key value)

/-- The relationships of an object. -/
def exportRels (o : O) : List RelProp → Exporter O → ObjectData Doc ip →
    Except DumpError (Exporter O × ObjectData Doc ip)
  | [], s, data => .ok (s, data)
  | prp :: rest, s, data =>
      if skips.leavesOut prp.otherClass then exportRels o rest s data
      else
        match exportRel g s prp.otherClass (g.rel o prp.key) with
        | .error error => .error error
        | .ok (s, value) => exportRels o rest s (data.set prp.key value)

/-- `export_object`. -/
def exportObject (s : Exporter O) (o : O) : Except DumpError (Exporter O × ObjectData Doc ip) :=
  match exportCols g o (g.cls o).cols (.singleton "_class" (.str (g.cls o).name)) with
  | .error error => .error error
  | .ok data => exportRels g skips o (g.cls o).rels s data

/-- The loop of `do_export`; nothing when the fuel is used up. -/
def exportLoop : Nat → Exporter O → Dict String (ObjectData Doc ip) →
    Option (Except DumpError (Dict String (ObjectData Doc ip)))
  | fuel, ⟨ids, queue⟩, datas =>
      match queue with
      | [] => some (.ok datas)
      | o :: rest =>
          match fuel with
          | 0 => none
          | fuel + 1 =>
              match exportObject g skips ⟨ids, rest⟩ o with
              | .error error => some (.error error)
              | .ok (s, data) => exportLoop fuel s (datas.set (idOf s.ids o) data)

/-- `do_export`, from the roots. -/
def doExport (fuel : Nat) (roots : List O) : Option (Except DumpError (Data Doc ip)) :=
  let s := (getIds ⟨[], []⟩ roots).1
  (exportLoop g skips fuel s .empty).map fun result =>
    result.map fun datas => ⟨s.ids.map (idOf s.ids), modelVersion, datas⟩

end Exporter

end

end Dump
end ContestManagement
