import PropertyRisk.Json.Reader
import PropertyRisk.Settings.File
import PropertyRisk.Store.Address
import PropertyRisk.Store.Tables

/-!
# Workspaces

A workspace is the folder that a program runs in: its text files, the databases
kept there, and the environment. A database is named by an address; a database
in memory starts empty and is forgotten when it is closed. An empty file is a
database without tables, and a file with any other text is none. Settings come
from the file `.env` and from the environment, which goes before the file.
-/

namespace PropertyRisk

structure Workspace where
  files : List (String × String) := []
  databases : Shelf String Tables := []
  environment : List (String × String) := []

namespace Workspace

/-- The text of a file; no file lies outside the workspace. -/
def file? (w : Workspace) (place : Place) : Option String :=
  (w.files.find? fun (name, _) => Place.ofPath name = place).map (·.2)

/-- The text of a file by its path, if the path can be looked up. -/
def lookUp (w : Workspace) (path : String) : Except Fault (Option String) :=
  let place := Place.ofPath path
  if path.toList.contains (Char.ofNat 0) then .error .wrongContent
  else if place.isTooLong then .error .pathTooLong
  else .ok (w.file? place)

/-- Write files, over those of the same name. -/
def withFiles (w : Workspace) (files : List (String × String)) : Workspace where
  files := files.foldl (fun kept (name, text) => Shelf.put name text kept) w.files
  databases := w.databases.filter fun (name, _) => (files.lookup name).isNone
  environment := w.environment

/-- Keep a database, in the place of any file of its name. -/
def withDatabase (w : Workspace) (name : String) (tables : Tables) : Workspace :=
  { w with files := Shelf.erase name w.files, databases := w.databases.put name tables }

/-- The tables of a database file, none of them there if the file is new or
empty. -/
def database? (w : Workspace) (name : String) : Option Tables :=
  match w.databases.get? name, w.file? (Place.ofPath name) with
  | some tables, _ => some tables
  | none, none | none, some "" => some {}
  | none, some _ => none

/-- The settings of the workspace. -/
def settings (w : Workspace) : Except (List SettingProblem) Settings :=
  Settings.load
    (((w.file? ⟨some 0, [".env"]⟩).map (Settings.File.read w.environment)).getD [] ++
      w.environment)

end Workspace

namespace World

/-- A database of a workspace, as a part of it. A database in memory leaves
nothing behind. -/
def database (location : Location) : Op.Part (World Workspace) (World Tables) where
  get w :=
    { w with store :=
        match location with
        | .file name => (w.store.database? name).getD {}
        | _ => {} }
  set t w :=
    { t with store :=
        match location with
        | .file name => w.store.withDatabase name t.store
        | _ => w.store }

/-- Whether a location holds a database or has room for one. -/
def isDatabase (location : Location) (w : Workspace) : Bool :=
  match location with
  | .inMemory _ => true
  | .file name => (w.database? name).isSome
  | .unreachable => false

/-- Work in a database from opening to closing it. Opening it creates the tables
that it lacks. -/
def inDatabase (location : Location) (work : Storage (World Tables) → Op (World Tables) α) :
    Op (World Workspace) α := do
  if isDatabase location (← stored) then
    Op.within (database location) do
      save (← stored).opened
      work Tables.storage
  else throw (.storage ⟨.createSchema, .database⟩)

end World

end PropertyRisk
