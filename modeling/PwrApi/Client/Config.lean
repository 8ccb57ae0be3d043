import PwrApi.Lib.Branching
import PwrApi.Router.State

/-! What a context asks its configuration: `config.h`. -/

namespace PwrApi

inductive ObjType
  | platform | cabinet | chassis | board | node | socket | core | powerPlane | mem | nic
  | invalid | notSpecified
  deriving DecidableEq, Inhabited, Repr

/-- `Config::ObjDev`. -/
structure ObjDev where
  device : String
  openString : String
  deriving DecidableEq, Repr

/-- The virtual functions of `Config` that contexts call. -/
structure Config where
  hasServer : ObjID → Except Fault Bool
  findObjDevs : ObjID → AttrName → Except Fault (List ObjDev)
  findAttrChildren : ObjID → AttrName → Except Fault (List ObjID)
  findAttrOp : ObjID → AttrName → Except Fault String
  findAttrType : ObjID → AttrName → Except Fault String
  objType : ObjID → Except Fault ObjType

namespace Config

def childSources (config : Config) (attrName : AttrName) (name : ObjID) : List ObjID :=
  match config.findAttrChildren name attrName with
  | .ok children => children
  | .error _ => []

def deviceSources (config : Config) (attrName : AttrName) (name : ObjID) : List ObjDev :=
  match config.findObjDevs name attrName with
  | .ok devs => devs
  | .error _ => []

/-- The child sources of an attribute form trees: no object lists a child twice or shares
one with another object, and there is no infinite branch. -/
structure ObjectTree (config : Config) (attrName : AttrName) : Prop where
  nodup : ∀ name, (config.childSources attrName name).Nodup
  parent_unique : ∀ {name name' child}, child ∈ config.childSources attrName name →
    child ∈ config.childSources attrName name' → name = name'
  wellFounded : WellFounded fun child name => child ∈ config.childSources attrName name

def ObjectTree.branching {config : Config} {attrName : AttrName}
    (tree : config.ObjectTree attrName) : Branching ObjID where
  children := config.childSources attrName
  nodup := tree.nodup
  parent_unique := tree.parent_unique
  wellFounded := tree.wellFounded

end Config

end PwrApi
