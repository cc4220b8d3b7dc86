import ArchivePlan.Collect

/-! # Resolving declared entries

An entry is resolved to archive entries: one, or one for each item of a collection.  What is wrong
with the entry itself or with its ruleset is found before the file system is looked at.  Either all
archive entries of an entry are given or an error. -/

namespace ArchivePlan

/-- What resolving depends on besides the entry. -/
structure Resolver where
  registry : Registry
  /-- The directory from which source files are found, instead of the working directory. -/
  baseDir : Option Location := none
  /-- A fixed modification time. -/
  modified : Option Instant := none
  /-- The algorithm of the digests of files. -/
  digest : Algorithm := .default

namespace Resolver

variable (resolver : Resolver) (fs : FileSystem)

/-- The location of a declared source. -/
def locate (path : String) : Location :=
  let location := Location.ofString path
  if location.isAbsolute then location
  else (resolver.baseDir.getD fs.workLocation).join location

/-- The location of a source file that can be read. -/
def sourceFile (entry : Entry) (path : String) : Except ResolveError Location :=
  let location := resolver.locate fs path
  match fs.node location with
  | .error e => .error (.missingSource entry.name location (.io e))
  | .ok (.file _) => .ok location
  | .ok _ => .error (.missingSource entry.name location .notRegular)

/-- The archive entry for a part of a declared entry. -/
def descriptor (entry : Entry) (path : String) (kind : EntryKind) (content : Content)
    (explicit : Attributes) : Except ResolveError Descriptor :=
  match resolver.registry.metadata path kind.fileKind entry.ruleset explicit with
  | .error e => .error (.registry e)
  | .ok metadata =>
    .ok {
      path, kind, content
      metadata := metadata.stamped resolver.modified
      digest := if kind = .file then some resolver.digest else none }

/-- The path of an item below a target path. -/
def pathBelow (target item : String) : String :=
  (if target = "/" then target else target ++ "/") ++ item

/-- The archive entries for the items of a collection. -/
def itemDescriptors (entry : Entry) (target : String) :
    List Item → Except ResolveError (List Descriptor)
  | [] => .ok []
  | item :: rest => do
    let d ← resolver.descriptor entry (pathBelow target item.path) item.kind item.content
      entry.explicit
    let ds ← itemDescriptors entry target rest
    return d :: ds

/-- The archive entries for a source. -/
def ofSource (entry : Entry) (target : String) : Source → Except ResolveError (List Descriptor)
  | .file path => do
    let location ← resolver.sourceFile fs entry path
    let d ← resolver.descriptor entry target .file (.file location) entry.explicit
    return [d]
  | .directory => do
    let d ← resolver.descriptor entry target .directory .none entry.explicit
    return [d]
  | .link linked =>
    if linked = "" then .error (.emptyLink entry.name)
    else do
      let d ← resolver.descriptor entry target .symlink (.link linked) entry.explicit
      return [d]
  | .ghost => do
    let d ← resolver.descriptor entry target .ghost (.bytes [])
      (entry.explicit.setFlag .ghost true)
    return [d]
  | .collect collection => do
    let items ← collection.items fs (resolver.locate fs collection.root)
    resolver.itemDescriptors entry target items

/-- The archive entries for a declared entry. -/
def resolve (entry : Entry) : Except ResolveError (List Descriptor) :=
  match entry.source with
  | .error fault => .error (.invalidEntry entry.name fault)
  | .ok source =>
    match entry.target with
    | .error fault => .error (.invalidEntry entry.name fault)
    | .ok target =>
      match resolver.registry.check entry.ruleset with
      | .error e => .error (.registry e)
      | .ok () => resolver.ofSource fs entry target source

end Resolver

end ArchivePlan
