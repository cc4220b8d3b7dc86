import ArchivePlan.Descriptor
import ArchivePlan.Error

/-! # Collecting a directory tree

A collection lists what lies below a directory: directories and links if it asks for them, and
everything else as a file.  Links are not followed, except at the root.  Names and the targets of
listed links have to be text.  What the selection takes is listed in increasing order of the path
from the root, whatever the order in which the file system lists directories.

The walk lists the children of every directory and reads every link that it meets.  A directory that
cannot be listed, such as one whose location is too long to be opened, and a link that cannot be
read are left out, and with them the errors in which such a walk ends. -/

namespace ArchivePlan

/-- Something found below the root of a collection. -/
structure Item where
  /-- The path from the root. -/
  path : String
  kind : EntryKind
  content : Content
  deriving DecidableEq, Repr

namespace Item

/-- The location of a node below a root. -/
def location (root : Location) (names : List Name) : Location :=
  names.foldl (fun l name => l.join ⟨name⟩) root

/-- The path that names give, if they are text. -/
def path? (names : List Name) : Option String :=
  (names.mapM Utf8.decode?).map (String.intercalate "/")

/-- The item that a collection makes of a node, leaving patterns aside; `none` if it has no use for
the node. -/
def ofNode (collection : Collection) (root : Location) (names : List Name) (node : Node) :
    Except ResolveError (Option Item) :=
  let location := location root names
  match path? names with
  | none => .error (.notText location)
  | some path =>
    match node with
    | .symlink target =>
      if collection.symbolicLinks then
        match Utf8.decode? target with
        | some target => .ok (some ⟨path, .symlink, .link target⟩)
        | none => .error (.notText location)
      else .ok none
    | .directory _ =>
      if collection.directories then .ok (some ⟨path, .directory, .none⟩) else .ok none
    | .file _ => .ok (some ⟨path, .file, .file location⟩)
    | .special _ => .ok (some ⟨path, .file, .file location⟩)

/-- The items of nodes, in the order of the nodes. -/
def ofNodes (collection : Collection) (selection : Selection) (root : Location) :
    List (List Name × Node) → Except ResolveError (List Item)
  | [] => .ok []
  | (names, node) :: rest =>
    match ofNode collection root names node with
    | .error e => .error e
    | .ok found =>
      match ofNodes collection selection root rest with
      | .error e => .error e
      | .ok items => .ok ((found.filter fun item => selection.takes item.path).toList ++ items)

def sorted (items : List Item) : List Item :=
  items.mergeSort fun a b => decide (a.path ≤ b.path)

end Item

/-- The items that a collection takes below a location, in a walk that is not stopped by the file
system. -/
def Collection.items (collection : Collection) (fs : FileSystem) (root : Location) :
    Except ResolveError (List Item) :=
  match Selection.make collection with
  | .error e => .error (.pattern e)
  | .ok selection =>
    match fs.node root with
    | .ok (.directory children) =>
      (Item.ofNodes collection selection root (Node.descendantsOf children)).map Item.sorted
    | _ => .error (.rootNotFound root)

end ArchivePlan
