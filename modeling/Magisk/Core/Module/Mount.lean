import Magisk.Bytes.Core
import Magisk.FileTree.Core

/-!
# Mounting modules

Modules are collected into a virtual tree, and the tree is turned into mounts.  A
directory whose entries all exist already gets bind mounts over them.  A
directory that needs an entry added, replaced by a link or removed is built again
in a worker directory, where every other real entry is mirrored, and the result is
mounted over it.

The namespace is what can be seen below the root and below the worker directory;
a path names the same place in both.  Every call is assumed to succeed, and a bind
mount shows its source.  Owners, modes and contexts are left out.  Links are
never followed: the paths that are used lead through directories.
-/

namespace Magisk.Core.Module

open Bytes
open FileTree (Kind find)

/-- What is not a directory. -/
inductive Leaf where
  | file (content : List UInt8)
  | symlink (target : List UInt8)
  deriving DecidableEq, Repr

/-- A real tree; names are byte strings. -/
abbrev Tree :=
  FileTree.Tree (List UInt8) Leaf

/-- A path below the root, or below the worker directory. -/
abbrev Path :=
  List (List UInt8)

/-- A virtual tree.  A source is the list of the components of its path. -/
inductive FsNode where
  | directory (children : List (String × FsNode))
  | file (src : List String)
  | symlink (target : String)
  | magiskLink
  | whiteout

/-- What stands at the sources of the modules. -/
abbrev Sources :=
  List String → Option Tree

/-- What can be seen below the root and below the worker directory. -/
structure Namespace where
  real : Tree
  worker : Tree

/-! ## Calls -/

/-- `mkdirs`; a directory that exists is left alone. -/
def mkdirs (tree : Tree) (path : Path) : Tree :=
  match tree.get path with
  | some _ => tree
  | none => tree.put path (.dir [])

/-- `create`; a file that exists is left alone. -/
def create (tree : Tree) (path : Path) : Tree :=
  match tree.get path with
  | some _ => tree
  | none => tree.put path (.leaf (.file []))

/-- `bind_mount`: the source shows at the destination.  Without a source or a
destination the mount fails, which is only logged. -/
def bindMount (tree : Tree) (path : Path) : Option Tree → Tree
  | none => tree
  | some src =>
    match tree.get path with
    | none => tree
    | some _ => tree.put path src

/-- `mount_dummy`. -/
def mountDummy (tree : Tree) (path : Path) (src : Option Tree) (isDir : Bool) : Tree :=
  bindMount (if isDir then mkdirs tree path else create tree path) path src

/-- `read_link`: a target that is not UTF-8 is read as the empty string. -/
def readLink (target : List UInt8) : List UInt8 :=
  match fromUtf8 target with
  | some _ => target
  | none => []

/-- `parent_should_be_tmpfs`, given what stands at the target path. -/
def FsNode.parentShouldBeTmpfs : FsNode → Option Tree → Bool
  | .directory _, none | .file _, none => true
  | .directory _, some (.leaf (.symlink _)) | .file _, some (.leaf (.symlink _)) => true
  | .directory _, some _ | .file _, some _ => false
  | _, _ => true

/-! ## Rebuilding a directory -/

mutual

/-- Mirror a real node: a directory is rebuilt as an empty virtual directory would
be, a link is copied, and a file is mounted. -/
def mirrorNode (path : Path) (worker : Tree) : Tree → Tree
  | .dir entries => mirrorEntries path (mkdirs worker path) entries
  | .leaf (.symlink target) => worker.put path (.leaf (.symlink (readLink target)))
  | .leaf (.file content) => mountDummy worker path (some (.leaf (.file content))) false

/-- Mirror the entries of a real directory; entries whose names are not UTF-8 are
skipped by `Directory::read`. -/
def mirrorEntries (path : Path) (worker : Tree) : List (List UInt8 × Tree) → Tree
  | [] => worker
  | (name, node) :: rest =>
    match fromUtf8 name with
    | none => mirrorEntries path worker rest
    | some _ => mirrorEntries path (mirrorNode (path ++ [name]) worker node) rest

end

/-- The name of the marker that hides the real entries of a directory. -/
def replaceName : String :=
  ".replace"

/-- The children without the marker. -/
def withoutReplace (children : List (String × FsNode)) : List (String × FsNode) :=
  children.filter fun child => child.1 ≠ replaceName

/-- The directory to replace with, if the marker is a file. -/
def replaceDir (children : List (String × FsNode)) : Option (List String) :=
  match find replaceName children with
  | some (.file src) => if src = [] then none else some src.dropLast
  | _ => none

/-- The real entries that no child stands for. -/
def unclaimed (children : List (String × FsNode)) (real : Option Tree) :
    List (List UInt8 × Tree) :=
  match real with
  | some (.dir entries) =>
    entries.filter fun entry =>
      ∀ child ∈ withoutReplace children, utf8 child.1 ≠ entry.1
  | _ => []

mutual

/-- `commit_tmpfs`, given what stands at the real path: the worker directory
afterwards. -/
def commitTmpfs (sources : Sources) (path : Path) (real : Option Tree) (worker : Tree) :
    FsNode → Tree
  | .directory children =>
    match replaceDir children with
    | some dir => replaceChildren sources path real dir (mkdirs worker path) children
    | none =>
      commitTmpfsChildren sources path real
        (mirrorEntries path (mkdirs worker path) (unclaimed children real)) children
  | .file src => mountDummy worker path (sources src) false
  | .symlink target => worker.put path (.leaf (.symlink (utf8 target)))
  | .magiskLink =>
    if path.getLast? = some (utf8 "supolicy") then
      worker.put path (.leaf (.symlink (utf8 "./magiskpolicy")))
    else
      worker.put path (.leaf (.symlink (utf8 "./magisk")))
  | .whiteout => worker

/-- Commit the children of a directory, after the marker has been removed. -/
def commitTmpfsChildren (sources : Sources) (path : Path) (real : Option Tree) (worker : Tree) :
    List (String × FsNode) → Tree
  | [] => worker
  | (name, node) :: rest =>
    if name = replaceName then
      commitTmpfsChildren sources path real worker rest
    else
      commitTmpfsChildren sources path real
        (commitTmpfs sources (path ++ [utf8 name]) (real.bind fun tree => tree.get [utf8 name])
          worker node) rest

/-- Commit the children of a replaced directory: nothing is mirrored, and the
subdirectories of the replacing module are mounted. -/
def replaceChildren (sources : Sources) (path : Path) (real : Option Tree) (dir : List String)
    (worker : Tree) : List (String × FsNode) → Tree
  | [] => worker
  | (name, node) :: rest =>
    if name = replaceName then
      replaceChildren sources path real dir worker rest
    else
      match node with
      | .directory _ =>
        replaceChildren sources path real dir
          (mountDummy worker (path ++ [utf8 name]) (sources (dir ++ [name])) true) rest
      | _ =>
        replaceChildren sources path real dir
          (commitTmpfs sources (path ++ [utf8 name])
            (real.bind fun tree => tree.get [utf8 name]) worker node) rest

end

/-! ## Committing a tree -/

/-- The child makes its parent be rebuilt. -/
def needsTmpfs (before : Tree) (path : Path) (name : String) (node : FsNode) : Bool :=
  name = replaceName || node.parentShouldBeTmpfs (before.get (path ++ [utf8 name]))

mutual

/-- `commit`.  In a root directory, which cannot be rebuilt, the children that need
it are dropped. -/
def commit (sources : Sources) (isRootDir : Bool) (path : Path) (mounts : Namespace) :
    FsNode → Namespace
  | .directory children =>
    if !isRootDir && children.any fun child => needsTmpfs mounts.real path child.1 child.2 then
      let worker := commitTmpfs sources path (mounts.real.get path) mounts.worker
        (.directory children)
      ⟨bindMount mounts.real path (worker.get path), worker⟩
    else
      commitChildren sources isRootDir path mounts.real mounts children
  | .file src => { mounts with real := bindMount mounts.real path (sources src) }
  | _ => mounts

/-- Commit the children that were retained; `before` is what they were checked
against. -/
def commitChildren (sources : Sources) (isRootDir : Bool) (path : Path) (before : Tree)
    (mounts : Namespace) : List (String × FsNode) → Namespace
  | [] => mounts
  | (name, node) :: rest =>
    if isRootDir && needsTmpfs before path name node then
      commitChildren sources isRootDir path before mounts rest
    else
      commitChildren sources isRootDir path before
        (commit sources false (path ++ [utf8 name]) mounts node) rest

end

end Magisk.Core.Module
