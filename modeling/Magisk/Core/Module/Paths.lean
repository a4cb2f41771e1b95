import Magisk.Bytes.Core

/-!
# Paths that grow and shrink

A `ModulePaths` or `MountPaths` is made of trackers of shared buffers.  They append to
the buffers when the value is made, and cut them back to the length they had when it is
dropped.  A value is dropped before the one it was made from: the live values are a
stack.
-/

namespace Magisk.Core.Module

open List Bytes

/-- `append_path` on a growable buffer. -/
def appendPath (buf path : List UInt8) : List UInt8 :=
  let buf := if path.head? = some 47 then [] else buf
  (if buf ≠ [] ∧ buf.getLast? ≠ some 47 then buf ++ [47] else buf) ++ path

/-- Buffers and the `len` of the trackers of each live value, the last one made first. -/
structure Paths (ι : Type) where
  buffers : ι → List UInt8
  live : List (ι → Nat)

/-- A value is made whose trackers append names or borrow a buffer again, or the last
one made is dropped. -/
inductive PathEvent (ι : Type) where
  | create (names : ι → Option (List UInt8))
  | drop

/-- The buffers of a `ModulePaths`. -/
inductive ModuleBuffer where
  | real
  | module
  | moduleMnt

/-- The buffers of a `MountPaths`. -/
inductive MountBuffer where
  | real
  | worker

namespace ModulePaths

def new (tmp : List UInt8) (buffers : ModuleBuffer → List UInt8) : Paths ModuleBuffer where
  buffers
    | .real => appendPath (buffers .real) (utf8 "/")
    | .module => appendPath (buffers .module) (utf8 "/data/adb/modules")
    | .moduleMnt => appendPath (appendPath (buffers .moduleMnt) tmp) (utf8 ".magisk/modules")
  live := []

def append (name : List UInt8) : PathEvent ModuleBuffer :=
  .create fun _ => some name

end ModulePaths

namespace MountPaths

def new (tmp : List UInt8) (buffers : MountBuffer → List UInt8) : Paths MountBuffer where
  buffers
    | .real => appendPath (buffers .real) (utf8 "/")
    | .worker => appendPath (appendPath (buffers .worker) tmp) (utf8 ".magisk/worker")
  live := []

def append (name : List UInt8) : PathEvent MountBuffer :=
  .create fun _ => some name

end MountPaths

section Run

variable {ι : Type}

def Paths.step (paths : Paths ι) : PathEvent ι → Option (Paths ι)
  | .create names => some
    { buffers i := (names i).elim (paths.buffers i) (appendPath (paths.buffers i))
      live := (fun i => (paths.buffers i).length) :: paths.live }
  | .drop => paths.live.head?.map fun len =>
    { buffers i := (paths.buffers i).take (len i)
      live := paths.live.tail }

/-- A name behind a path and one `/`. -/
def join (parent name : List UInt8) : List UInt8 :=
  if parent.getLast? = some 47 then parent ++ name else parent ++ 47 :: name

end Run

end Magisk.Core.Module
