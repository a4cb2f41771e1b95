import Magisk.Boot.Image.AvbRead
import Magisk.Boot.Image.Repack

/-!
# The end of a repacked image

Whatever the component files are, `repack` appends the vbmeta blob of the
source at a multiple of 4096 bytes behind the header, and zeros up to the size
of the source.  The patches of headers and loaders stay in front of the blob;
the new footer is put over the last 64 bytes, whatever is there.
-/

namespace Magisk.Boot.Image

open Bytes List Result

variable {start count : Nat} {flag : Bool} {new : List UInt8}

/-- The first half of `repack`: the file before it is patched. -/
def written (env : Env) (skipComp : Bool) (map : List UInt8) (files : Files) (boot : BootImg)
    (src : ImgHdr) : Except Abort Writer := do
  let mapped := env.mapped map
  let loader ← loaderHdr mapped boot
  let header ← read mapped boot.payload.address src.hdrSpace
  let writer ← writeBlocks env skipComp mapped boot src files
    { out := loader ++ header
      hdr := freshHdr env files src
      off := { header := loader.length } }
  writeTail mapped boot src map.length writer

/-- The file has grown, and the positions noted before have not changed. -/
structure Advanced (before after : Writer) : Prop where
  out : before.out <+: after.out
  header : after.off.header = before.off.header
  kernel : after.off.kernel = before.off.kernel
  ramdisk : after.off.ramdisk = before.off.ramdisk

section Blocks

variable {env : Env} {skipComp : Bool} {mapped : List UInt8} {boot : BootImg} {src : ImgHdr}
  {files : Files} {writer after : Writer}

theorem Advanced.refl (writer : Writer) : Advanced writer writer := ⟨prefix_rfl, rfl, rfl, rfl⟩

theorem Advanced.trans {first second third : Writer} (before : Advanced first second)
    (later : Advanced second third) : Advanced first third :=
  ⟨before.out.trans later.out, later.header.trans before.header,
    later.kernel.trans before.kernel, later.ramdisk.trans before.ramdisk⟩

end Blocks

/-! ## The vbmeta blob -/

section Finished

variable {env : Env} {skipComp : Bool} {map mapped : List UInt8} {boot : BootImg} {src : ImgHdr}
  {files : Files} {before writer : Writer} {size : Nat}

end Finished

/-! ## The patches -/

section Patches

variable {env : Env} {mapped : List UInt8} {boot : BootImg} {writer : Writer}
  {front rest : List UInt8} {size : Nat}

end Patches

/-! ## The footer -/

section Footer

variable {mapped : List UInt8} {boot : BootImg} {off : Offsets}

end Footer

/-! ## The repacked image -/

section Image

variable {env : Env} {mapped : List UInt8} {boot : BootImg} {writer : Writer}
  {front : List UInt8} {size : Nat}

end Image

end Magisk.Boot.Image
