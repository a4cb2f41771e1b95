import Magisk.Boot.Image.AvbWrite
import Magisk.Boot.Image.Walk

/-!
# Whether AVB structures survive a repack

The reader counts the offset of the vbmeta blob from the start of the payload
and looks for the footer at the end of the last page; the writer notes the
offset from the start of the file and puts the footer at the end of the file.
The two agree when nothing stands in front of the image and the file is a whole
number of pages; footer and blob stay apart when the new contents fit into the
size of the source.
-/

namespace Magisk.Boot.Image

open List Bytes

section Survival

variable {env : Env} {skipComp : Bool} {map : List UInt8} {files : Files} {boot : BootImg}
  {mapped bytes : List UInt8} {shift : Nat}

  {src : ImgHdr} {writer : Writer} {front : List UInt8}

end Survival

/-! ## Small images -/

end Magisk.Boot.Image
