import FormulaPlot.Plot.Window

/-!
# Images

An `Image` is a rectangle of dark and light pixels, and `Image.encode` writes it as a PNG: a
signature and chunks with check sums, the pixels as one byte of grey each in blocks that are not
compressed.

Images are for the files that the program leaves behind, and only the program uses them. Their
pixels are not those of a plot by Matplotlib, which has a curve, axes, a grid and labels: an image
marks where the points are and no more. What is said of plots elsewhere is that an image is written
and of which points.
-/

namespace FormulaPlot

/-- Rows of pixels from the top down, where `true` is dark. -/
structure Image where
  width : Nat
  height : Nat
  dark : Nat → Nat → Bool

namespace Image

/-- The four bytes of a number, the highest first. -/
def bytes32 (n : UInt32) : List UInt8 :=
  [(n >>> 24).toUInt8, (n >>> 16).toUInt8, (n >>> 8).toUInt8, n.toUInt8]

/-- The cyclic redundancy check after one more byte. -/
def crcStep (c : UInt32) (b : UInt8) : UInt32 :=
  let shift (c : UInt32) : UInt32 :=
    if c &&& 1 = 1 then (0xedb88320 : UInt32) ^^^ (c >>> 1) else c >>> 1
  (List.range 8).foldl (fun c _ => shift c) (c ^^^ b.toUInt32)

/-- The cyclic redundancy check of a chunk. -/
def crc (bytes : List UInt8) : UInt32 := (bytes.foldl crcStep 0xffffffff) ^^^ (0xffffffff : UInt32)

/-- The two sums modulo 65521 that check a stream of data. -/
def adler (bytes : List UInt8) : UInt32 :=
  let (a, b) := bytes.foldl (fun (a, b) x =>
    let a := (a + x.toNat) % 65521
    (a, (b + a) % 65521)) (1, 0)
  UInt32.ofNat (b * 65536 + a)

/-- A chunk with its length, its name and its check. -/
def chunk (name : String) (data : List UInt8) : List UInt8 :=
  let body := name.toUTF8.toList ++ data
  bytes32 (UInt32.ofNat data.length) ++ body ++ bytes32 (crc body)

/-- A block of data that is not compressed. The last one is marked. -/
def block (last : Bool) (data : List UInt8) : List UInt8 :=
  let n := data.length
  let low := UInt8.ofNat (n % 256)
  let high := UInt8.ofNat (n / 256)
  (if last then 1 else 0) :: low :: high :: (255 - low) :: (255 - high) :: data

/-- A row of pixels after the byte that says they are written as they are. -/
def row (im : Image) (y : Nat) : List UInt8 :=
  0 :: (List.range im.width).map fun x => if im.dark x y then 0 else 255

/-- The pixels of an image as a stream, each row in a block of its own. -/
def stream (im : Image) : List UInt8 :=
  let rows := (List.range im.height).map im.row
  let blocks := rows.flatMap (block false) ++ block true []
  0x78 :: 0x01 :: blocks ++ bytes32 (adler rows.flatten)

/-- An image as a file. -/
def encode (im : Image) : ByteArray :=
  let header := bytes32 (UInt32.ofNat im.width) ++ bytes32 (UInt32.ofNat im.height) ++
    [8, 0, 0, 0, 0]
  ([0x89, 0x50, 0x4e, 0x47, 0x0d, 0x0a, 0x1a, 0x0a] ++ chunk "IHDR" header ++
    chunk "IDAT" im.stream ++ chunk "IEND" []).toByteArray

/-- The image of points, each of them a square of three pixels a side, in the window that fits
them. -/
def ofPoints (width height : Nat) (points : List Point) : Image :=
  let xs := points.map Point.x
  let low := xs.headD 0
  let w := Window.around (Window.least low xs) (Window.greatest low xs) points
  let cells := points.filterMap fun p =>
    match w.locate p width height with
    | .ok (some (col, row)) => some (col.toNat, height - 1 - row.toNat)
    | _ => none
  let near (a b : Nat) : Bool := a ≤ b + 1 && b ≤ a + 1
  { width, height, dark := fun x y => cells.any fun (col, row) => near col x && near row y }

end Image

end FormulaPlot
