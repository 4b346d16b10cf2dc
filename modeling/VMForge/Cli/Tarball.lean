import VMForge.Base.Padded
import VMForge.Base.TextLines

namespace VMForge.Cli

def block : Nat := 512

-- The octal digits of a number, as bytes.
def octal (value width : Nat) : List UInt8 := Utf8.encode (padded 8 width value)

section Fields

-- `field[..width].copy_from_slice(src)`. Here and below none is a panic.
def copyFromSlice (field : List UInt8) (width : Nat) (src : List UInt8) : Option (List UInt8) :=
  if width ≤ field.length ∧ src.length = width then some (src ++ field.drop width) else none

def writeOctalN (field : List UInt8) (value width : Nat) : Option (List UInt8) := do
  let field ← copyFromSlice field width (octal value width)
  if width < field.length then some (field.set width 0) else none

def writeOctal (field : List UInt8) (value : Nat) : Option (List UInt8) :=
  writeOctalN field value (field.length - 1)

-- 12-byte size and mtime fields: 11 digits and a NUL.
def writeOctal12 (field : List UInt8) (value : Nat) : Option (List UInt8) :=
  writeOctalN field value 11

-- What is done to `&mut header[start..stop]`.
def onSlice (header : List UInt8) (start stop : Nat) (f : List UInt8 → Option (List UInt8)) :
    Option (List UInt8) := do
  if stop ≤ header.length then
    let field ← f ((header.take stop).drop start)
    return header.take start ++ field ++ header.drop stop
  else none

end Fields

section Writer

structure TarWriter where
  out : List UInt8
  deriving DecidableEq

def ustar : List UInt8 := Utf8.encode "ustar".toList

-- The sum is at most 512 * 255, so it fits the `u32` it is taken in.
def byteSum (bytes : List UInt8) : Nat := (bytes.map UInt8.toNat).sum

def tarHeader (path : List UInt8) (size mtime : Nat) : Option (List UInt8) := do
  let header := List.replicate block 0
  let header ← onSlice header 0 path.length fun field => copyFromSlice field path.length path
  let header ← onSlice header 100 108 fun field => writeOctal field 0o644
  let header ← onSlice header 108 116 fun field => writeOctal field 0
  let header ← onSlice header 116 124 fun field => writeOctal field 0
  let header ← onSlice header 124 136 fun field => writeOctal12 field size
  let header ← onSlice header 136 148 fun field => writeOctal12 field mtime
  let header ← onSlice header 148 156 fun field => some (field.map fun _ => 32)
  let header := header.set 156 48
  let header ← onSlice header 257 262 fun field => copyFromSlice field 5 ustar
  let header ← onSlice header 263 265 fun field => copyFromSlice field 2 [48, 48]
  let checksum := byteSum header
  let header ← onSlice header 148 155 fun field => writeOctalN field checksum 6
  return header.set 155 32

-- `path.len() > 100 || path.starts_with('/')`
def isRefused (path : List Char) : Bool :=
  100 < (Utf8.encode path).length || path.head? = some '/'

def refusal (path : List Char) : List Char :=
  "tar entry name invalid or too long: ".toList ++ path

-- The header is written before the contents, and made before either.
def TarWriter.append (tar : TarWriter) (path : List Char) (contents : List UInt8) (mtime : Nat) :
    Option (TarWriter × Except (List Char) Unit) :=
  if isRefused path then some (tar, .error (refusal path))
  else do
    let header ← tarHeader (Utf8.encode path) contents.length mtime
    let pad := (block - contents.length % block) % block
    return (⟨tar.out ++ header ++ contents ++ List.replicate pad 0⟩, .ok ())

-- The end of the archive: two blocks of zeros.
def TarWriter.finish (tar : TarWriter) : List UInt8 := tar.out ++ List.replicate (2 * block) 0

end Writer

end VMForge.Cli
