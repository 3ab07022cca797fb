import VisualDigest.Events
import VisualDigest.Library.BuildArith

/-! The QR front end: RGBA pixels turned to luma and handed to the QR reader. The image and
the QR crate are parameters, and what the first is to do is stated apart. -/
namespace VisualDigest.Qr
open Checked BuildArith Events

structure ImageCrate where
  ImageBuffer : Type
  fromFn : UInt32 → UInt32 → (UInt32 → UInt32 → Exec Empty UInt8) → Exec Empty ImageBuffer
  dimensions : ImageBuffer → UInt32 × UInt32
  getPixel : ImageBuffer → UInt32 → UInt32 → UInt8

/- Every pixel inside is what the closure gave for it. A buffer of up to 2^30 pixels comes
about unless the closure panics on a pixel inside. -/
structure StoresPixels (image : ImageCrate) : Prop where
  stores : ∀ {width height f img}, image.fromFn width height f = .ok img →
    ∀ x y, x < width → y < height → f x y = .ok (image.getPixel img x y)
  returns : ∀ {width height f}, width.toNat * height.toNat ≤ 2^30 →
    (∀ x y, x < width → y < height → ∃ v, f x y = .ok v) → ∃ img, image.fromFn width height f = .ok img

def KeepsSize (image : ImageCrate) : Prop := ∀ {width height f img},
  image.fromFn width height f = .ok img → image.dimensions img = (width,height)

/- The QR crate. Each of its calls may panic. A grid is decoded into a vector, whose content
afterwards is returned also on failure. -/
structure RqrrCrate (ImageBuffer : Type) where
  PreparedImage : Type
  Grid : Type
  MetaData : Type
  DeQRError : Type
  prepare : ImageBuffer → Exec Empty PreparedImage
  detectGrids : PreparedImage → Exec Empty (List Grid)
  decodeTo : Grid → Slice UInt8 → Exec Empty (Except DeQRError MetaData × Slice UInt8)

structure RgbaImage where
  width : UInt32
  height : UInt32
  raw : Slice UInt8
  sized : raw.data.length = 4 * (width.toNat * height.toNat)

structure Loader where
  Path : Type
  DynamicImage : Type
  ImageError : Type
  openPath : Path → Exec Empty (Except ImageError DynamicImage)
  toRgba8 : DynamicImage → Exec Empty RgbaImage

inductive QrError (IoError ImageError : Type) where
  | io (error : IoError)
  | decode (error : ImageError)
  | noQrFound
  deriving DecidableEq, Repr

section
variable (build : Build) (rgba : Slice UInt8)

/- The closure handed to `from_fn`: the index in 32 bits, widened only then. -/
def lumaPixel {ε : Type} (width x y : UInt32) : Exec ε UInt8 := do
  let base := (← mulIn build (← addIn build (← mulIn build y width) x) 4).toUInt64
  let r := (← index rgba.data base.toNat).toUInt32
  let g := (← index rgba.data (← addIn build base 1).toNat).toUInt32
  let b := (← index rgba.data (← addIn build base 2).toNat).toUInt32
  let sum ← addIn build (← addIn build (← mulIn build r 299) (← mulIn build g 587)) (← mulIn build b 114)
  let lumaVal := (sum / 1000).toUInt8
  subIn build 255 lumaVal

def expectedLen {ε : Type} (width height : UInt32) : Exec ε Usize := do
  mulIn build (← mulIn build width.toUInt64 height.toUInt64) 4

def lumaImage (image : ImageCrate) (width height : UInt32) : Exec Empty (Option image.ImageBuffer) := do
  let expected ← expectedLen build width height
  if rgba.data.length ≠ expected.toNat then
    return none
  let luma ← image.fromFn width height (lumaPixel build rgba width)
  return some luma

end

section
variable {ImageBuffer : Type} (rqrr : RqrrCrate ImageBuffer)

def vecNew : Slice UInt8 := ⟨[],Nat.zero_le _⟩

def firstPayload : List rqrr.Grid → Exec Empty (Option (Slice UInt8))
  | [] => return none
  | grid::rest => do
    match ← rqrr.decodeTo grid vecNew with
    | (.ok _,payload) => return some payload
    | (.error _,_) => firstPayload rest

def decodeFromLuma (luma : ImageBuffer) : Exec Empty (Option (Slice UInt8)) := do
  let prepared ← rqrr.prepare luma
  let grids ← rqrr.detectGrids prepared
  firstPayload rqrr grids

end

def decodeQrRgba (image : ImageCrate) (rqrr : RqrrCrate image.ImageBuffer) (build : Build)
    (rgba : Slice UInt8) (width height : UInt32) : Exec Empty (Option (Slice UInt8)) := do
  match ← lumaImage build rgba image width height with
  | none => return none
  | some luma => decodeFromLuma rqrr luma

/- A file that does not load gives the loader's own error, whatever its cause. -/
def decodeQrPng (IoError : Type) (loader : Loader) (image : ImageCrate)
    (rqrr : RqrrCrate image.ImageBuffer) (build : Build) (path : loader.Path) :
    Exec Empty (Except (QrError IoError loader.ImageError) (Slice UInt8)) := do
  match ← loader.openPath path with
  | .error error => return .error (.decode error)
  | .ok img =>
    let rgba ← loader.toRgba8 img
    match ← decodeQrRgba image rqrr build rgba.raw rgba.width rgba.height with
    | some payload => return .ok payload
    | none => return .error .noQrFound

end VisualDigest.Qr
