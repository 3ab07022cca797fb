import VisualDigest.QrFiles
import VisualDigest.Library.FillLoop

/-! Payloads drawn as the tests draw them, in the sizes and colours of the system's own screen. -/
namespace VisualDigest.Screen
open Checked BuildArith FillLoop Qr QrExact QrFiles

/- The crate that makes QR codes, at the error correction the tests ask for. -/
structure QrcodegenCrate where
  QrCode : Type
  DataTooLong : Type
  encodeBinary : List UInt8 → Except DataTooLong QrCode
  size : QrCode → Int32
  getModule : QrCode → Int32 → Int32 → Bool

structure Rgba where
  r : UInt8
  g : UInt8
  b : UInt8
  a : UInt8
  deriving DecidableEq, Repr

def modulePx : UInt32 := 4
def quietModules : UInt32 := 4
def fgRgba : Rgba := ⟨51,150,51,255⟩
def bgRgba : Rgba := ⟨0,0,0,255⟩

def newImage (width height : UInt32) : Exec Empty RgbaImage :=
  if room : 4 * (width.toNat * height.toNat) ≤ isizeMax then
    .ok ⟨width,height,⟨List.replicate (4 * (width.toNat * height.toNat)) 0,
      (List.length_replicate).trans_le room⟩,List.length_replicate⟩
  else .error (.panic .overflow)

def setPixel (bytes : List UInt8) (base : Nat) (colour : Rgba) : List UInt8 :=
  (((bytes.set base colour.r).set (base+1) colour.g).set (base+2) colour.b).set (base+3) colour.a

theorem setPixelLength (bytes : List UInt8) (base : Nat) (colour : Rgba) :
    (setPixel bytes base colour).length = bytes.length := by
  simp only [setPixel,List.length_set]

def putPixel (img : RgbaImage) (x y : UInt32) (colour : Rgba) : Exec Empty RgbaImage :=
  if x < img.width ∧ y < img.height then
    .ok { img with
      raw := ⟨setPixel img.raw.data (offset img.width x y) colour,
        (setPixelLength _ _ _).trans_le img.raw.bounded⟩
      sized := (setPixelLength _ _ _).trans img.sized }
  else .error (.panic .bounds)

section
variable (qrcodegen : QrcodegenCrate) (build : Build)

def colourAt (qr : qrcodegen.QrCode) (qrModules px py : UInt32) : Exec Empty Rgba := do
  let mx := px / modulePx
  let my := py / modulePx
  if mx < quietModules ∨ my < quietModules then
    return bgRgba
  let far ← addIn build qrModules quietModules
  if mx ≥ far ∨ my ≥ far then
    return bgRgba
  let qx := (← subIn build mx quietModules).toInt32
  let qy := (← subIn build my quietModules).toInt32
  if qrcodegen.getModule qr qx qy then
    return fgRgba
  return bgRgba

def drawRow (qr : qrcodegen.QrCode) (qrModules side py : UInt32) (img : RgbaImage) : Exec Empty RgbaImage :=
  (List.range side.toNat).foldlM (fun img px => do
    let colour ← colourAt qrcodegen build qr qrModules (.ofNat px) py
    putPixel img (.ofNat px) py colour) img

def sideOf (qrModules : UInt32) : Exec Empty UInt32 := do
  mulIn build (← addIn build qrModules (← mulIn build 2 quietModules)) modulePx

def renderQrToRgba (payload : List UInt8) : Exec Empty RgbaImage := do
  match qrcodegen.encodeBinary payload with
  | .error _ => .error (.panic .unwrap)
  | .ok qr =>
    let qrModules := (qrcodegen.size qr).toUInt32
    let side ← sideOf build qrModules
    let img ← newImage side side
    (List.range side.toNat).foldlM (fun img py =>
      drawRow qrcodegen build qr qrModules side (.ofNat py) img) img

end

def rgbaAt (bytes : List UInt8) (base : Nat) : Option Rgba := do
  let r ← bytes[base]?
  let g ← bytes[base+1]?
  let b ← bytes[base+2]?
  let a ← bytes[base+3]?
  return ⟨r,g,b,a⟩

def pixelAt (img : RgbaImage) (k : UInt32 × UInt32) : Option Rgba :=
  if k.1 < img.width ∧ k.2 < img.height then rgbaAt img.raw.data (offset img.width k.1 k.2) else none

theorem pixelWritten {bytes : List UInt8} {base : Nat} (colour : Rgba) (inside : base + 3 < bytes.length) :
    rgbaAt (setPixel bytes base colour) base = some colour := by
  have first : base < bytes.length := by omega
  have second : base + 1 < bytes.length := by omega
  have third : base + 2 < bytes.length := by omega
  simp [rgbaAt,setPixel,first,second,third,inside]

theorem byteKept {bytes : List UInt8} {base i : Nat} (colour : Rgba) (apart : i < base ∨ base + 4 ≤ i) :
    (setPixel bytes base colour)[i]? = bytes[i]? := by
  have first : base ≠ i := by omega
  have second : base + 1 ≠ i := by omega
  have third : base + 2 ≠ i := by omega
  have fourth : base + 3 ≠ i := by omega
  simp only [setPixel,List.getElem?_set_ne first,List.getElem?_set_ne second,List.getElem?_set_ne third,
    List.getElem?_set_ne fourth]

theorem pixelKept {bytes : List UInt8} {base other : Nat} (colour : Rgba)
    (apart : base + 4 ≤ other ∨ other + 4 ≤ base) :
    rgbaAt (setPixel bytes base colour) other = rgbaAt bytes other := by
  have kept : ∀ k < 4, (setPixel bytes base colour)[other+k]? = bytes[other+k]? :=
    fun k near => byteKept colour (by omega)
  have first : (setPixel bytes base colour)[other]? = bytes[other]? := kept 0 (by omega)
  simp only [rgbaAt,first,kept 1 (by omega),kept 2 (by omega),kept 3 (by omega)]

theorem offsetsApart {width x y x' y' : UInt32} (inX : x < width) (inX' : x' < width)
    (other : (x,y) ≠ (x',y')) :
    offset width x y + 4 ≤ offset width x' y' ∨ offset width x' y' + 4 ≤ offset width x y := by
  rw [UInt32.lt_iff_toNat_lt] at inX inX'
  unfold offset
  rcases Nat.lt_trichotomy y.toNat y'.toNat with above | level | below
  · have rows := Nat.mul_le_mul_right width.toNat (Nat.succ_le_of_lt above)
    rw [Nat.succ_mul] at rows
    omega
  · have columns : x.toNat ≠ x'.toNat := fun same =>
      other (Prod.ext (UInt32.toNat_inj.mp same) (UInt32.toNat_inj.mp level))
    rw [level]
    omega
  · have rows := Nat.mul_le_mul_right width.toNat (Nat.succ_le_of_lt below)
    rw [Nat.succ_mul] at rows
    omega

section
variable (qrcodegen : QrcodegenCrate) (build : Build)

def modules (qr : qrcodegen.QrCode) : Nat := (qrcodegen.size qr).toUInt32.toNat

def dark (qr : qrcodegen.QrCode) (x y : UInt32) : Bool :=
  decide (4 ≤ x.toNat/4 ∧ 4 ≤ y.toNat/4 ∧ x.toNat/4 < modules qrcodegen qr + 4 ∧
    y.toNat/4 < modules qrcodegen qr + 4) &&
  qrcodegen.getModule qr (.ofNat (x.toNat/4 - 4)) (.ofNat (y.toNat/4 - 4))

def inColours (qr : qrcodegen.QrCode) (x y : UInt32) : Rgba :=
  if dark qrcodegen qr x y then fgRgba else bgRgba

variable {qrcodegen} {qr : qrcodegen.QrCode} (small : modules qrcodegen qr ≤ 177)

theorem moduleValue (x : UInt32) : (x / modulePx).toNat = x.toNat / 4 := UInt32.toNat_div _ _

theorem moduleShifted {x : UInt32} (border : 4 ≤ x.toNat / 4) :
    ∃ c, subIn (ε := Empty) build (x / modulePx) quietModules = .ok c ∧
      c.toInt32 = .ofNat (x.toNat/4 - 4) := by
  obtain ⟨c,ran,value⟩ := @subFits Empty _ _ build (x / modulePx) quietModules
    (by rw [show Machine.value (x / modulePx) = (x / modulePx).toNat from rfl,moduleValue]; exact border)
  refine ⟨c,ran,?_⟩
  have shifted : c.toNat = x.toNat/4 - 4 := by
    rw [← moduleValue]
    exact value
  rw [← shifted,← UInt32.ofNat_toNat (x := c),UInt32.toNat_ofNat_of_lt' c.toNat_lt]
  rfl

include small

theorem borderValue : ∃ far, addIn (ε := Empty) build (qrcodegen.size qr).toUInt32 quietModules = .ok far ∧
    far.toNat = modules qrcodegen qr + 4 := by
  have fits : modules qrcodegen qr + 4 < 2^32 := by omega
  exact addFits build fits

theorem colourExact (x y : UInt32) :
    colourAt qrcodegen build qr (qrcodegen.size qr).toUInt32 x y = .ok (inColours qrcodegen qr x y) := by
  obtain ⟨far,ran,value⟩ := borderValue build small
  unfold colourAt inColours dark
  simp only [UInt32.lt_iff_toNat_lt,UInt32.le_iff_toNat_le,ge_iff_le,moduleValue,ran,value,
    show quietModules.toNat = 4 from rfl,bind,Except.bind]
  by_cases near : x.toNat/4 < 4 ∨ y.toNat/4 < 4
  · have outside : ¬ (4 ≤ x.toNat/4 ∧ 4 ≤ y.toNat/4 ∧ x.toNat/4 < modules qrcodegen qr + 4 ∧
        y.toNat/4 < modules qrcodegen qr + 4) := by omega
    simp [near,outside]
    rfl
  by_cases behind : modules qrcodegen qr + 4 ≤ x.toNat/4 ∨ modules qrcodegen qr + 4 ≤ y.toNat/4
  · have outside : ¬ (4 ≤ x.toNat/4 ∧ 4 ≤ y.toNat/4 ∧ x.toNat/4 < modules qrcodegen qr + 4 ∧
        y.toNat/4 < modules qrcodegen qr + 4) := by omega
    simp [near,behind,outside]
    rfl
  have inside : 4 ≤ x.toNat/4 ∧ 4 ≤ y.toNat/4 ∧ x.toNat/4 < modules qrcodegen qr + 4 ∧
      y.toNat/4 < modules qrcodegen qr + 4 := by omega
  obtain ⟨qx,ranX,column⟩ := moduleShifted build inside.1
  obtain ⟨qy,ranY,row⟩ := moduleShifted build inside.2.1
  simp only [if_neg near,if_neg behind,ranX,ranY,column,row]
  cases shade : qrcodegen.getModule qr (.ofNat (x.toNat/4 - 4)) (.ofNat (y.toNat/4 - 4)) <;>
    simp [inside] <;> rfl

end

def Square (side : UInt32) (img : RgbaImage) : Prop := img.width = side ∧ img.height = side

theorem putFills {side : UInt32} {value : UInt32 × UInt32 → Option Rgba} {img : RgbaImage} {x y : UInt32}
    {colour : Rgba} (square : Square side img) (inX : x < side) (inY : y < side)
    (right : value (x,y) = some colour) :
    ∃ after, putPixel img x y colour = .ok after ∧
      Filled (Square side) pixelAt value (fun k => k = (x,y)) img after := by
  obtain ⟨rfl,high⟩ := square
  rw [← high] at inY
  refine ⟨_,if_pos ⟨inX,inY⟩,⟨rfl,high⟩,?_,?_⟩
  · rintro k rfl
    have length := img.sized
    have room := insideOffset inX inY
    rw [right]
    exact (if_pos ⟨inX,inY⟩).trans (pixelWritten colour (by unfold area at room; omega))
  · rintro ⟨x',y'⟩ other
    by_cases within : x' < img.width ∧ y' < img.height
    · have apart := offsetsApart inX within.1 (fun same => other same.symm)
      exact (if_pos within).trans ((pixelKept colour apart).trans (if_pos within).symm)
    · exact (if_neg within).trans (if_neg within).symm

section
variable {qrcodegen : QrcodegenCrate} (build : Build) {qr : qrcodegen.QrCode}
  (small : modules qrcodegen qr ≤ 177)
include small

theorem rowFills {side : UInt32} {img : RgbaImage} (square : Square side img) {y : UInt32} (inY : y < side) :
    ∃ after, drawRow qrcodegen build qr (qrcodegen.size qr).toUInt32 side y img = .ok after ∧
      Filled (Square side) pixelAt (fun k => some (inColours qrcodegen qr k.1 k.2))
        (fun k => ∃ px ∈ List.range side.toNat, k = (.ofNat px,y)) img after := by
  refine loopFills (fun px inside img square => ?_) img square
  have inX : UInt32.ofNat px < side := ofNatBelow (List.mem_range.mp inside)
  simp only [colourExact build small,bind,Except.bind]
  exact putFills square inX inY rfl

theorem sideValue : ∃ side, sideOf build (qrcodegen.size qr).toUInt32 = .ok side ∧
    side.toNat = 4 * (modules qrcodegen qr + 8) := by
  have quiet : mulIn (ε := Empty) build 2 quietModules = .ok 8 := by cases build <;> rfl
  have wide : modules qrcodegen qr + 8 < 2^32 := by omega
  obtain ⟨across,ran,value⟩ := @addFits Empty _ _ build (qrcodegen.size qr).toUInt32 8 wide
  have modulesAcross : across.toNat = modules qrcodegen qr + 8 := value
  have fits : across.toNat * modulePx.toNat < 2^32 := by
    rw [modulesAcross,show modulePx.toNat = 4 from rfl]
    omega
  obtain ⟨side,ranSide,valueSide⟩ := @mulFits Empty _ _ build across modulePx fits
  refine ⟨side,?_,?_⟩
  · simp only [sideOf,quiet,ran,bind,Except.bind,ranSide]
  · have scaled : side.toNat = across.toNat * 4 := valueSide
    omega

theorem renderExact {payload : List UInt8} (coded : qrcodegen.encodeBinary payload = .ok qr) :
    ∃ picture side, renderQrToRgba qrcodegen build payload = .ok picture ∧ Square side picture ∧
      side.toNat = 4 * (modules qrcodegen qr + 8) ∧
      ∀ x y, x < side → y < side → pixelAt picture (x,y) = some (inColours qrcodegen qr x y) := by
  obtain ⟨side,ranSide,value⟩ := sideValue build small
  have edge : side.toNat ≤ 740 := by omega
  have pixels := Nat.mul_le_mul edge edge
  have room : 4 * (side.toNat * side.toNat) ≤ isizeMax := by
    have large : 4 * (740 * 740) ≤ isizeMax := by decide
    omega
  obtain ⟨blank,made,square⟩ : ∃ blank, newImage side side = .ok blank ∧ Square side blank :=
    ⟨_,dif_pos room,rfl,rfl⟩
  have row : ∀ py ∈ List.range side.toNat, ∀ img, Square side img → ∃ after,
      drawRow qrcodegen build qr (qrcodegen.size qr).toUInt32 side (.ofNat py) img = .ok after ∧
        Filled (Square side) pixelAt (fun k => some (inColours qrcodegen qr k.1 k.2))
          (fun k => ∃ px ∈ List.range side.toNat, k = (.ofNat px,.ofNat py)) img after :=
    fun py inside img square => rowFills build small square (ofNatBelow (List.mem_range.mp inside))
  obtain ⟨picture,ran,filled⟩ := loopFills row blank square
  refine ⟨picture,side,?_,filled.still,value,fun x y inX inY => ?_⟩
  · simp only [renderQrToRgba,coded,ranSide,made,bind,Except.bind]
    exact ran
  · refine filled.wrote (x,y) ⟨y.toNat,List.mem_range.mpr inY,x.toNat,List.mem_range.mpr inX,?_⟩
    rw [UInt32.ofNat_toNat,UInt32.ofNat_toNat]

end

def shade (colour : Rgba) : Nat := inverted colour.r colour.g colour.b

/- The set modules of phosphor green come out darker than the black around them. -/
example : shade fgRgba = 146 ∧ shade bgRgba = 255 := by decide

/- The image shows the code and its border and nothing else. -/
structure Drawn {image : ImageCrate} {qrcodegen : QrcodegenCrate} (luma : image.ImageBuffer)
    (side : UInt32) (qr : qrcodegen.QrCode) : Prop where
  square : image.dimensions luma = (side,side)
  edge : side.toNat = 4 * (modules qrcodegen qr + 8)
  shades : ∀ x y, x < side → y < side →
    (image.getPixel luma x y).toNat = shade (inColours qrcodegen qr x y)

theorem pixelBytes {img : RgbaImage} {x y : UInt32} {c : Rgba} (shown : pixelAt img (x,y) = some c) :
    img.raw.data[offset img.width x y]? = some c.r ∧ img.raw.data[offset img.width x y + 1]? = some c.g ∧
      img.raw.data[offset img.width x y + 2]? = some c.b := by
  unfold pixelAt at shown
  split at shown <;> try contradiction
  simp only [rgbaAt,bind,Option.bind_eq_some_iff] at shown
  obtain ⟨r,red,g,green,b,blue,a,_,last⟩ := shown
  cases Option.some.inj last
  exact ⟨red,green,blue⟩

theorem lumaDrawn {image : ImageCrate} (pixels : StoresPixels image) (sizes : KeepsSize image)
    {qrcodegen : QrcodegenCrate} {qr : qrcodegen.QrCode} (small : modules qrcodegen qr ≤ 177) (build : Build)
    {picture : RgbaImage} {side : UInt32} (square : Square side picture)
    (edge : side.toNat = 4 * (modules qrcodegen qr + 8))
    (drawn : ∀ x y, x < side → y < side → pixelAt picture (x,y) = some (inColours qrcodegen qr x y)) :
    ∃ luma, lumaImage build picture.raw image picture.width picture.height = .ok (some luma) ∧
      Drawn luma side qr := by
  obtain ⟨rfl,high⟩ := square
  have width : picture.width.toNat ≤ 740 := by omega
  have few : area picture.width picture.height ≤ 2^30 := by
    have pixels := Nat.mul_le_mul width width
    unfold area
    rw [high]
    omega
  obtain ⟨luma,ran,right⟩ := lumaExact pixels build picture.sized few
  have measured := sizes (lumaFilled ran)
  rw [high] at measured
  refine ⟨luma,ran,measured,edge,fun x y inX inY => ?_⟩
  obtain ⟨r,g,b,red,green,blue,answer⟩ := right x y inX (high ▸ inY)
  obtain ⟨red',green',blue'⟩ := pixelBytes (drawn x y inX inY)
  cases red.symm.trans red'
  cases green.symm.trans green'
  cases blue.symm.trans blue'
  exact answer

section
variable {qrcodegen : QrcodegenCrate} {image : ImageCrate} (rqrr : RqrrCrate image.ImageBuffer)

def Legible (qr : qrcodegen.QrCode) (payload : Slice UInt8) : Prop :=
  ∀ (luma : image.ImageBuffer) (side : UInt32), Drawn luma side qr → Reading rqrr luma (.ok (some payload))

variable {rqrr} (pixels : StoresPixels image) (sizes : KeepsSize image) (build : Build)
  {qr : qrcodegen.QrCode} (small : modules qrcodegen qr ≤ 177) {payload : Slice UInt8}
  (coded : qrcodegen.encodeBinary payload.data = .ok qr) (legible : Legible rqrr qr payload)
  {picture : RgbaImage} (rendered : renderQrToRgba qrcodegen build payload.data = .ok picture)
include pixels sizes small coded rendered

theorem renderedDrawn : ∃ luma side, Square side picture ∧
    lumaImage build picture.raw image picture.width picture.height = .ok (some luma) ∧ Drawn luma side qr := by
  obtain ⟨picture',side,rendered',square,edge,drawn⟩ := renderExact build small coded
  cases rendered.symm.trans rendered'
  obtain ⟨luma,ran,shown⟩ := lumaDrawn pixels sizes small build square edge drawn
  exact ⟨luma,side,square,ran,shown⟩

include legible

theorem legibleRead :
    decodeQrRgba image rqrr build picture.raw picture.width picture.height = .ok (some payload) := by
  obtain ⟨luma,side,_,ran,drawn⟩ := renderedDrawn pixels sizes build small coded rendered
  rw [decodeLuma rqrr ran]
  exact readingExact.mpr (legible luma side drawn)

theorem legibleFound {IoError : Type} {loader : Loader} {path : loader.Path} (opens : Opens path picture) :
    Finding IoError image rqrr build path (.ok (.ok payload)) := by
  obtain ⟨luma,side,_,ran,drawn⟩ := renderedDrawn pixels sizes build small coded rendered
  exact .found (pictureShown pixels opens ran) (legible luma side drawn)

end
end VisualDigest.Screen
