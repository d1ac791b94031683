import FleetOps.Foundations.Text
import Mathlib.Data.Nat.Bitwise

/-!
# ZPL labels

`ZplAdapter.publish` writes a label as one `^GFA` graphic.  Pillow's raw bytes of
a bilevel image carry a one for white, the graphic carries a one for black, so
the adapter inverts every byte.  A row of the image ends inside its last byte
unless its width is a multiple of eight; the rest of that byte is zero in the raw
bytes, and so it is black in the graphic.
-/

namespace FleetOps.Labels

open Text

/-! ## Images -/

/-- An image of mode `1`: of each column and row, whether the pixel is white. -/
structure Bilevel where
  width : ℕ
  height : ℕ
  white : ℕ → ℕ → Bool
  width_pos : 0 < width
  height_pos : 0 < height

/-- The pixel lies in the image and is black. -/
def Bilevel.black (image : Bilevel) (x y : ℕ) : Bool :=
  x < image.width && y < image.height && !image.white x y

/-- `(image.width + 7) // 8` -/
def Bilevel.rowBytes (image : Bilevel) : ℕ := (image.width + 7) / 8

/-- A bit of a row, the most significant bit of each byte first. -/
def rowBit (bytes : List UInt8) (perRow x y : ℕ) : Bool :=
  ((bytes.getD (y * perRow + x / 8) 0).toNat).testBit (7 - x % 8)

/-- What `Image.tobytes` is documented to return for mode `1`. -/
structure RawBytes (tobytes : Bilevel → List UInt8) : Prop where
  length : ∀ image, (tobytes image).length = image.rowBytes * image.height
  bits : ∀ image x y, x < 8 * image.rowBytes → y < image.height →
    rowBit (tobytes image) image.rowBytes x y = (decide (x < image.width) && image.white x y)

/-! ## The adapter -/

/-- `bytes(byte ^ 0xFF for byte in image.tobytes())` -/
def zplRaster (tobytes : Bilevel → List UInt8) (image : Bilevel) : List UInt8 :=
  (tobytes image).map (· ^^^ 0xFF)

/-- The text that `ZplAdapter.publish` stores, of an image that is bilevel already. -/
def zplText (tobytes : Bilevel → List UInt8) (image : Bilevel) : String :=
  let raster := zplRaster tobytes image
  "^XA^PW" ++ toString image.width ++ "^LL" ++ toString image.height ++ "^FO0,0" ++
    "^GFA," ++ toString raster.length ++ "," ++ toString raster.length ++ "," ++
    toString image.rowBytes ++ "," ++ String.ofList (hexUpper raster) ++ "^FS^XZ"

/-! ## The printer -/

/-- A `^GFA` graphic: its two byte counts, the bytes in a row, and the bytes themselves. -/
structure Graphic where
  bytes : ℕ
  total : ℕ
  perRow : ℕ
  data : List UInt8
  deriving DecidableEq, Repr

/-- `^GFA,` -/
def graphicCommand : List Char := ['^', 'G', 'F', 'A', ',']

/-- The graphic in a text. -/
def readGraphic (text : String) : Option Graphic := do
  let fields ← after graphicCommand text.toList
  let (bytes, fields) ← readField ',' fields
  let (total, fields) ← readField ',' fields
  let (perRow, digits) ← readField ',' fields
  pure ⟨bytes, total, perRow, readHex digits⟩

/-- The graphic sets a dot. -/
def Graphic.dot (graphic : Graphic) (x y : ℕ) : Bool :=
  x < 8 * graphic.perRow && rowBit graphic.data graphic.perRow x y

/-- A graphic prints exactly an image. -/
structure Prints (image : Bilevel) (graphic : Graphic) : Prop where
  bytes : graphic.bytes = graphic.data.length
  total : graphic.total = graphic.data.length
  rows : graphic.data.length = graphic.perRow * image.height
  dots : ∀ x y, graphic.dot x y = image.black x y

/-! ## What is emitted -/

/-- The graphic that the adapter's text carries. -/
def zplGraphic (tobytes : Bilevel → List UInt8) (image : Bilevel) : Graphic :=
  let raster := zplRaster tobytes image
  ⟨raster.length, raster.length, image.rowBytes, raster⟩

theorem ne_of_isDigit {c : Char} (h : c.isDigit) : c ≠ '^' := by
  rintro rfl
  exact absurd h (by decide)

/-- No command before the graphic is `^GFA`. -/
theorem after_header {width height : List Char} (hwidth : ∀ c ∈ width, c ≠ '^')
    (hheight : ∀ c ∈ height, c ≠ '^') (fields : List Char) :
    after graphicCommand ('^' :: 'X' :: 'A' :: '^' :: 'P' :: 'W' :: (width ++
      '^' :: 'L' :: 'L' :: (height ++
        '^' :: 'F' :: 'O' :: '0' :: ',' :: '0' :: (graphicCommand ++ fields)))) = some fields := by
  have hself : after graphicCommand (graphicCommand ++ fields) = some fields :=
    after_self (List.cons_ne_nil _ _)
  rw [← hself]
  unfold graphicCommand
  rw [after_skip_command (by decide), after_skip (by decide), after_skip (by decide),
    after_skip_command (by decide), after_skip (by decide), after_skip (by decide),
    after_skip_all hwidth, after_skip_command (by decide), after_skip (by decide),
    after_skip (by decide), after_skip_all hheight, after_skip_command (by decide),
    after_skip (by decide), after_skip (by decide), after_skip (by decide),
    after_skip (by decide), after_skip (by decide)]

theorem toList_zplText (tobytes : Bilevel → List UInt8) (image : Bilevel) :
    (zplText tobytes image).toList =
      '^' :: 'X' :: 'A' :: '^' :: 'P' :: 'W' :: ((toString image.width).toList ++
        '^' :: 'L' :: 'L' :: ((toString image.height).toList ++
          '^' :: 'F' :: 'O' :: '0' :: ',' :: '0' :: (graphicCommand ++
            ((toString (zplRaster tobytes image).length).toList ++
              ',' :: ((toString (zplRaster tobytes image).length).toList ++
                ',' :: ((toString image.rowBytes).toList ++
                  ',' :: (hexUpper (zplRaster tobytes image) ++
                    ['^', 'F', 'S', '^', 'X', 'Z']))))))) := by
  have hstart : "^XA^PW".toList = ['^', 'X', 'A', '^', 'P', 'W'] := rfl
  have hlength : "^LL".toList = ['^', 'L', 'L'] := rfl
  have horigin : "^FO0,0".toList = ['^', 'F', 'O', '0', ',', '0'] := rfl
  have hgraphic : "^GFA,".toList = graphicCommand := rfl
  have hcomma : ",".toList = [','] := rfl
  have hend : "^FS^XZ".toList = ['^', 'F', 'S', '^', 'X', 'Z'] := rfl
  unfold zplText
  generalize zplRaster tobytes image = raster
  simp only [String.toList_append, String.toList_ofList, hstart, hlength, horigin,
    hgraphic, hcomma, hend, List.append_assoc, List.cons_append, List.nil_append]

/-- The printer reads the graphic back. -/
theorem readGraphic_zplText (tobytes : Bilevel → List UInt8) (image : Bilevel) :
    readGraphic (zplText tobytes image) = some (zplGraphic tobytes image) := by
  have hdigits : ∀ n : ℕ, ∀ c ∈ (toString n).toList, c ≠ '^' :=
    fun n c hc => ne_of_isDigit (isDigit_of_mem_toString hc)
  have hend : readHex ['^', 'F', 'S', '^', 'X', 'Z'] = [] := by decide
  have hcomma : ','.isDigit = false := by decide
  simp only [readGraphic, toList_zplText, after_header (hdigits _) (hdigits _),
    Option.bind_eq_bind, Option.bind_some, readField_toString _ hcomma, readHex_hexUpper _ hend]
  rfl

/-! ## What is printed -/

variable {tobytes : Bilevel → List UInt8}

/-- Inverting the bytes inverts every bit that they carry. -/
theorem rowBit_map_xor {bytes : List UInt8} {perRow x y : ℕ}
    (h : y * perRow + x / 8 < bytes.length) :
    rowBit (bytes.map (· ^^^ 0xFF)) perRow x y = !rowBit bytes perRow x y := by
  have hbit : (255 : ℕ).testBit (7 - x % 8) = true := by
    have hall : ∀ i < 8, (255 : ℕ).testBit i = true := by decide
    exact hall _ (by omega)
  have hget : (bytes.map (· ^^^ 0xFF)).getD (y * perRow + x / 8) 0 =
      bytes.getD (y * perRow + x / 8) 0 ^^^ 0xFF := by
    rw [List.getD_eq_getElem _ _ (by simpa using h), List.getD_eq_getElem _ _ h, List.getElem_map]
  have hff : (0xFF : UInt8).toNat = 255 := rfl
  rw [rowBit, hget, UInt8.toNat_xor, Nat.testBit_xor, hff, hbit, Bool.xor_true]
  rfl

theorem rowBit_of_length_le {bytes : List UInt8} {perRow x y : ℕ}
    (h : bytes.length ≤ y * perRow + x / 8) : rowBit bytes perRow x y = false := by
  rw [rowBit, List.getD_eq_default _ _ h]
  exact Nat.zero_testBit _

/-- The bytes of a row's bit lie in the row. -/
theorem index_lt {perRow height x y : ℕ} (hx : x < 8 * perRow) (hy : y < height) :
    y * perRow + x / 8 < perRow * height := by
  have hle : (y + 1) * perRow ≤ height * perRow := Nat.mul_le_mul_right _ hy
  rw [Nat.succ_mul] at hle
  rw [Nat.mul_comm perRow height]
  omega

/-- The graphic prints the black pixels, and the padding of every row. -/
theorem dot_zplGraphic (h : RawBytes tobytes) (image : Bilevel) (x y : ℕ) :
    (zplGraphic tobytes image).dot x y =
      (image.black x y || (decide (image.width ≤ x) && decide (x < 8 * image.rowBytes) &&
        decide (y < image.height))) := by
  have hdot : (zplGraphic tobytes image).dot x y =
      (decide (x < 8 * image.rowBytes) &&
        rowBit ((tobytes image).map (· ^^^ 0xFF)) image.rowBytes x y) := rfl
  have hinside : image.width ≤ 8 * image.rowBytes := by
    unfold Bilevel.rowBytes
    omega
  rw [hdot]
  by_cases hx : x < 8 * image.rowBytes
  · by_cases hy : y < image.height
    · have hindex : y * image.rowBytes + x / 8 < (tobytes image).length := by
        rw [h.length]
        exact index_lt hx hy
      rw [rowBit_map_xor hindex, h.bits image x y hx hy, Bilevel.black]
      by_cases hwidth : x < image.width
      · simp [hx, hy, hwidth, Nat.not_le.mpr hwidth]
      · simp [hx, hy, hwidth, Nat.not_lt.mp hwidth]
    · have hout : ((tobytes image).map (· ^^^ 0xFF)).length ≤ y * image.rowBytes + x / 8 := by
        have hle : image.height * image.rowBytes ≤ y * image.rowBytes :=
          Nat.mul_le_mul_right _ (Nat.not_lt.mp hy)
        rw [List.length_map, h.length, Nat.mul_comm]
        omega
      rw [rowBit_of_length_le hout]
      simp [Bilevel.black, hy]
  · have hwidth : ¬x < image.width := fun hlt => hx (hlt.trans_le hinside)
    simp [Bilevel.black, hx, hwidth]

/-- The byte counts are right at every size. -/
theorem length_zplRaster (h : RawBytes tobytes) (image : Bilevel) :
    (zplRaster tobytes image).length = image.rowBytes * image.height := by
  rw [zplRaster, List.length_map, h.length]

/-- The graphic prints exactly the image where no row is padded. -/
theorem prints_zplGraphic_iff (h : RawBytes tobytes) (image : Bilevel) :
    Prints image (zplGraphic tobytes image) ↔ 8 ∣ image.width := by
  constructor
  · intro hprints
    by_contra hdivides
    -- The first dot of the padding.
    have hpadding : image.width < 8 * image.rowBytes := by
      unfold Bilevel.rowBytes
      omega
    have hdot := hprints.dots image.width 0
    rw [dot_zplGraphic h] at hdot
    simp [Bilevel.black, hpadding, image.height_pos] at hdot
  · intro hdivides
    refine ⟨rfl, rfl, length_zplRaster h image, fun x y => ?_⟩
    have hfull : ¬(image.width ≤ x ∧ x < 8 * image.rowBytes) := by
      unfold Bilevel.rowBytes
      omega
    rw [dot_zplGraphic h, ← Bool.decide_and, decide_eq_false hfull, Bool.false_and, Bool.or_false]

/-- What the printer decodes from the emitted text prints exactly the image, if and only if the
width of the image is a multiple of eight. -/
theorem zplExact (tobytes : Bilevel → List UInt8) (h : RawBytes tobytes) (image : Bilevel) :
    (∃ graphic, readGraphic (zplText tobytes image) = some graphic ∧ Prints image graphic) ↔
      8 ∣ image.width := by
  rw [readGraphic_zplText, ← prints_zplGraphic_iff h]
  constructor
  · rintro ⟨_, ⟨⟩, hprints⟩
    exact hprints
  · exact fun hprints => ⟨_, rfl, hprints⟩

/-! ## A label as it is rendered -/

/-- Rows packed as Pillow packs them. -/
def packedBytes (image : Bilevel) : List UInt8 :=
  (List.range (image.rowBytes * image.height)).map fun i =>
    let x := 8 * (i % image.rowBytes)
    UInt8.ofNat (Nat.ofBits fun bit : Fin 8 =>
      decide (x + (7 - bit) < image.width) && image.white (x + (7 - bit)) (i / image.rowBytes))

theorem rawBytes_packedBytes : RawBytes packedBytes := by
  refine ⟨fun image => by simp [packedBytes], fun image x y hx hy => ?_⟩
  have hrow : x / 8 < image.rowBytes := by omega
  have hindex := index_lt hx hy
  have hcolumn : (y * image.rowBytes + x / 8) % image.rowBytes = x / 8 := by
    rw [Nat.mul_comm, Nat.mul_add_mod, Nat.mod_eq_of_lt hrow]
  have hline : (y * image.rowBytes + x / 8) / image.rowBytes = y := by
    rw [Nat.mul_comm, Nat.mul_add_div (by omega), Nat.div_eq_of_lt hrow, Nat.add_zero]
  have hx' : 8 * (x / 8) + (7 - (7 - x % 8)) = x := by omega
  have hget : (packedBytes image).getD (y * image.rowBytes + x / 8) 0 =
      UInt8.ofNat (Nat.ofBits fun bit : Fin 8 =>
        decide (8 * (x / 8) + (7 - bit) < image.width) &&
          image.white (8 * (x / 8) + (7 - bit)) y) := by
    rw [packedBytes, List.getD_eq_getElem _ _ (by simpa using hindex), List.getElem_map,
      List.getElem_range]
    simp only [hcolumn, hline]
  rw [rowBit, hget, UInt8.toNat_ofNat_of_lt' (Nat.ofBits_lt_two_pow _),
    Nat.testBit_ofBits_lt _ _ (by omega)]
  simp only [hx']

/-- A blank label as wide as a Code 128 symbol of an id without runs of digits makes it. -/
def blankLabel : Bilevel := ⟨1401, 394, fun _ _ => true, by decide, by decide⟩

/-- The blank label has black dots beside it. -/
theorem zplExact_blank :
    ¬∃ graphic, readGraphic (zplText packedBytes blankLabel) = some graphic ∧
      Prints blankLabel graphic := by
  rintro ⟨graphic, hread, hprints⟩
  rw [readGraphic_zplText, Option.some.injEq] at hread
  subst hread
  have hdivides :
    8 ∣ blankLabel.width := (prints_zplGraphic_iff rawBytes_packedBytes blankLabel).mp hprints
  exact absurd hdivides (by decide)

/-- A blank label of the least width is printed exactly. -/
theorem zplExact_narrow :
    let label : Bilevel := ⟨1200, 394, fun _ _ => true, by decide, by decide⟩
    ∃ graphic, readGraphic (zplText packedBytes label) = some graphic ∧ Prints label graphic := by
  intro label
  have hdivides : 8 ∣ 1200 := by decide
  exact (zplExact packedBytes rawBytes_packedBytes label).mpr hdivides

end FleetOps.Labels
