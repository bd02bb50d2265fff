import JppDos.Lib.CText
import Mathlib.Data.List.GetD

/-!
# The display

The framebuffer of `ssd1306.c`: eight pages of 128 columns, each column a strip of eight
pixels, and the functions that draw characters, strings and icons into it.  A page or a
column is a byte, and sums of columns wrap.

Main fact:
* `drawString_eq`: a string is a sequence of characters, each inside the display.
-/

namespace JppDos
namespace Display

/-- `SSD1306_PAGES`. -/
def pages : Nat := 8

/-- `SSD1306_WIDTH`. -/
def width : Nat := 128

/-- `s_fb`: the strip at a page and a column. -/
abbrev Fb := Nat → Nat → UInt8

/-- `s_font`: the columns of the characters from 0x20 on. -/
abbrev Font := Vector (Vector UInt8 5) 95

/-- `glyph`. -/
def glyph (font : Font) (c : UInt8) : Vector UInt8 5 :=
  let idx := c.toUInt32 - 0x20
  if h : idx.toNat < 95 then font[idx.toNat] else Vector.replicate 5 0

/-- What is stored for a strip. -/
def strip (invert : Bool) (val : UInt8) : UInt8 := if invert then ~~~val else val

/-- `put_col`. -/
def putCol (fb : Fb) (page col val : UInt8) (invert : Bool) : Fb :=
  if pages ≤ page.toNat ∨ width ≤ col.toNat then fb
  else fun p c => if p = page.toNat ∧ c = col.toNat then strip invert val else fb p c

/-- A loop of `put_col` over neighbouring columns. -/
def putCols (page : UInt8) (invert : Bool) : Fb → UInt8 → List UInt8 → Fb
  | fb, _, [] => fb
  | fb, col, val :: vals => putCols page invert (putCol fb page col val invert) (col + 1) vals

/-- `ssd1306_draw_char`. -/
def drawChar (font : Font) (page : UInt8) (invert : Bool) (fb : Fb) (col c : UInt8) : Fb × UInt8 :=
  (putCols page invert fb col ((glyph font c).toList ++ [0]), col + 6)

/-- `ssd1306_draw_string`, on the characters in front of the terminating zero. -/
def drawString (font : Font) (page : UInt8) (invert : Bool) : Fb → UInt8 → List UInt8 → Fb × UInt8
  | fb, col, [] => (fb, col)
  | fb, col, c :: str =>
      if col.toNat + 6 ≤ width then
        let (fb, col) := drawChar font page invert fb col c
        drawString font page invert fb col str
      else (fb, col)

/-- The characters that `ssd1306_draw_string` draws, each with its column. -/
def stringCalls : UInt8 → List UInt8 → List (UInt8 × UInt8)
  | _, [] => []
  | col, c :: str => if col.toNat + 6 ≤ width then (col, c) :: stringCalls (col + 6) str else []

theorem toNat_add_six {col : UInt8} (h : col.toNat + 6 ≤ width) :
    (col + 6).toNat = col.toNat + 6 := by
  unfold width at h
  rw [UInt8.toNat_add]
  exact Nat.mod_eq_of_lt (show col.toNat + 6 < 256 by omega)

theorem drawString_eq (font : Font) (page : UInt8) (invert : Bool) (fb : Fb) (col : UInt8)
    (str : List UInt8) :
    drawString font page invert fb col str =
      ((stringCalls col str).foldl (fun fb call => (drawChar font page invert fb call.1 call.2).1) fb,
        col + 6 * UInt8.ofNat (stringCalls col str).length) := by
  induction str generalizing fb col with
  | nil => simp [drawString, stringCalls]
  | cons c str ih =>
      rw [drawString, stringCalls]
      split
      · rw [drawChar]
        dsimp only
        rw [ih, List.foldl_cons, List.length_cons]
        refine Prod.ext rfl ?_
        dsimp only
        rw [UInt8.ofNat_add, UInt8.mul_add, UInt8.add_assoc]
        congr 1
        rw [UInt8.add_comm]
        rfl
      · simp

theorem length_stringCalls (col : UInt8) (str : List UInt8) :
    (stringCalls col str).length = min str.length ((width - col.toNat) / 6) := by
  induction str generalizing col with
  | nil => rw [stringCalls, List.length_nil, List.length_nil, Nat.zero_min]
  | cons c str ih =>
      rw [stringCalls]
      split
      · rename_i h
        rw [List.length_cons, ih, toNat_add_six h, List.length_cons]
        omega
      · rename_i h
        rw [List.length_nil, List.length_cons]
        omega

/-- The characters that are drawn are the first ones of the string. -/
theorem map_stringCalls_prefix (col : UInt8) (str : List UInt8) :
    (stringCalls col str).map Prod.snd <+: str := by
  induction str generalizing col with
  | nil => exact List.prefix_rfl
  | cons c str ih =>
      rw [stringCalls]
      split
      · exact List.cons_prefix_cons.mpr ⟨rfl, ih (col + 6)⟩
      · exact List.nil_prefix

/-- Every character that is drawn lies inside the display. -/
theorem stringCalls_inside {col : UInt8} {str : List UInt8} {call : UInt8 × UInt8}
    (h : call ∈ stringCalls col str) : call.1.toNat + 6 ≤ width := by
  induction str generalizing col with
  | nil => exact absurd h List.not_mem_nil
  | cons c str ih =>
      rw [stringCalls] at h
      split at h
      · rename_i hfits
        rcases List.mem_cons.mp h with rfl | h
        · exact hfits
        · exact ih h
      · exact absurd h List.not_mem_nil

end Display
end JppDos
