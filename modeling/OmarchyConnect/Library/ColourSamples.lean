/-
# Samples of a colour

A sample is an offset and a weighted sum of the channels of a pixel. Its value is
rational; a converter works in fixed point: each weight is the nearest multiple of a
fraction, and the sum is rounded to the nearest integer. The two differ by half a step and
by what the rounded weights make out together.

The luma is the mean of the channels under the shares of the primaries, and the chroma of
a channel is how far it is from the luma. `bt601` has the shares of the standard.
-/

import Mathlib.Algebra.BigOperators.Group.Finset.Basic
import Mathlib.Algebra.Order.Round
import Mathlib.Data.Rat.Floor
import Mathlib.Tactic

namespace OmarchyConnect.Library.ColourSamples

/-- An offset and a weight for each channel. -/
structure Sample (ι : Type) where
  offset : ℤ
  weight : ι → ℚ

namespace Sample

variable {ι : Type} [Fintype ι]

/-- The value of a sample. -/
def exact (sample : Sample ι) (channels : ι → ℤ) : ℚ :=
  sample.offset + ∑ i, sample.weight i * channels i

/-- A weight as a number of the steps of which `scale` make one. -/
def steps (sample : Sample ι) (scale : ℕ) (i : ι) : ℤ :=
  round (scale * sample.weight i)

/-- The sample in fixed point. -/
def fixed (sample : Sample ι) (scale : ℕ) (channels : ι → ℤ) : ℤ :=
  sample.offset + round ((∑ i, sample.steps scale i * channels i : ℤ) / scale : ℚ)

/-- What the rounded weights make out, in steps. -/
def drift (sample : Sample ι) (scale : ℕ) (channels : ι → ℤ) : ℚ :=
  ∑ i, (sample.steps scale i - scale * sample.weight i) * channels i

/-- The fixed point misses the value by half a step of the result and by the drift. -/
theorem abs_fixed_sub_exact_le (sample : Sample ι) {scale : ℕ} (hscale : 0 < scale)
    (channels : ι → ℤ) :
    |(sample.fixed scale channels : ℚ) - sample.exact channels| ≤
      1 / 2 + |sample.drift scale channels| / scale := by
  have hpos : (0 : ℚ) < scale := by exact_mod_cast hscale
  have hsum : ((∑ i, sample.steps scale i * channels i : ℤ) : ℚ) / scale =
      ∑ i, sample.weight i * channels i + sample.drift scale channels / scale := by
    rw [drift, eq_comm, ← mul_left_inj' hpos.ne', add_mul, div_mul_cancel₀ _ hpos.ne',
      div_mul_cancel₀ _ hpos.ne', Finset.sum_mul, ← Finset.sum_add_distrib]
    push_cast
    exact Finset.sum_congr rfl fun i _ => by ring
  have hround := abs_sub_round (((∑ i, sample.steps scale i * channels i : ℤ) : ℚ) / scale)
  rw [abs_sub_comm] at hround
  have hsplit : (sample.fixed scale channels : ℚ) - sample.exact channels =
      (round (((∑ i, sample.steps scale i * channels i : ℤ) : ℚ) / scale) -
        ((∑ i, sample.steps scale i * channels i : ℤ) : ℚ) / scale) +
      sample.drift scale channels / scale := by
    rw [hsum, fixed, exact, hsum]
    push_cast
    ring
  calc |(sample.fixed scale channels : ℚ) - sample.exact channels|
      ≤ 1 / 2 + |sample.drift scale channels / scale| := by
        rw [hsplit]
        exact (abs_add_le _ _).trans (add_le_add_left hround _)
    _ = 1 / 2 + |sample.drift scale channels| / scale := by
        rw [abs_div, abs_of_pos hpos]

/-- Where the drift is less than half a step the fixed point is less than one off. -/
theorem abs_fixed_sub_exact_lt_one (sample : Sample ι) {scale : ℕ} (hscale : 0 < scale)
    {channels : ι → ℤ} (hdrift : 2 * |sample.drift scale channels| < scale) :
    |(sample.fixed scale channels : ℚ) - sample.exact channels| < 1 := by
  have hpos : (0 : ℚ) < scale := by exact_mod_cast hscale
  have hhalf : |sample.drift scale channels| / scale < 1 / 2 := by
    rw [div_lt_iff₀ hpos]
    linarith
  have hle := sample.abs_fixed_sub_exact_le hscale channels
  linarith

end Sample

/-- Dividing by an even number after half of it was added rounds to the nearest. -/
theorem round_div_two_mul (n : ℤ) {half : ℕ} (hhalf : 0 < half) :
    round ((n : ℚ) / (2 * half : ℕ)) = (n + half) / (2 * half : ℕ) := by
  have hpos : (half : ℚ) ≠ 0 := by exact_mod_cast hhalf.ne'
  have hshift : (n : ℚ) / (2 * half : ℕ) + 1 / 2 = ((n + half : ℤ) : ℚ) / (2 * half : ℕ) := by
    push_cast
    field_simp
  rw [round_eq, hshift, Rat.floor_intCast_div_natCast]

/-! ## Luma and chroma -/

/-- The channels of a pixel. -/
inductive Channel
  | red
  | green
  | blue
  deriving DecidableEq

instance : Fintype Channel where
  elems := {.red, .green, .blue}
  complete channel := by cases channel <;> decide

namespace Channel

/-- One value for each channel. -/
def pick {α : Type} (red green blue : α) : Channel → α
  | .red => red
  | .green => green
  | .blue => blue

/-- The weights of the channel alone. -/
def unit : Channel → Channel → ℚ
  | .red => pick 1 0 0
  | .green => pick 0 1 0
  | .blue => pick 0 0 1

section Pick

variable {α : Type} (r g b : α)

@[simp]
theorem pick_red : pick r g b .red = r := rfl

@[simp]
theorem pick_green : pick r g b .green = g := rfl

@[simp]
theorem pick_blue : pick r g b .blue = b := rfl

end Pick

/-- A sum over the channels. -/
theorem sum_eq {α : Type} [AddCommMonoid α] (f : Channel → α) :
    ∑ channel, f channel = f .red + (f .green + f .blue) :=
  calc ∑ channel, f channel = ∑ channel ∈ {.red, .green, .blue}, f channel := rfl
    _ = f .red + (f .green + f .blue) := by
      rw [Finset.sum_insert (by decide), Finset.sum_pair (by decide)]

end Channel

/-- The shares of red and of blue in the luma. The rest is green. -/
structure Primaries where
  red : ℚ
  blue : ℚ

namespace Primaries

/-- The share of each channel in the luma. -/
def shares (primaries : Primaries) : Channel → ℚ :=
  Channel.pick primaries.red (1 - primaries.red - primaries.blue) primaries.blue

/-- The luma of 8-bit channels in limited range, from 16 for black to 235 for white. -/
def luma (primaries : Primaries) : Sample Channel where
  offset := 16
  weight c := 219 / 255 * primaries.shares c

/-- How far a channel is from the luma, in limited range: 112 to either side of 128. -/
def chroma (primaries : Primaries) (channel : Channel) : Sample Channel where
  offset := 128
  weight c := 112 / 255 *
    ((channel.unit c - primaries.shares c) / (1 - primaries.shares channel))

end Primaries

/-- The primaries of BT.601. -/
def bt601 : Primaries where
  red := 299 / 1000
  blue := 114 / 1000

/-- The weights of the luma in steps of a 256th. -/
theorem bt601_luma_steps : bt601.luma.steps 256 = Channel.pick 66 129 25 := by
  funext channel
  rw [Sample.steps, round_eq, Int.floor_eq_iff]
  cases channel <;> norm_num [Primaries.luma, Primaries.shares, bt601]

/-- The weights of the blue chroma. -/
theorem bt601_blue_steps : (bt601.chroma .blue).steps 256 = Channel.pick (-38) (-74) 112 := by
  funext channel
  rw [Sample.steps, round_eq, Int.floor_eq_iff]
  cases channel <;> norm_num [Primaries.chroma, Primaries.shares, bt601, Channel.unit]

/-- The weights of the red chroma. -/
theorem bt601_red_steps : (bt601.chroma .red).steps 256 = Channel.pick 112 (-94) (-18) := by
  funext channel
  rw [Sample.steps, round_eq, Int.floor_eq_iff]
  cases channel <;> norm_num [Primaries.chroma, Primaries.shares, bt601, Channel.unit]

/-! ## How far the fixed point is off -/

/-- The channels of a pixel are bytes. -/
def EightBit (channels : Channel → ℤ) : Prop :=
  ∀ channel, 0 ≤ channels channel ∧ channels channel ≤ 255

section Near

variable {channels : Channel → ℤ}

/-- The channels are in the range of a byte. -/
theorem EightBit.cast (h : EightBit channels) (channel : Channel) :
    (0 : ℚ) ≤ channels channel ∧ (channels channel : ℚ) ≤ 255 :=
  ⟨by exact_mod_cast (h channel).1, by exact_mod_cast (h channel).2⟩

/-- The luma in steps of a 256th is less than one off. -/
theorem bt601_luma_near (h : EightBit channels) :
    |(bt601.luma.fixed 256 channels : ℚ) - bt601.luma.exact channels| < 1 := by
  apply Sample.abs_fixed_sub_exact_lt_one _ (by decide)
  have hred := h.cast .red
  have hgreen := h.cast .green
  have hblue := h.cast .blue
  rw [← abs_two, ← abs_mul, abs_lt, Sample.drift, bt601_luma_steps, Channel.sum_eq]
  norm_num [Primaries.luma, Primaries.shares, bt601]
  constructor <;> linarith

/-- The rounded weights of the blue chroma cancel each other for greys. -/
theorem bt601_blue_near (h : EightBit channels) :
    |((bt601.chroma .blue).fixed 256 channels : ℚ) - (bt601.chroma .blue).exact channels| <
      1 := by
  apply Sample.abs_fixed_sub_exact_lt_one _ (by decide)
  have hred := h.cast .red
  have hgreen := h.cast .green
  have hblue := h.cast .blue
  rw [← abs_two, ← abs_mul, abs_lt, Sample.drift, bt601_blue_steps, Channel.sum_eq]
  norm_num [Primaries.chroma, Primaries.shares, bt601, Channel.unit]
  constructor <;> linarith

/-- So do those of the red chroma. -/
theorem bt601_red_near (h : EightBit channels) :
    |((bt601.chroma .red).fixed 256 channels : ℚ) - (bt601.chroma .red).exact channels| < 1 := by
  apply Sample.abs_fixed_sub_exact_lt_one _ (by decide)
  have hred := h.cast .red
  have hgreen := h.cast .green
  have hblue := h.cast .blue
  rw [← abs_two, ← abs_mul, abs_lt, Sample.drift, bt601_red_steps, Channel.sum_eq]
  norm_num [Primaries.chroma, Primaries.shares, bt601, Channel.unit]
  constructor <;> linarith

end Near

end OmarchyConnect.Library.ColourSamples
