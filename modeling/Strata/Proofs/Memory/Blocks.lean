import Strata.Device.Kernel

/-!
# Reading what was written

What a block reads back as after a word, a pixel or a run of bytes was written into it. Words that were
never written are zero, so no lemma asks how many words a block has room for: only whether an index
lies inside its bytes.
-/

namespace Strata

variable {α : Type}

/-! ## Words -/

namespace Block

theorem word_eq_zero {block : Block α} {i : Nat} (h : block.words.size ≤ i) : block.word i = .bits 0 := by
  simp [word, Array.getD_eq_getD_getElem?, Array.getElem?_eq_none h]

@[simp] theorem size_setWord (block : Block α) (i : Nat) (w : Word α) : (block.setWord i w).size = block.size := rfl

theorem word_setWord (block : Block α) (i j : Nat) (w : Word α) :
    (block.setWord i w).word j = if j = i then w else block.word j := by
  unfold setWord word
  simp only [Array.getD_eq_getD_getElem?]
  by_cases h : j = i
  · subst h
    rw [if_pos rfl, Array.getElem?_setIfInBounds_self_of_lt (by simp; omega)]
    rfl
  · rw [if_neg h, Array.getElem?_setIfInBounds_ne (Ne.symm h), Array.getElem?_append]
    by_cases hj : j < block.words.size
    · rw [if_pos hj]
    · rw [if_neg hj, Array.getElem?_eq_none (Nat.le_of_not_lt hj), Array.getElem?_replicate]
      split <;> rfl

theorem covers_of_le {block : Block α} {i j : Nat} (h : block.covers j = true) (hij : i ≤ j) :
    block.covers i = true := by
  simp only [covers, decide_eq_true_eq] at h ⊢
  omega

end Block

/-! ## Channels and pixels -/

def Pixel.channel (p : Pixel α) (k : Nat) : α :=
  match k with
  | 0 => p.r
  | 1 => p.g
  | 2 => p.b
  | _ => p.a

section
variable [Stored α]

def Pixel.stored (p : Pixel α) : Pixel α :=
  ⟨Stored.round p.r, Stored.round p.g, Stored.round p.b, Stored.round p.a⟩

namespace Block

@[simp] theorem size_setChannel (block : Block α) (i : Nat) (x : α) : (block.setChannel i x).size = block.size :=
  rfl

@[simp] theorem size_setPixel (block : Block α) (n : Nat) (p : Pixel α) :
    (block.setPixel n p).size = block.size := by
  unfold setPixel
  rw [size_setChannel, size_setChannel, size_setChannel, size_setChannel]

theorem covers_setChannel (block : Block α) (i j : Nat) (x : α) :
    (block.setChannel i x).covers j = block.covers j := rfl

variable [Channel α]

theorem channelAt_setChannel_of_ne (block : Block α) {i j : Nat} (h : j ≠ i) (x : α) :
    (block.setChannel i x).channelAt j = block.channelAt j := by
  unfold channelAt setChannel
  rw [word_setWord, if_neg h]
  rfl

theorem channelAt_setChannel_self (block : Block α) {i : Nat} (h : block.covers i = true) (x : α) :
    (block.setChannel i x).channelAt i = Stored.round x := by
  unfold channelAt setChannel
  have hc : (block.setWord i (.channel (Stored.round x))).covers i = true := h
  rw [if_pos hc, word_setWord, if_pos rfl]
  rfl

theorem pixelAt_setPixel_of_ne (block : Block α) {n m : Nat} (h : m ≠ n) (p : Pixel α) :
    (block.setPixel n p).pixelAt m = block.pixelAt m := by
  have other {k : Nat} (hk : 4 * m ≤ k ∧ k ≤ 4 * m + 3) : (block.setPixel n p).channelAt k = block.channelAt k := by
    unfold setPixel
    rw [channelAt_setChannel_of_ne _ (by omega), channelAt_setChannel_of_ne _ (by omega),
      channelAt_setChannel_of_ne _ (by omega), channelAt_setChannel_of_ne _ (by omega)]
  unfold pixelAt
  rw [other (by omega), other (by omega), other (by omega), other (by omega)]

theorem pixelAt_setPixel_self (block : Block α) {n : Nat} (hn : block.covers (4 * n + 3) = true) (p : Pixel α) :
    (block.setPixel n p).pixelAt n = p.stored := by
  have h₀ : block.covers (4 * n) = true := covers_of_le hn (by omega)
  have h₁ : block.covers (4 * n + 1) = true := covers_of_le hn (by omega)
  have h₂ : block.covers (4 * n + 2) = true := covers_of_le hn (by omega)
  unfold pixelAt setPixel Pixel.stored
  rw [Pixel.mk.injEq]
  refine ⟨?_, ?_, ?_, ?_⟩
  · rw [channelAt_setChannel_of_ne _ (by omega), channelAt_setChannel_of_ne _ (by omega),
      channelAt_setChannel_of_ne _ (by omega), channelAt_setChannel_self _ h₀]
  · rw [channelAt_setChannel_of_ne _ (by omega), channelAt_setChannel_of_ne _ (by omega),
      channelAt_setChannel_self _ (by simpa only [covers_setChannel] using h₁)]
  · rw [channelAt_setChannel_of_ne _ (by omega),
      channelAt_setChannel_self _ (by simpa only [covers_setChannel] using h₂)]
  · rw [channelAt_setChannel_self _ (by simpa only [covers_setChannel] using hn)]

end Block

end

/-! ## Runs of bytes -/

namespace Block

variable [Stored α]

@[simp] theorem size_overwrite (block source : Block α) (count : Nat) :
    (block.overwrite source count).size = block.size := rfl

theorem splice_zero (first rest : Word α) : Word.splice first rest 0 = rest := rfl

theorem splice_of_le (first rest : Word α) {count : Nat} (h : 4 ≤ count) :
    Word.splice first rest count = first := by
  unfold Word.splice
  rw [if_neg (by omega), if_pos h]

theorem splice_bits_zero (count : Nat) : Word.splice (.bits 0 : Word α) (.bits 0) count = .bits 0 := by
  unfold Word.splice
  split
  · rfl
  · split
    · rfl
    · simp [Word.toBits]

theorem word_overwrite (block source : Block α) (count i : Nat) :
    (block.overwrite source count).word i = (source.word i).splice (block.word i) (count - 4 * i) := by
  by_cases hi : i < max block.words.size (min ((count + 3) / 4) source.words.size)
  · unfold overwrite
    simp [word, Array.getD_eq_getD_getElem?, hi]
  · have hb : block.word i = .bits 0 := word_eq_zero (by omega)
    have hsize : (block.overwrite source count).words.size ≤ i := by
      simpa [overwrite] using Nat.le_of_not_lt hi
    rw [word_eq_zero hsize, hb]
    by_cases hs : source.words.size ≤ i
    · rw [word_eq_zero hs, splice_bits_zero]
    · have hc : count - 4 * i = 0 := by omega
      rw [hc, splice_zero]

theorem word_overwrite_of_le (block source : Block α) {count i : Nat} (h : 4 * i + 4 ≤ count) :
    (block.overwrite source count).word i = source.word i := by
  rw [word_overwrite, splice_of_le _ _ (by omega)]

theorem channelAt_overwrite [Channel α] {block source : Block α} {count i : Nat} (h : 4 * i + 4 ≤ count)
    (hb : count ≤ block.size) (hs : count ≤ source.size) :
    (block.overwrite source count).channelAt i = source.channelAt i := by
  unfold channelAt
  rw [word_overwrite_of_le block source h]
  have hb' : (block.overwrite source count).covers i = true := by
    have hle : 4 * i + 4 ≤ block.size := Nat.le_trans h hb
    exact decide_eq_true hle
  have hs' : source.covers i = true := decide_eq_true (Nat.le_trans h hs)
  rw [hb', hs']

theorem byteAt_overwrite {block source : Block α} {count i : Nat} (h : 4 * (i / 4) + 4 ≤ count)
    (hb : count ≤ block.size) (hs : count ≤ source.size) :
    (block.overwrite source count).byteAt i = source.byteAt i := by
  unfold byteAt
  rw [word_overwrite_of_le block source h, size_overwrite, if_pos (by omega), if_pos (by omega)]

/-! ## Blocks of given data -/

omit [Stored α] in
@[simp] theorem size_ofWords (words : Array (Word α)) : (ofWords words).size = 4 * words.size := rfl

omit [Stored α] in
@[simp] theorem size_ofChannels (values : Array α) : (ofChannels values).size = 4 * values.size := by
  simp [ofChannels]

omit [Stored α] in
@[simp] theorem size_ofBytes (bytes : Array UInt8) : (ofBytes bytes : Block α).size = bytes.size := rfl

theorem channelAt_ofChannels [Channel α] (values : Array α) (i : Nat) :
    (ofChannels values).channelAt i = values.getD i 0 := by
  unfold channelAt
  by_cases h : i < values.size
  · have hc : (ofChannels values).covers i = true := by
      simp only [covers, size_ofChannels, decide_eq_true_eq]; omega
    rw [if_pos hc]
    simp [ofChannels, ofWords, word, Array.getD_eq_getD_getElem?, h, Word.toChannel]
  · have hc : (ofChannels values).covers i = false := by
      simp only [covers, size_ofChannels, decide_eq_false_iff_not]; omega
    rw [hc]
    simp [Array.getD_eq_getD_getElem?, h]

/-- Four bytes in one word, least significant first. -/
theorem byte_bits (a b c d : UInt8) {k : Nat} (hk : k < 4) :
    (Word.bits (a.toUInt32 ||| b.toUInt32 <<< 8 ||| c.toUInt32 <<< 16 ||| d.toUInt32 <<< 24) : Word α).byte k =
      [a, b, c, d].getD k 0 := by
  unfold Word.byte Word.toBits
  apply UInt8.toBitVec_inj.mp
  ext i hi
  have hbit : i = 0 ∨ i = 1 ∨ i = 2 ∨ i = 3 ∨ i = 4 ∨ i = 5 ∨ i = 6 ∨ i = 7 := by omega
  have hbyte : k = 0 ∨ k = 1 ∨ k = 2 ∨ k = 3 := by omega
  rcases hbyte with rfl | rfl | rfl | rfl
  all_goals rcases hbit with rfl | rfl | rfl | rfl | rfl | rfl | rfl | rfl <;> simp

theorem byteAt_ofBytes (bytes : Array UInt8) (i : Nat) : (ofBytes bytes : Block α).byteAt i = bytes.getD i 0 := by
  unfold byteAt
  by_cases h : i < bytes.size
  · have hw : i / 4 < (bytes.size + 3) / 4 := by omega
    have hword : (ofBytes bytes : Block α).word (i / 4) = .bits ((bytes.getD (4 * (i / 4)) 0).toUInt32 |||
        (bytes.getD (4 * (i / 4) + 1) 0).toUInt32 <<< 8 ||| (bytes.getD (4 * (i / 4) + 2) 0).toUInt32 <<< 16 |||
        (bytes.getD (4 * (i / 4) + 3) 0).toUInt32 <<< 24) := by
      simp only [ofBytes, word, Array.getD_eq_getD_getElem?]
      rw [Array.getElem?_eq_getElem (by simpa using hw)]
      simp
    rw [size_ofBytes, if_pos h, hword, byte_bits _ _ _ _ (Nat.mod_lt _ (by decide))]
    have hi : i = 4 * (i / 4) + i % 4 := by omega
    have hk : i % 4 = 0 ∨ i % 4 = 1 ∨ i % 4 = 2 ∨ i % 4 = 3 := by omega
    rcases hk with hk | hk | hk | hk <;> rw [hk] at hi ⊢ <;>
      simp only [List.getD_cons_zero, List.getD_cons_succ] <;>
      exact congrArg (bytes.getD · 0) hi.symm
  · rw [size_ofBytes, if_neg h]
    simp [Array.getD_eq_getD_getElem?, h]

end Block

end Strata
