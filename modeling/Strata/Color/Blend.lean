import Strata.Color.Transfer

/-!
# Blending

A blend formula mixes one channel of a backdrop and a source; `Pixel.blend` composites a source
pixel over a backdrop with it, straight alpha, and `Pixel.load` starts a stack.
-/

namespace Strata

/-- Colour in linear light, straight alpha. -/
structure Pixel (α : Type) where
  r : α
  g : α
  b : α
  a : α
deriving Repr, DecidableEq

def Pixel.channels {α : Type} (p : Pixel α) : List α := [p.r, p.g, p.b, p.a]

variable {α : Type} [Channel α]

namespace Blend

def multiply (backdrop source : α) : α := backdrop * source

def screen (backdrop source : α) : α := backdrop + source - backdrop * source

/-- Multiply by a dark source, screen by a light one. -/
def hardLight (backdrop source : α) : α :=
  let two : α := Channel.ofNat 2
  if source ≤ 1 / two then multiply backdrop (two * source) else screen backdrop (two * source - 1)

end Blend

/-- The blend formula of a mode on one channel. -/
def BlendMode.channel (mode : BlendMode) (backdrop source : α) : α :=
  match mode with
  | .sourceOver => source
  | .multiply => Blend.multiply backdrop source
  | .screen => Blend.screen backdrop source
  | .overlay => Blend.hardLight source backdrop
  | .hardLight => Blend.hardLight backdrop source
  | .darken => Channel.lesser backdrop source
  | .lighten => Channel.greater backdrop source
  | .difference => Channel.magnitude (backdrop - source)
  | .exclusion => backdrop + source - Channel.ofNat 2 * backdrop * source

namespace Pixel

variable [Transfer α]

def effectiveAlpha (alpha opacity : α) : α := clampUnit alpha * clampUnit opacity

def overAlpha (backdrop source : α) : α := source + backdrop * (1 - source)

/-- One composited channel in the space of evaluation: where the backdrop is present the formula
mixes, and the result is weighted by both alphas. -/
def compositeChannel (mode : BlendMode) (backdropAlpha sourceAlpha backdrop source : α) : α :=
  let alpha := overAlpha backdropAlpha sourceAlpha
  let mixed := (1 - backdropAlpha) * source + backdropAlpha * mode.channel backdrop source
  if 0 < alpha then (sourceAlpha * mixed + backdropAlpha * backdrop * (1 - sourceAlpha)) / alpha else 0

/-- Composite a source over a backdrop. Colour passes through the space of evaluation, alpha stays
linear, and the opacity scales the source's alpha. -/
def blend (mode : BlendMode) (space : ColorSpace) (opacity : α) (backdrop source : Pixel α) : Pixel α :=
  let backdropAlpha := clampUnit backdrop.a
  let sourceAlpha := effectiveAlpha source.a opacity
  let channel (b s : α) : α :=
    space.toLinear (compositeChannel mode backdropAlpha sourceAlpha (space.fromLinear b) (space.fromLinear s))
  { r := channel backdrop.r source.r
    g := channel backdrop.g source.g
    b := channel backdrop.b source.b
    a := overAlpha backdropAlpha sourceAlpha }

omit [Transfer α] in
/-- The bottom of a stack: colour is kept, also where the pixel is transparent. -/
def load (opacity : α) (source : Pixel α) : Pixel α :=
  { r := clampUnit source.r
    g := clampUnit source.g
    b := clampUnit source.b
    a := effectiveAlpha source.a opacity }

end Pixel

end Strata
