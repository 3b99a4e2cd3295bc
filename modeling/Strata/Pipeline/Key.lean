import Strata.Color.Format

/-!
# Pipelines by key

A pipeline is asked for by names of a mode, a space and a source format. A library knows which keys
it can serve; what it serves is an artifact, whose program says what a dispatch computes.
-/

namespace Strata

/-- The mode `copy` loads the bottom layer. -/
structure PipelineKey where
  mode : String
  space : String
  format : String
deriving Repr, DecidableEq

/-- The mode of a pipeline that loads the bottom layer. -/
def copyMode : String := "copy"

/-- A copy evaluates no blend, so its key leaves the space out. -/
def PipelineKey.text (key : PipelineKey) : String :=
  if key.mode = copyMode then s!"{key.mode}/{key.format}" else s!"{key.mode}/{key.space}/{key.format}"

/-- Layout of source texels in memory. -/
inductive SourceKind
  /-- One word to a texel, four bytes in it. -/
  | packed
  /-- Four floats to a texel. -/
  | float
deriving Repr, DecidableEq

def SourceKind.name : SourceKind → String
  | packed => "packed"
  | float => "float"

def PixelFormat.sourceKind : PixelFormat → SourceKind
  | .srgb8 | .unorm8 => .packed
  | .float32 => .float

/-- Shape of the bindings a dispatch needs. -/
inductive BindingKind
  /-- Source, result and parameters. -/
  | copy
  /-- A backdrop as well. -/
  | blend
deriving Repr, DecidableEq

namespace BindingKind

def name : BindingKind → String
  | copy => "copy"
  | blend => "blend"

def entryCount : BindingKind → Nat
  | copy => 3
  | blend => 4

def layoutLabel (kind : BindingKind) : String := s!"Blend Bind Group Layout ({kind.name})"

end BindingKind

/-- What a dispatch of a pipeline computes. -/
inductive Program
  | copy (format : PixelFormat)
  | blend (mode : BlendMode) (space : ColorSpace) (format : PixelFormat)
deriving Repr, DecidableEq

/-! ## Constants of the shader -/

def BlendMode.code : BlendMode → Nat
  | .sourceOver => 0
  | .multiply => 1
  | .screen => 2
  | .overlay => 3
  | .hardLight => 4
  | .darken => 5
  | .lighten => 6
  | .difference => 7
  | .exclusion => 8

def ColorSpace.code : ColorSpace → Nat
  | .srgb => 0
  | .linear => 1

def PixelFormat.code : PixelFormat → Nat
  | .srgb8 => 0
  | .unorm8 => 1
  | .float32 => 2

namespace Program

def bindings : Program → BindingKind
  | copy _ => .copy
  | blend .. => .blend

def format : Program → PixelFormat
  | copy format => format
  | blend _ _ format => format

def entryPoint : Program → String
  | copy _ => "main_copy"
  | blend .. => "main_blend"

/-- Constants of the shader that the program overrides. -/
def constants : Program → List (String × Nat)
  | copy format => [("SOURCE_FORMAT", format.code)]
  | blend mode space format =>
    [("BLEND_MODE", mode.code), ("EVAL_SPACE", space.code), ("SOURCE_FORMAT", format.code)]

end Program

structure Artifact where
  label : String
  program : Program
deriving Repr, DecidableEq

namespace Artifact

def sourceKind (a : Artifact) : SourceKind := a.program.format.sourceKind

end Artifact

/-- The blend modes that pipelines exist for. Copies always do. -/
structure Library where
  modes : List BlendMode
deriving Repr, DecidableEq

namespace Library

def full : Library := ⟨BlendMode.all⟩

def resolve (library : Library) (key : PipelineKey) : Option Artifact := do
  let space ← ColorSpace.ofName? key.space
  let format ← PixelFormat.ofName? key.format
  let program ←
    if key.mode = copyMode then some (Program.copy format)
    else do
      let mode ← BlendMode.ofName? key.mode
      if mode ∈ library.modes then some (Program.blend mode space format) else none
  some ⟨s!"Blend {key.text}", program⟩

end Library

end Strata
