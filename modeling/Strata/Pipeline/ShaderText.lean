import Strata.Pipeline.Key

/-!
# Shader text

The program text handed to the device, one for each layout of source texels. Mode, space and source
format are constants that a pipeline overrides, so all pipelines of a layout share one text.
-/

namespace Strata.Shader

/-- Parameters, curve, formulas and compositing. -/
def sharedLines : List String :=
  [
    "override BLEND_MODE: u32 = 0u;",
    "override EVAL_SPACE: u32 = 0u;",
    "override SOURCE_FORMAT: u32 = 0u;",
    "",
    "struct Params \x7b",
    "    width: u32,",
    "    height: u32,",
    "    opacity: f32,",
    "    _padding: f32,",
    "    // Canvas region covered by the source layer",
    "    origin_x: u32,",
    "    origin_y: u32,",
    "    source_width: u32,",
    "    source_height: u32,",
    "\x7d",
    "",
    "@group(0) @binding(2) var<storage, read_write> result: array<vec4<f32>>;",
    "@group(0) @binding(3) var<uniform> params: Params;",
    "",
    "fn srgb_to_linear(c: f32) -> f32 \x7b",
    "    let v = clamp(c, 0.0, 1.0);",
    "    if (v <= 0.04045) \x7b",
    "        return v / 12.92;",
    "    \x7d",
    "    return pow((v + 0.055) / 1.055, 2.4);",
    "\x7d",
    "",
    "fn linear_to_srgb(l: f32) -> f32 \x7b",
    "    let v = clamp(l, 0.0, 1.0);",
    "    if (v <= 0.0031308) \x7b",
    "        return v * 12.92;",
    "    \x7d",
    "    return 1.055 * pow(v, 1.0 / 2.4) - 0.055;",
    "\x7d",
    "",
    "fn to_working(rgb: vec3<f32>) -> vec3<f32> \x7b",
    "    if (EVAL_SPACE == 0u) \x7b",
    "        return vec3<f32>(linear_to_srgb(rgb.r), linear_to_srgb(rgb.g), linear_to_srgb(rgb.b));",
    "    \x7d",
    "    return clamp(rgb, vec3<f32>(0.0), vec3<f32>(1.0));",
    "\x7d",
    "",
    "fn from_working(rgb: vec3<f32>) -> vec3<f32> \x7b",
    "    if (EVAL_SPACE == 0u) \x7b",
    "        return vec3<f32>(srgb_to_linear(rgb.r), srgb_to_linear(rgb.g), srgb_to_linear(rgb.b));",
    "    \x7d",
    "    return clamp(rgb, vec3<f32>(0.0), vec3<f32>(1.0));",
    "\x7d",
    "",
    "fn screen(cb: vec3<f32>, cs: vec3<f32>) -> vec3<f32> \x7b",
    "    return cb + cs - cb * cs;",
    "\x7d",
    "",
    "fn hard_light(cb: vec3<f32>, cs: vec3<f32>) -> vec3<f32> \x7b",
    "    let low = cb * (2.0 * cs);",
    "    let high = screen(cb, 2.0 * cs - vec3<f32>(1.0));",
    "    return select(high, low, cs <= vec3<f32>(0.5));",
    "\x7d",
    "",
    "// Separable blend function B(Cb, Cs)",
    "fn blend_fn(cb: vec3<f32>, cs: vec3<f32>) -> vec3<f32> \x7b",
    "    switch BLEND_MODE \x7b",
    "        case 1u: \x7b return cb * cs; \x7d",
    "        case 2u: \x7b return screen(cb, cs); \x7d",
    "        case 3u: \x7b return hard_light(cs, cb); \x7d",
    "        case 4u: \x7b return hard_light(cb, cs); \x7d",
    "        case 5u: \x7b return min(cb, cs); \x7d",
    "        case 6u: \x7b return max(cb, cs); \x7d",
    "        case 7u: \x7b return abs(cb - cs); \x7d",
    "        case 8u: \x7b return cb + cs - 2.0 * cb * cs; \x7d",
    "        default: \x7b return cs; \x7d",
    "    \x7d",
    "\x7d",
    "",
    "// Source-over compositing with straight alpha",
    "fn composite(backdrop: vec4<f32>, src: vec4<f32>) -> vec4<f32> \x7b",
    "    let alpha_b = clamp(backdrop.a, 0.0, 1.0);",
    "    let alpha_s = clamp(src.a, 0.0, 1.0) * clamp(params.opacity, 0.0, 1.0);",
    "    let alpha_o = alpha_s + alpha_b * (1.0 - alpha_s);",
    "",
    "    let cb = to_working(backdrop.rgb);",
    "    let cs = to_working(src.rgb);",
    "    let mixed = (1.0 - alpha_b) * cs + alpha_b * blend_fn(cb, cs);",
    "",
    "    var co = vec3<f32>(0.0);",
    "    if (alpha_o > 0.0) \x7b",
    "        co = (alpha_s * mixed + alpha_b * cb * (1.0 - alpha_s)) / alpha_o;",
    "    \x7d",
    "    return vec4<f32>(from_working(co), alpha_o);",
    "\x7d"]

/-- A source of one word to a texel, four bytes in it. -/
def packedLines : List String :=
  [
    "@group(0) @binding(1) var<storage, read> source: array<u32>;",
    "",
    "fn load_source(index: u32) -> vec4<f32> \x7b",
    "    let texel = unpack4x8unorm(source[index]);",
    "    if (SOURCE_FORMAT == 0u) \x7b",
    "        return vec4<f32>(srgb_to_linear(texel.r), srgb_to_linear(texel.g), srgb_to_linear(texel.b), texel.a);",
    "    \x7d",
    "    return texel;",
    "\x7d"]

/-- A source of four floats to a texel. -/
def floatLines : List String :=
  [
    "@group(0) @binding(1) var<storage, read> source: array<vec4<f32>>;",
    "",
    "fn load_source(index: u32) -> vec4<f32> \x7b",
    "    return clamp(source[index], vec4<f32>(0.0), vec4<f32>(1.0));",
    "\x7d"]

/-- Fold a layer onto a backdrop; load the bottom layer. -/
def entryLines : List String :=
  [
    "@group(0) @binding(0) var<storage, read> backdrop: array<vec4<f32>>;",
    "",
    "// Fold one layer onto the accumulated backdrop",
    "@compute @workgroup_size(16, 16)",
    "fn main_blend(@builtin(global_invocation_id) global_id: vec3<u32>) \x7b",
    "    if (global_id.x >= params.width || global_id.y >= params.height) \x7b",
    "        return;",
    "    \x7d",
    "    let index = global_id.y * params.width + global_id.x;",
    "    let below = backdrop[index];",
    "",
    "    // Outside the placed layer the backdrop passes through",
    "    if (global_id.x < params.origin_x || global_id.y < params.origin_y) \x7b",
    "        result[index] = below;",
    "        return;",
    "    \x7d",
    "    let local = global_id.xy - vec2<u32>(params.origin_x, params.origin_y);",
    "    if (local.x >= params.source_width || local.y >= params.source_height) \x7b",
    "        result[index] = below;",
    "        return;",
    "    \x7d",
    "    result[index] = composite(below, load_source(local.y * params.source_width + local.x));",
    "\x7d",
    "",
    "// Load the base layer into linear float working storage",
    "@compute @workgroup_size(16, 16)",
    "fn main_copy(@builtin(global_invocation_id) global_id: vec3<u32>) \x7b",
    "    if (global_id.x >= params.width || global_id.y >= params.height) \x7b",
    "        return;",
    "    \x7d",
    "    let index = global_id.y * params.width + global_id.x;",
    "    let texel = load_source(index);",
    "    result[index] = vec4<f32>(texel.rgb, texel.a * clamp(params.opacity, 0.0, 1.0));",
    "\x7d"]

/-- A section starts and ends with a line break. -/
def block (lines : List String) : String := "\n" ++ "\n".intercalate lines ++ "\n"

def source (kind : SourceKind) : String :=
  let layout := match kind with
    | .packed => packedLines
    | .float => floatLines
  "\n".intercalate [block sharedLines, block layout, block entryLines]

end Strata.Shader
