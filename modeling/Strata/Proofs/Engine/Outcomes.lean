import Strata.Proofs.Color.Bits
import Strata.Proofs.Engine.Alone
import Strata.Proofs.Engine.Tokens

/-!
# What composite calls come to

A call that is alone in a calm session answers the raster of its layers, if they fit, and refuses them otherwise
(`composite_alone`). The host does the same (`composite_agrees`). Other calls, whatever becomes of them, and
whatever the buffers of the pool held before, make no difference to the raster that a call answers
(`composites_undisturbed`).
-/

namespace Strata.Engine

variable {α : Type} [Channel α] [Stored α] [Transfer α] {G : Ledger α} {e : Engine Int α} {layers options : Value α}
  {os : CompositeOptions} {o : Order α}

theorem Well.answered (hw : e.Well G) {job : JobId} (ho : G job = some o) {r : Raster Int α}
    (h : (job, .ok (.raster r)) ∈ e.settled) : o.Fits ∧ r = o.raster := by
  obtain ⟨o', ho', hfits, hr⟩ : e.Holds G (.yields job r) :=
    hw.holds _ (List.mem_append_right _ (List.mem_flatMap.mpr ⟨_, h, List.mem_singleton_self _⟩))
  rw [ho] at ho'
  cases ho'
  exact ⟨hfits, hr⟩

omit [Stored α] [Transfer α] in
theorem Opened.blank (h : e.Opened) : e.Blank := by
  obtain ⟨device, options, config, rfl⟩ := h.eq
  refine ⟨.start _ device, fun i b hb => ?_, rfl, rfl, rfl, rfl, rfl, rfl, rfl, rfl, ?_, rfl⟩
  · cases hb
  · show Completion.ofPlatform _ = Completion.ofPlatform (Completion.ofPlatform options.platform).platform
    cases options.platform <;> rfl

/-! ## Alone -/

omit [Stored α] [Transfer α] in
theorem orderOf?_parsed (hlayers : parseLayers layers = .ok o.layers) (hoptions : parseOptions options = .ok os)
    (hformat : os.outputFormat = o.outputFormat) : orderOf? layers options = some o := by
  unfold orderOf?
  rw [hlayers, hoptions]
  show some (Order.mk o.base o.above os.outputFormat) = some o
  rw [hformat]

theorem composite_entered [Channel.Ordered α] (hw : e.Well G) (hsupervised : e.supervised = true)
    (hlayers : parseLayers layers = .ok o.layers) (hoptions : parseOptions options = .ok os)
    (hformat : os.outputFormat = o.outputFormat) (harrays : ∀ l ∈ o.layers, l.raster.texels.size ≤ longestArray) :
    ∃ G', (e.apply (.composite layers options false)).2.Well G' ∧ G' e.jobs.size = some o := by
  have hentered := startComposite_well hw layers options false
    ((Move.fair_composite hlayers harrays options false).2 _ _ _ rfl)
  refine ⟨G.enter e.jobs.size (orderOf? layers options), ?_,
    (if_pos rfl).trans (orderOf?_parsed hlayers hoptions hformat)⟩
  unfold apply
  rw [hsupervised]
  exact hentered

theorem composite_starts (hsupervised : e.supervised = true) (hlayers : parseLayers layers = .ok o.layers)
    (hoptions : parseOptions options = .ok os) (hformat : os.outputFormat = o.outputFormat)
    (habort : e.abortReason? os.signal = none) :
    ∃ c : CompositeCall Int α, c.layers = o.layers ∧ c.outputFormat = o.outputFormat ∧ c.verifies = false ∧
      c.signal = os.signal ∧
      (e.apply (.composite layers options false)).2 = (e.addJob .lookup).2.startAttempt e.jobs.size c := by
  refine ⟨⟨o.layers, o.outputFormat, os.signal, false, 0, [], .ended⟩, rfl, rfl, rfl, rfl, ?_⟩
  unfold apply
  rw [hsupervised]
  show (e.startComposite layers options false).2 = _
  unfold startComposite
  rw [hlayers, hoptions]
  dsimp only
  rw [show (e.addJob .lookup).2.abortReason? os.signal = none from habort, hformat]
  rfl

theorem composite_alone [Channel.Ordered α] (hw : e.Well G) (hsupervised : e.supervised = true) (hcalm : e.Calm)
    (hidle : e.Idle) (hlayers : parseLayers layers = .ok o.layers) (hoptions : parseOptions options = .ok os)
    (hformat : os.outputFormat = o.outputFormat) (harrays : ∀ l ∈ o.layers, l.raster.texels.size ≤ longestArray)
    (habort : e.abortReason? os.signal = none) (hadmits : e.Admits o) :
    ∃ e' result, (e.apply (.composite layers options false)).2.Comes e' ∧ e'.turns = [] ∧
      e'.settled = e.settled ++ [(e.jobs.size, result)] ∧ (o.Fits → result = .ok (.raster o.raster)) ∧
      (¬ o.Fits → ∃ failure : Failure, result = .error failure ∧ failure.code? = some .incompatibleFormats) := by
  have hadded := enter_well hw layers options ((Move.fair_composite hlayers harrays options false).2 _ _ _ rfl)
  have ho : (G.enter e.jobs.size (orderOf? layers options)) e.jobs.size = some o :=
    (if_pos rfl).trans (orderOf?_parsed hlayers hoptions hformat)
  have hcalm' : (e.addJob .lookup).2.Calm := { hcalm with }
  have hidle' : (e.addJob .lookup).2.Idle := { hidle with }
  have hadmits' : (e.addJob .lookup).2.Admits o := { hadmits with }
  obtain ⟨G', hentered, ho'⟩ := composite_entered hw hsupervised hlayers hoptions hformat harrays
  obtain ⟨c, hclayers, hcformat, hverifies, hsignal, hstart⟩ :=
    composite_starts hsupervised hlayers hoptions hformat habort
  rw [hstart] at hentered ⊢
  by_cases hfits : o.Fits
  · obtain ⟨e', r, hcomes, hturns, hsettled⟩ :=
        startAttempt_answers hadded hcalm' hidle' ho hclayers hcformat hverifies
      (hsignal ▸ habort) hadmits' hfits
    obtain ⟨-, rfl⟩ := (hentered.comes hcomes).answered ho'
      (hsettled ▸ List.mem_append_right _ (List.mem_singleton_self _))
    exact ⟨e', _, hcomes, hturns, hsettled, fun _ => rfl, fun h => absurd hfits h⟩
  · obtain ⟨e', failure, hcomes, hturns, hsettled, hcode⟩ := startAttempt_refuses hadded.safe hcalm' hidle'.turns ho
      hclayers hadmits' hfits
    exact ⟨e', _, hcomes, hturns, hsettled, fun h => absurd h hfits, fun _ => ⟨failure, rfl, hcode⟩⟩

/-! ## Beside the host -/

theorem compositeDirect_parsed (hlayers : parseLayers layers = .ok o.layers)
    (hoptions : parseOptions options = .ok os) (hformat : os.outputFormat = o.outputFormat) :
    compositeDirect (ν := Int) layers options = Direct.composite o.layers o.outputFormat := by
  unfold compositeDirect
  rw [hlayers, hoptions]
  show Direct.composite o.layers os.outputFormat = _
  rw [hformat]

/-- In a calm session that has been used in any way, a call whose layers the device can take and the library can
blend answers what the host answers, where memory keeps channels as they are: the same raster, or that formats are
incompatible. -/
theorem composite_agrees [Channel.Ordered α] [Stored.Lossless α] (he : e.Reached)
    (hsupervised : e.supervised = true) (hcalm : e.Calm) (hidle : e.Idle)
    (hlayers : parseLayers layers = .ok o.layers) (hoptions : parseOptions options = .ok os)
    (hformat : os.outputFormat = o.outputFormat) (harrays : ∀ l ∈ o.layers, l.raster.texels.size ≤ longestArray)
    (habort : e.abortReason? os.signal = none) (hadmits : e.Admits o) :
    ∃ n result, let e' := (e.apply (.composite layers options false)).2.fireMany n
      e'.turns = [] ∧ e'.settled = e.settled ++ [(e.jobs.size, result)] ∧
      ((∃ failure failure' : Failure, result = .error failure ∧
          compositeDirect (ν := Int) layers options = .error failure' ∧
          failure.code? = some .incompatibleFormats ∧ failure'.code? = some .incompatibleFormats) ∨
        ∃ r, result = .ok (.raster r) ∧ compositeDirect layers options = .ok r) := by
  obtain ⟨G, hw⟩ := he.well
  obtain ⟨e', result, ⟨n, rfl⟩, hturns, hsettled, hfit, hmisfit⟩ :=
    composite_alone hw hsupervised hcalm hidle hlayers hoptions hformat harrays habort hadmits
  have hvalid := (parseLayers_valid hlayers).2
  refine ⟨n, result, hturns, hsettled, ?_⟩
  rw [compositeDirect_parsed hlayers hoptions hformat]
  by_cases hfits : o.Fits
  · exact .inr ⟨o.raster, hfit hfits, Direct.composite_raster o.outputFormat hvalid hfits⟩
  · obtain ⟨failure, hresult, hcode⟩ := hmisfit hfits
    obtain ⟨failure', hdirect, hcode'⟩ := Direct.composite_misfit o.outputFormat
      (hvalid o.base (List.mem_cons_self ..)) hfits
    exact .inl ⟨failure, failure', hresult, hdirect, hcode, hcode'⟩

/-! ### Two layers of one texel -/

namespace Veiled

def layer (format : String) (data : Value Bool) (mode space : String) : Value Bool :=
  .object [("buffer", .object [("width", .number true), ("height", .number true), ("format", .string format),
    ("data", data)]), ("mode", .string mode), ("space", .string space)]

def stack : Value Bool :=
  .array [layer "rgba32float" (.singles #[true, false, true, true]) "source-over" "srgb",
    layer "rgba8unorm" (.bytes #[0, 255, 255, 255]) "screen" "linear"]

def bytes : Value Bool := .object [("outputFormat", .string "rgba8unorm")]

def order : Order Bool :=
  ⟨⟨⟨1, 1, .float32 #[true, false, true, true]⟩, .sourceOver, .srgb, none, none⟩,
    [⟨⟨1, 1, .unorm8 #[0, 255, 255, 255]⟩, .screen, .linear, none, none⟩], some .unorm8⟩

def start : Engine Int Bool :=
  { bare { limits := .standard } {} with
    pool := ⟨{ options := ({} : EngineOptions Int).arena "Session" }, { limits := .standard }⟩
    config := Config.standard.update {}
    supervised := true }

theorem opened : start.Opened := ⟨{ limits := .standard }, {}, .object [], rfl⟩

theorem parsed : parseLayers stack = .ok order.layers ∧ parseOptions bytes = .ok ⟨some .unorm8, none⟩ ∧
    ∀ l ∈ order.layers, l.raster.texels.size ≤ longestArray := by decide +kernel

theorem admits : start.Admits order where
  room := ⟨rfl, fun r hr => absurd hr List.not_mem_nil, fun _ _ _ h => (nomatch h), by decide +kernel,
    fun _ h => (nomatch h)⟩
  affords := ⟨by decide +kernel, by decide +kernel⟩
  serves := by
    show ∀ l ∈ order.layers, l.mode ∈ start.cache.library.modes
    decide +kernel

end Veiled

open Veiled in
theorem composite_agrees_veiled :
    (start.Reached ∧ start.supervised = true ∧ start.Calm ∧ start.Idle ∧ start.Admits order) ∧
    (parseLayers stack = .ok order.layers ∧ parseOptions bytes = .ok ⟨some .unorm8, none⟩ ∧
      ∀ l ∈ order.layers, l.raster.texels.size ≤ longestArray) ∧
    ∃ n r, ((start.apply (.composite stack bytes false)).2.fireMany n).turns = [] ∧
      ((start.apply (.composite stack bytes false)).2.fireMany n).settled = [(0, .ok (.raster r))] ∧
      compositeDirect stack bytes = .ok r := by
  have hreached : start.Reached := ⟨start, [], opened.blank, fun m hm => absurd hm List.not_mem_nil, rfl⟩
  have hcalm : start.Calm := ⟨rfl, rfl, rfl, rfl, rfl, rfl, rfl⟩
  have hidle : start.Idle := ⟨rfl, rfl, rfl⟩
  obtain ⟨hlayers, hoptions, harrays⟩ := parsed
  have hdirect : (compositeDirect (ν := Int) stack bytes).toOption.isSome = true := by decide +kernel
  refine ⟨⟨hreached, rfl, hcalm, hidle, admits⟩, parsed, ?_⟩
  obtain ⟨n, result, hturns, hsettled, h⟩ := composite_agrees hreached rfl hcalm hidle hlayers hoptions rfl harrays
    rfl admits
  rcases h with ⟨-, failure, -, hfailure, -⟩ | ⟨r, rfl, hr⟩
  · rw [hfailure] at hdirect
    cases hdirect
  · exact ⟨n, r, hturns, hsettled, hr⟩

/-! ## Among others -/

/-- Whatever is done on a session beside a call and becomes of it, and whatever the session's buffers held before:
the raster that the call answers is the only one that it answers when it is alone on a session just opened, and it
does answer it there if the device can take its layers. -/
theorem composites_undisturbed [Channel.Ordered α] {start : Engine Int α} (hstart : start.Blank)
    (hsupervised : start.supervised = true) {before after : List (Move Int α)}
    (hfair : ∀ m ∈ before ++ .call (.composite layers options false) :: after, m.Fair)
    (hlayers : parseLayers layers = .ok o.layers) (hoptions : parseOptions options = .ok os)
    (hformat : os.outputFormat = o.outputFormat) {r : Raster Int α}
    (hr : ((start.run before).jobs.size, .ok (.raster r)) ∈
      (start.run (before ++ .call (.composite layers options false) :: after)).settled)
    {fresh : Engine Int α} (hfresh : fresh.Opened) :
    let alone := (fresh.apply (.composite layers options false)).2
    (∀ n r', (0, .ok (.raster r')) ∈ (alone.fireMany n).settled → r' = r) ∧
      (fresh.Calm → fresh.Admits o →
        ∃ n, (alone.fireMany n).turns = [] ∧ (alone.fireMany n).settled = [(0, .ok (.raster r))]) := by
  intro alone
  have harrays := (hfair (.call (.composite layers options false))
    (List.mem_append_right _ (List.mem_cons_self ..))).2 layers options false rfl _ hlayers
  -- among others the call answers the raster of its own layers
  obtain ⟨G₁, -, hw₁⟩ := hstart.well.run fun m hm => hfair m (List.mem_append_left _ hm)
  have hsorted : start.Sorted := fun i ⟨b, hb, _⟩ => by
    rw [hstart.builds] at hb
    cases hb
  obtain ⟨G₂, hw₂, ho₂⟩ := composite_entered hw₁ ((run_ages hsorted before).2.1.trans hsupervised) hlayers hoptions
    hformat harrays
  obtain ⟨G₃, hext, hw₃⟩ := hw₂.run fun m hm => hfair m (List.mem_append_right _ (List.mem_cons_of_mem _ hm))
  rw [run_append] at hr
  obtain ⟨hfits, rfl⟩ := hw₃.answered (hext _ _ ho₂) hr
  -- alone it answers that, too
  have hblank := hfresh.blank
  obtain ⟨device, engine, config, heq⟩ := hfresh.eq
  have hsupervised' : fresh.supervised = true := by rw [heq]
  refine ⟨fun n r' hr' => ?_, fun hcalm hadmits => ?_⟩
  · obtain ⟨G', hw', ho'⟩ := composite_entered hblank.well hsupervised' hlayers hoptions hformat harrays
    rw [hblank.jobs] at ho'
    exact ((hw'.comes ⟨n, rfl⟩).answered ho' hr').2
  · have hidle : fresh.Idle := by
      rw [heq]
      exact ⟨rfl, rfl, rfl⟩
    have habort : fresh.abortReason? os.signal = none := by
      rw [heq]
      cases os.signal <;> rfl
    obtain ⟨e', result, ⟨n, rfl⟩, hturns, hsettled, hfit, -⟩ := composite_alone hblank.well hsupervised' hcalm hidle
      hlayers hoptions hformat harrays habort hadmits
    refine ⟨n, hturns, ?_⟩
    rw [hsettled, hfit hfits, hblank.settled, hblank.jobs]
    rfl

/-! ### Beside a call that is aborted, and after memory has run out once -/

def answersRaster (e : Engine Int α) (job : JobId) : Bool := e.settled.any fun
  | (j, .ok (.raster _)) => j == job
  | _ => false

omit [Channel α] [Stored α] [Transfer α] in
theorem mem_of_answersRaster {job : JobId} (h : e.answersRaster job = true) :
    ∃ r, (job, .ok (.raster r)) ∈ e.settled := by
  obtain ⟨x, hx, hh⟩ := List.any_eq_true.mp h
  split at hh
  · rw [beq_iff_eq] at hh
    exact ⟨_, hh ▸ hx⟩
  · cases hh

namespace Veiled

def neighbour : Value Bool :=
  .array [layer "rgba8unorm" (.bytes #[255, 0, 0, 255]) "source-over" "srgb",
    layer "rgba32float" (.singles #[true, false, true, true]) "multiply" "srgb"]

def before : List (Move Int Bool) :=
  [.call .newSignal, .call (.configure (.object [("outOfMemoryRetries", .number true)])),
    .call (.composite neighbour (.object [("signal", .abortSignal 0)]) false)] ++ List.replicate 9 .fire

def after : List (Move Int Bool) :=
  .call (.inject .outOfMemory (some "full")) :: List.replicate 4 .fire ++ .call (.abort 0 none) ::
    List.replicate 60 .fire

theorem neighbour_fair : (Move.call (.composite neighbour (.object [("signal", .abortSignal 0)]) false)).Fair := by
  have hparsed : parseLayers (ν := Int) neighbour = .ok [
    ⟨⟨1, 1, .unorm8 #[255, 0, 0, 255]⟩, .sourceOver, .srgb, none, none⟩,
    ⟨⟨1, 1, .float32 #[true, false, true, true]⟩, .multiply, .srgb, none, none⟩] := by decide +kernel
  exact Move.fair_composite hparsed (by decide +kernel) _ _

theorem fair : ∀ m ∈ before ++ .call (.composite stack bytes false) :: after, m.Fair := by
  have hcall := Move.fair_composite parsed.1 parsed.2.2 bytes false
  have hquiet {op : Operation Int Bool} (hs : op.spares = true)
      (h : ∀ layers options verifies, op ≠ .composite layers options verifies) : (Move.call op).Fair :=
    ⟨hs, fun layers options verifies heq => absurd heq (h layers options verifies)⟩
  have hfires (n : Nat) : ∀ m ∈ List.replicate n (Move.fire : Move Int Bool), m.Fair := fun m hm => by
    rw [List.eq_of_mem_replicate hm]
    trivial
  simp only [before, after, List.cons_append, List.nil_append, List.forall_mem_append, List.forall_mem_cons]
  refine ⟨hquiet rfl nofun, hquiet rfl nofun, neighbour_fair, hfires _, hcall, hquiet rfl nofun, hfires _,
    hquiet rfl nofun, hfires _⟩

end Veiled

open Veiled in
theorem composites_undisturbed_retried :
    (start.Blank ∧ start.supervised = true ∧ start.Opened ∧ start.Calm ∧ start.Admits order) ∧
    (∀ m ∈ before ++ .call (.composite stack bytes false) :: after, m.Fair) ∧
    (parseLayers stack = .ok order.layers ∧ parseOptions bytes = .ok ⟨some .unorm8, none⟩) ∧
    ∃ r, (1, .ok (.raster r)) ∈ (start.run (before ++ .call (.composite stack bytes false) :: after)).settled ∧
      (∀ n r', (0, .ok (.raster r')) ∈ ((start.apply (.composite stack bytes false)).2.fireMany n).settled →
        r' = r) ∧
      ∃ n, ((start.apply (.composite stack bytes false)).2.fireMany n).turns = [] ∧
        ((start.apply (.composite stack bytes false)).2.fireMany n).settled = [(0, .ok (.raster r))] := by
  have hjob : (start.run before).jobs.size = 1 := by decide +kernel
  have hanswers : (start.run (before ++ .call (.composite stack bytes false) :: after)).answersRaster 1 = true := by
    decide +kernel
  obtain ⟨r, hr⟩ := mem_of_answersRaster hanswers
  have hcalm : start.Calm := ⟨rfl, rfl, rfl, rfl, rfl, rfl, rfl⟩
  obtain ⟨hsame, hends⟩ := composites_undisturbed opened.blank rfl fair parsed.1 parsed.2.1 rfl (hjob ▸ hr) opened
  exact ⟨⟨opened.blank, rfl, opened, hcalm, admits⟩, fair, ⟨parsed.1, parsed.2.1⟩, r, hr, hsame, hends hcalm admits⟩

end Strata.Engine
