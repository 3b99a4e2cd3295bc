import Mathlib.Data.List.Basic
import Strata.Proofs.Plan.Stack

/-!
# Which program a request is answered with

A key `Names` a program, and by its text alone no other (`Names.unique`). `Cache.Right` says that entries and
builds in flight agree with the texts that they are filed under, so whoever asks for a key is answered with
the program that the key names. `P` is what is known of the requests that wait.
-/

namespace Strata

/-! ## Names -/

theorem ColorSpace.name_of_ofName? {n : String} {s : ColorSpace} (h : ColorSpace.ofName? n = some s) :
    n = s.name := by
  have hn := List.find?_some (p := fun x : ColorSpace => x.name == n) h
  exact (eq_of_beq hn).symm

theorem PixelFormat.name_of_ofName? {n : String} {f : PixelFormat} (h : PixelFormat.ofName? n = some f) :
    n = f.name := by
  have hn := List.find?_some (p := fun x : PixelFormat => x.name == n) h
  exact (eq_of_beq hn).symm

theorem BlendMode.name_of_ofName? {n : String} {m : BlendMode} (h : BlendMode.ofName? n = some m) : n = m.name := by
  have hn := List.find?_some (p := fun x : BlendMode => x.name == n) h
  exact (eq_of_beq hn).symm

theorem ColorSpace.name_injective {s s' : ColorSpace} (h : s.name = s'.name) : s = s' := by
  have hs := ColorSpace.ofName?_name s
  rw [h, ColorSpace.ofName?_name] at hs
  exact (Option.some.inj hs).symm

theorem PixelFormat.name_injective {f f' : PixelFormat} (h : f.name = f'.name) : f = f' := by
  have hf := PixelFormat.ofName?_name f
  rw [h, PixelFormat.ofName?_name] at hf
  exact (Option.some.inj hf).symm

theorem BlendMode.name_injective {m m' : BlendMode} (h : m.name = m'.name) : m = m' := by
  have hm := BlendMode.ofName?_name m
  rw [h, BlendMode.ofName?_name] at hm
  exact (Option.some.inj hm).symm

theorem ColorSpace.slash_notMem (s : ColorSpace) : '/' ∉ s.name.toList := by
  cases s <;> decide

theorem BlendMode.slash_notMem (m : BlendMode) : '/' ∉ m.name.toList := by
  cases m <;> decide

theorem copyMode_slash_notMem : '/' ∉ copyMode.toList := by decide

theorem cancel_slash {u u' v v' : List Char} (hu : '/' ∉ u) (hu' : '/' ∉ u') (h : u ++ '/' :: v = u' ++ '/' :: v') :
    u = u' ∧ v = v' := by
  induction u generalizing u' with
  | nil =>
    cases u' with
    | nil => exact ⟨rfl, (List.cons.inj h).2⟩
    | cons c u' =>
      have hc := (List.cons.inj h).1
      exact absurd (hc ▸ List.mem_cons_self ..) hu'
  | cons c u ih =>
    cases u' with
    | nil =>
      have hc := (List.cons.inj h).1
      exact absurd (hc ▸ List.mem_cons_self ..) hu
    | cons c' u' =>
      obtain ⟨hc, hrest⟩ := List.cons.inj h
      obtain ⟨he, hv⟩ := ih (fun hm => hu (List.mem_cons_of_mem _ hm))
          (fun hm => hu' (List.mem_cons_of_mem _ hm)) hrest
      exact ⟨by rw [hc, he], hv⟩

/-- A text with a slash in it splits there in one way only. -/
theorem split_unique {u u' v v' : String} (hu : '/' ∉ u.toList) (hu' : '/' ∉ u'.toList)
    (h : u ++ "/" ++ v = u' ++ "/" ++ v') : u = u' ∧ v = v' := by
  have hl := congrArg String.toList h
  simp only [String.toList_append, List.append_assoc] at hl
  obtain ⟨hx, hy⟩ := cancel_slash hu hu' hl
  exact ⟨String.toList_inj.mp hx, String.toList_inj.mp hy⟩

namespace PipelineKey

def Names (key : PipelineKey) : Program → Prop
  | .copy format => key.mode = copyMode ∧ key.format = format.name
  | .blend mode space format => key.mode = mode.name ∧ key.space = space.name ∧ key.format = format.name

variable {key key' : PipelineKey} {p p' : Program}

theorem Names.text_copy {format : PixelFormat} (h : key.Names (.copy format)) :
    key.text = copyMode ++ "/" ++ format.name := by
  obtain ⟨hm, hf⟩ := h
  unfold text
  rw [if_pos hm, hm, hf]
  rfl

theorem Names.text_blend {mode : BlendMode} {space : ColorSpace} {format : PixelFormat}
    (h : key.Names (.blend mode space format)) :
    key.text = mode.name ++ "/" ++ (space.name ++ "/" ++ format.name) := by
  obtain ⟨hm, hs, hf⟩ := h
  have hne : key.mode ≠ copyMode := by
    rw [hm]
    exact BlendMode.name_ne_copyMode mode
  unfold text
  rw [if_neg hne, hm, hs, hf]
  simp only [toString, String.append_assoc]

/-- Keys of one text ask for one program. -/
theorem Names.unique (h : key.Names p) (h' : key'.Names p') (ht : key.text = key'.text) : p = p' := by
  cases p with
  | copy format =>
    cases p' with
    | copy format' =>
      rw [h.text_copy, h'.text_copy] at ht
      obtain ⟨-, hf⟩ := split_unique copyMode_slash_notMem copyMode_slash_notMem ht
      rw [PixelFormat.name_injective hf]
    | blend mode space format' =>
      rw [h.text_copy, h'.text_blend] at ht
      obtain ⟨hm, -⟩ := split_unique copyMode_slash_notMem mode.slash_notMem ht
      exact absurd hm.symm (BlendMode.name_ne_copyMode mode)
  | blend mode space format =>
    cases p' with
    | copy format' =>
      rw [h.text_blend, h'.text_copy] at ht
      obtain ⟨hm, -⟩ := split_unique mode.slash_notMem copyMode_slash_notMem ht
      exact absurd hm (BlendMode.name_ne_copyMode mode)
    | blend mode' space' format' =>
      rw [h.text_blend, h'.text_blend] at ht
      obtain ⟨hm, hr⟩ := split_unique mode.slash_notMem mode'.slash_notMem ht
      obtain ⟨hs, hf⟩ := split_unique space.slash_notMem space'.slash_notMem hr
      rw [BlendMode.name_injective hm, ColorSpace.name_injective hs, PixelFormat.name_injective hf]

end PipelineKey

theorem Library.names_of_resolve {library : Library} {key : PipelineKey} {a : Artifact}
    (h : library.resolve key = some a) : key.Names a.program := by
  unfold resolve at h
  simp only [Option.bind_eq_bind, Option.bind_eq_some_iff] at h
  obtain ⟨space, hs, format, hf, h⟩ := h
  by_cases hm : key.mode = copyMode
  · rw [if_pos hm] at h
    obtain rfl := Option.some.inj h
    exact ⟨hm, PixelFormat.name_of_ofName? hf⟩
  · rw [if_neg hm] at h
    obtain ⟨mode, hmode, h⟩ := Option.bind_eq_some_iff.mp h
    split at h
    · obtain rfl := Option.some.inj h
      exact ⟨BlendMode.name_of_ofName? hmode, ColorSpace.name_of_ofName? hs, PixelFormat.name_of_ofName? hf⟩
    · cases h

theorem Layer.key_names {α : Type} (l : Layer Int α) (bottom : Bool) : (l.key bottom).Names (l.program bottom) := by
  cases bottom with
  | true => exact ⟨rfl, rfl⟩
  | false => exact ⟨rfl, rfl, rfl⟩

namespace Cache

variable {W : Type}

/-! ## Builds -/

/-- A build of a key was started, and is of that key as long as it is in flight. -/
structure Builds (c : Cache W) (serial : Nat) (key : PipelineKey) : Prop where
  started : serial < c.serials
  key : ∀ b ∈ c.inFlight, b.serial = serial → b.key = key

/-- What a build is to answer is what its key names. -/
structure Built (c : Cache W) (serial : Nat) (a : Artifact) : Prop where
  started : serial < c.serials
  names : ∀ b ∈ c.inFlight, b.serial = serial → b.key.Names a.program

/-- No build changes its key. -/
structure Ages (c c' : Cache W) : Prop where
  serials : c.serials ≤ c'.serials
  builds : ∀ b' ∈ c'.inFlight, b'.serial < c.serials → ∃ b ∈ c.inFlight, b.serial = b'.serial ∧ b.key = b'.key

theorem Ages.refl (c : Cache W) : c.Ages c := ⟨Nat.le_refl _, fun b hb _ => ⟨b, hb, rfl, rfl⟩⟩

theorem Ages.trans {c c' c'' : Cache W} (h : c.Ages c') (h' : c'.Ages c'') : c.Ages c'' := by
  refine ⟨Nat.le_trans h.serials h'.serials, fun b'' hb'' hlt => ?_⟩
  obtain ⟨b', hb', hs', hk'⟩ := h'.builds b'' hb'' (Nat.lt_of_lt_of_le hlt h.serials)
  obtain ⟨b, hb, hs, hk⟩ := h.builds b' hb' (hs' ▸ hlt)
  exact ⟨b, hb, hs.trans hs', hk.trans hk'⟩

theorem Builds.later {c c' : Cache W} {serial : Nat} {key : PipelineKey} (h : c.Builds serial key)
    (ha : c.Ages c') : c'.Builds serial key := by
  refine ⟨Nat.lt_of_lt_of_le h.started ha.serials, fun b' hb' hs' => ?_⟩
  obtain ⟨b, hb, hs, hk⟩ := ha.builds b' hb' (hs' ▸ h.started)
  rw [← hk]
  exact h.key b hb (hs.trans hs')

theorem Built.later {c c' : Cache W} {serial : Nat} {a : Artifact} (h : c.Built serial a) (ha : c.Ages c') :
    c'.Built serial a := by
  refine ⟨Nat.lt_of_lt_of_le h.started ha.serials, fun b' hb' hs' => ?_⟩
  obtain ⟨b, hb, hs, hk⟩ := ha.builds b' hb' (hs' ▸ h.started)
  rw [← hk]
  exact h.names b hb (hs.trans hs')

theorem Builds.built {ν α : Type} {c : Cache W} {serial : Nat} {key : PipelineKey} (h : c.Builds serial key)
    {c' : Cache W} {d : Device ν α} {a : Artifact} (ha : c'.compiled d key = .ok a) : c.Built serial a := by
  refine ⟨h.started, fun b hb hs => ?_⟩
  rw [h.key b hb hs]
  unfold compiled at ha
  split at ha
  · cases ha
  · split at ha
    · rename_i heq
      cases ha
      exact Library.names_of_resolve heq
    · cases ha

/-! ## The invariant -/

/-- Some key of this text asks for the program of a pipeline. -/
def Serves (text : String) (p : Pipeline) : Prop :=
  ∃ key : PipelineKey, key.text = text ∧ key.Names p.artifact.program

structure Right (P : String → W → Prop) (c : Cache W) : Prop where
  started : ∀ b ∈ c.inFlight, b.serial < c.serials
  building : ∀ id s, (id, .building s) ∈ c.entries → s < c.serials ∧ ∀ b ∈ c.inFlight, b.serial = s →
    b.key.text = id
  ready : ∀ id p, (id, .ready p) ∈ c.entries → Serves id p
  waiters : ∀ b ∈ c.inFlight, ∀ w ∈ b.waiters, P b.key.text w

variable {P Q : String → W → Prop} {c : Cache W}

theorem Right.mono (h : c.Right P) (hpq : ∀ text w, P text w → Q text w) : c.Right Q :=
  ⟨h.started, h.building, h.ready, fun b hb w hw => hpq _ _ (h.waiters b hb w hw)⟩

/-- Fewer entries, and builds in flight that some were before. -/
theorem Right.of_subset (h : c.Right P) {c' : Cache W} (hs : c'.serials = c.serials) (he : c'.entries ⊆ c.entries)
    (hb : ∀ b' ∈ c'.inFlight, ∃ b ∈ c.inFlight, b.serial = b'.serial ∧ b.key = b'.key ∧ b'.waiters ⊆ b.waiters) :
    c'.Right P ∧ c.Ages c' := by
  refine ⟨⟨fun b' hb' => ?_, fun id s hm => ?_, fun id p hm => h.ready id p (he hm), fun b' hb' w hw => ?_⟩,
    ⟨Nat.le_of_eq hs.symm, fun b' hb' _ => ?_⟩⟩
  · obtain ⟨b, hb, hser, -⟩ := hb b' hb'
    rw [hs, ← hser]
    exact h.started b hb
  · obtain ⟨hlt, hkey⟩ := h.building id s (he hm)
    refine ⟨hs ▸ hlt, fun b' hb' hs' => ?_⟩
    obtain ⟨b, hb, hser, hk, -⟩ := hb b' hb'
    rw [← hk]
    exact hkey b hb (hser.trans hs')
  · obtain ⟨b, hb, -, hk, hsub⟩ := hb b' hb'
    rw [← hk]
    exact h.waiters b hb w (hsub hw)
  · obtain ⟨b, hb, hser, hk, -⟩ := hb b' hb'
    exact ⟨b, hb, hser, hk⟩

theorem Right.clear (h : c.Right P) : c.clear.Right P ∧ c.Ages c.clear :=
  h.of_subset rfl (List.nil_subset _) fun b hb => ⟨b, hb, rfl, rfl, List.Subset.refl _⟩

theorem Right.close (h : c.Right P) (closing : Closing) :
    (c.close closing).2.Right P ∧ c.Ages (c.close closing).2 := by
  refine h.of_subset rfl (List.nil_subset _) fun b' hb' => ?_
  obtain ⟨b, hb, rfl⟩ := List.mem_map.mp hb'
  refine ⟨b, hb, ?_⟩
  split
  · exact ⟨rfl, rfl, List.nil_subset _⟩
  · exact ⟨rfl, rfl, List.Subset.refl _⟩

theorem Right.join (h : c.Right P) {id : String} {serial : Nat} {w : W} (hm : (id, .building serial) ∈ c.entries)
    (hw : P id w) : (c.join serial w).Right P ∧ c.Ages (c.join serial w) := by
  have hback (b' : Build W) (hb' : b' ∈ (c.join serial w).inFlight) : ∃ b ∈ c.inFlight, b.serial = b'.serial ∧
      b.key = b'.key ∧ ∀ v ∈ b'.waiters, v ∈ b.waiters ∨ b.serial = serial ∧ v = w := by
    obtain ⟨b, hb, rfl⟩ := List.mem_map.mp hb'
    refine ⟨b, hb, ?_⟩
    split
    · rename_i hs
      refine ⟨rfl, rfl, fun v hv => ?_⟩
      rcases List.mem_append.mp hv with hv | hv
      · exact .inl hv
      · exact .inr ⟨hs, List.mem_singleton.mp hv⟩
    · exact ⟨rfl, rfl, fun v hv => .inl hv⟩
  obtain ⟨-, hkey⟩ := h.building id serial hm
  refine ⟨⟨fun b' hb' => ?_, fun id' s hm' => ?_, h.ready, fun b' hb' v hv => ?_⟩,
    ⟨Nat.le_refl _, fun b' hb' _ => ?_⟩⟩
  · obtain ⟨b, hb, hs, -⟩ := hback b' hb'
    rw [← hs]
    exact h.started b hb
  · obtain ⟨hlt, hkey'⟩ := h.building id' s hm'
    refine ⟨hlt, fun b' hb' hs' => ?_⟩
    obtain ⟨b, hb, hs, hk, -⟩ := hback b' hb'
    rw [← hk]
    exact hkey' b hb (hs.trans hs')
  · obtain ⟨b, hb, hs, hk, hback⟩ := hback b' hb'
    rw [← hk]
    rcases hback v hv with hv | ⟨hser, rfl⟩
    · exact h.waiters b hb v hv
    · rw [hkey b hb hser]
      exact hw
  · obtain ⟨b, hb, hs, hk, -⟩ := hback b' hb'
    exact ⟨b, hb, hs, hk⟩

theorem mem_of_entry {id : String} {e : CacheEntry} (h : c.entry? id = some e) : (id, e) ∈ c.entries := by
  obtain ⟨l₁, l₂, hl, -⟩ := List.lookup_eq_some_iff.mp h
  rw [hl]
  exact List.mem_append_right _ (List.mem_cons_self ..)

theorem Right.request (h : c.Right P) {key : PipelineKey} {w : W} (hw : P key.text w) :
    (c.request key w).2.Right P ∧ c.Ages (c.request key w).2 ∧
      (∀ p, (c.request key w).1 = .ready p → Serves key.text p) ∧
      ∀ s, (c.request key w).1 = .started s → (c.request key w).2.Builds s key := by
  unfold Cache.request
  split
  · exact ⟨h, .refl c, fun _ he => by (cases he), fun _ he => by (cases he)⟩
  · split
    · rename_i p hp
      refine ⟨h, .refl c, fun _ he => ?_, fun _ he => by (cases he)⟩
      cases he
      exact h.ready _ _ (mem_of_entry hp)
    · rename_i s hs
      obtain ⟨hr, ha⟩ := h.join (mem_of_entry hs) hw
      exact ⟨hr, ha, fun _ he => by (cases he), fun _ he => by (cases he)⟩
    · dsimp only
      -- a build is started under a serial number above all others
      have hnew (b : Build W) (hb : b ∈ c.inFlight ++ [⟨c.serials, key, c.epoch, [w]⟩]) :
          b ∈ c.inFlight ∨ b = ⟨c.serials, key, c.epoch, [w]⟩ :=
        (List.mem_append.mp hb).imp_right List.mem_singleton.mp
      refine ⟨⟨fun b hb => ?_, fun id s hm => ?_, fun id p hm => ?_, fun b hb v hv => ?_⟩,
        ⟨Nat.le_succ _, fun b hb hlt => ?_⟩, fun _ he => by (cases he), fun s he => ?_⟩
      · rcases hnew b hb with hb | rfl
        · exact Nat.lt_succ_of_lt (h.started b hb)
        · exact Nat.lt_succ_self _
      · rcases List.mem_append.mp hm with hm | hm
        · obtain ⟨hlt, hkey⟩ := h.building id s hm
          refine ⟨Nat.lt_succ_of_lt hlt, fun b hb hs => ?_⟩
          rcases hnew b hb with hb | rfl
          · exact hkey b hb hs
          · exact absurd hs (Nat.ne_of_gt hlt)
        · cases List.mem_singleton.mp hm
          refine ⟨Nat.lt_succ_self _, fun b hb hs => ?_⟩
          rcases hnew b hb with hb | rfl
          · exact absurd hs (Nat.ne_of_lt (h.started b hb))
          · rfl
      · rcases List.mem_append.mp hm with hm | hm
        · exact h.ready id p hm
        · cases List.mem_singleton.mp hm
      · rcases hnew b hb with hb | rfl
        · exact h.waiters b hb v hv
        · rw [List.mem_singleton.mp hv]
          exact hw
      · rcases hnew b hb with hb | rfl
        · exact ⟨b, hb, rfl, rfl⟩
        · exact absurd hlt (Nat.lt_irrefl _)
      · cases he
        refine ⟨Nat.lt_succ_self _, fun b hb hs => ?_⟩
        rcases hnew b hb with hb | rfl
        · exact absurd hs (Nat.ne_of_lt (h.started b hb))
        · rfl

theorem Right.promote (h : c.Right P) {s : Nat} {p : Pipeline}
    (hp : ∀ id, (id, .building s) ∈ c.entries → Serves id p) :
    (c.promote s p).Right P ∧ c.Ages (c.promote s p) := by
  have hback (id : String) (e : CacheEntry) (he : (id, e) ∈ (c.promote s p).entries) :
      (id, e) ∈ c.entries ∨ e = .ready p ∧ (id, .building s) ∈ c.entries := by
    obtain ⟨⟨id', e'⟩, hm, he⟩ := List.mem_map.mp he
    split at he
    · rename_i hs
      cases he
      dsimp only at hs
      exact .inr ⟨rfl, hs ▸ hm⟩
    · cases he
      exact .inl hm
  refine ⟨⟨h.started, fun id t hm => ?_, fun id q hm => ?_, h.waiters⟩,
    ⟨Nat.le_refl _, fun b hb _ => ⟨b, hb, rfl, rfl⟩⟩⟩
  · rcases hback _ _ hm with hm | ⟨he, -⟩
    · exact h.building id t hm
    · cases he
  · rcases hback _ _ hm with hm | ⟨he, hbuilding⟩
    · exact h.ready id q hm
    · cases he
      exact hp id hbuilding

/-- The end of a build answers its requests with the program of their texts. -/
theorem Right.finish (h : c.Right P) {s : Nat} {result : Except Failure Artifact}
    (hb : ∀ a, result = .ok a → c.Built s a) :
    (c.finish s result).2.Right P ∧ c.Ages (c.finish s result).2 ∧
      ∀ w p, (w, .ok p) ∈ (c.finish s result).1.answers → ∃ text, P text w ∧ Serves text p := by
  unfold Cache.finish
  split
  · exact ⟨h, .refl c, fun _ _ hm => absurd hm List.not_mem_nil⟩
  · rename_i build hbuild
    have hmem := List.mem_of_find?_eq_some hbuild
    have hserial : build.serial = s := by simpa using List.find?_some hbuild
    obtain ⟨hr, ha⟩ := @Right.of_subset _ _ _ h { c with inFlight := c.inFlight.filter (·.serial != s) } rfl
      (List.Subset.refl _) fun b hb => ⟨b, (List.mem_filter.mp hb).1, rfl, rfl, List.Subset.refl _⟩
    dsimp only
    split
    · exact ⟨hr, ha, fun _ _ hm => absurd hm List.not_mem_nil⟩
    · split
      · rename_i a
        have hnames := (hb a rfl).names build hmem hserial
        have hserves : Serves build.key.text ⟨s, build.key, a⟩ := ⟨build.key, rfl, hnames⟩
        have hanswers (w : W) (p : Pipeline)
            (hm : (w, .ok p) ∈ build.waiters.map fun w => (w, (.ok ⟨s, build.key, a⟩ : Except Failure Pipeline))) :
            ∃ text, P text w ∧ Serves text p := by
          obtain ⟨v, hv, he⟩ := List.mem_map.mp hm
          cases he
          exact ⟨_, h.waiters build hmem _ hv, hserves⟩
        dsimp only
        split
        · obtain ⟨hr', ha'⟩ := hr.promote (s := s) (p := ⟨s, build.key, a⟩) fun id hm => by
            rw [← (h.building id s hm).2 build hmem hserial]
            exact hserves
          exact ⟨hr', ha.trans ha', hanswers⟩
        · exact ⟨hr, ha, hanswers⟩
      · dsimp only
        obtain ⟨hr', ha'⟩ :=
          @Right.of_subset _ _ _ hr ({ c with inFlight := c.inFlight.filter (·.serial != s) }.forget s) rfl
          (List.filter_subset_self _) fun b hb => ⟨b, hb, rfl, rfl, List.Subset.refl _⟩
        refine ⟨hr', ha.trans ha', fun w p hm => ?_⟩
        obtain ⟨v, hv, he⟩ := List.mem_map.mp hm
        cases he

/-! ## Compiling -/

section
variable {ν α : Type}

/-- What compiling leaves alone. -/
structure Compiles (c : Cache W) (d : Device ν α) (c' : Cache W) (d' : Device ν α) : Prop where
  library : c'.library = c.library
  entries : c'.entries = c.entries
  inFlight : c'.inFlight = c.inFlight
  serials : c'.serials = c.serials
  epoch : c'.epoch = c.epoch
  closing : c'.closing = c.closing
  device : d.Steady d'
  buffers : d'.buffers = d.buffers
  limit : d'.maxAllocation = d.maxAllocation

theorem Compiles.refl (c : Cache W) (d : Device ν α) : c.Compiles d c d :=
  ⟨rfl, rfl, rfl, rfl, rfl, rfl, .refl d, rfl, rfl⟩

theorem Compiles.trans {c c' c'' : Cache W} {d d' d'' : Device ν α} (h : c.Compiles d c' d')
    (h' : c'.Compiles d' c'' d'') : c.Compiles d c'' d'' :=
  ⟨h'.library.trans h.library, h'.entries.trans h.entries, h'.inFlight.trans h.inFlight, h'.serials.trans h.serials,
    h'.epoch.trans h.epoch, h'.closing.trans h.closing, h.device.trans h'.device, h'.buffers.trans h.buffers,
    h'.limit.trans h.limit⟩

theorem call_compiles (c : Cache W) (d : Device ν α) (which : DeviceCall) {f : Device ν α → Device ν α}
    (hf : c.Compiles d c (f d)) : c.Compiles d c (d.call which f).2 := by
  rcases d.call_snd which f with heq | heq <;> rw [heq]
  · obtain ⟨hs, hb⟩ := d.takeFault_steady which
    obtain ⟨faults, hd, -⟩ := d.takeFault_snd which
    exact ⟨rfl, rfl, rfl, rfl, rfl, rfl, hs, hb, by rw [hd]⟩
  · exact hf

theorem ensureLayout_compiles (c : Cache W) (d : Device ν α) (kind : BindingKind) :
    c.Compiles d (c.ensureLayout d kind).2.1 (c.ensureLayout d kind).2.2 := by
  have hcall := call_compiles c d .createBindGroupLayout (f := id) (.refl c d)
  unfold ensureLayout
  split
  · exact .refl c d
  · split
    · rename_i heq
      rw [heq] at hcall
      exact hcall
    · rename_i heq
      rw [heq] at hcall
      exact { hcall with }

theorem ensureModule_compiles (c : Cache W) (d : Device ν α) (kind : SourceKind) :
    c.Compiles d (c.ensureModule d kind).2.1 (c.ensureModule d kind).2.2 := by
  have hcall := call_compiles c d .createShaderModule (f := fun d => { d with modules := d.modules + 1 })
    ⟨rfl, rfl, rfl, rfl, rfl, rfl, ⟨List.Subset.refl _, rfl, rfl, rfl, rfl, rfl⟩, rfl, rfl⟩
  unfold ensureModule
  split
  · exact .refl c d
  · split
    · rename_i heq
      rw [heq] at hcall
      exact hcall
    · rename_i heq
      rw [heq] at hcall
      exact { hcall with }

/-- Compiling touches neither the requests nor the buffers. -/
theorem compile_compiles (c : Cache W) (d : Device ν α) (key : PipelineKey) :
    c.Compiles d (c.compile d key).2.1 (c.compile d key).2.2 := by
  unfold compile
  split
  · exact .refl c d
  · rename_i artifact _
    have hstart : c.Compiles d { c with builds := c.builds + 1 } d :=
      ⟨rfl, rfl, rfl, rfl, rfl, rfl, .refl d, rfl, rfl⟩
    have hlayout := ensureLayout_compiles { c with builds := c.builds + 1 } d artifact.program.bindings
    dsimp only
    split
    · rename_i heq
      rw [heq] at hlayout
      exact hstart.trans hlayout
    · rename_i c₁ d₁ heq
      rw [heq] at hlayout
      have hpipeline := call_compiles c₁ d₁ .createPipelineLayout (f := id) (.refl c₁ d₁)
      split
      · rename_i heq
        rw [heq] at hpipeline
        exact (hstart.trans hlayout).trans hpipeline
      · rename_i d₂ heq
        rw [heq] at hpipeline
        have hmodule := ensureModule_compiles c₁ d₂ artifact.sourceKind
        split
        · rename_i heq
          rw [heq] at hmodule
          exact ((hstart.trans hlayout).trans hpipeline).trans hmodule
        · rename_i c₃ d₃ heq
          rw [heq] at hmodule
          have hbuild := call_compiles c₃ d₃ .createPipeline (f := fun d => { d with builds := d.builds + 1 })
            ⟨rfl, rfl, rfl, rfl, rfl, rfl, ⟨List.Subset.refl _, rfl, rfl, rfl, rfl, rfl⟩, rfl, rfl⟩
          have hall := ((hstart.trans hlayout).trans hpipeline).trans hmodule
          split
          · rename_i heq
            rw [heq] at hbuild
            exact hall.trans hbuild
          · rename_i heq
            rw [heq] at hbuild
            exact hall.trans hbuild

theorem Right.compiles {c' : Cache W} {d d' : Device ν α} (h : c.Right P) (hc : c.Compiles d c' d') :
    c'.Right P ∧ c.Ages c' :=
  h.of_subset hc.serials (hc.entries ▸ List.Subset.refl _) fun b hb =>
    ⟨b, hc.inFlight ▸ hb, rfl, rfl, List.Subset.refl _⟩

end

end Cache

end Strata
