import Mathlib.Data.List.Nodup
import Strata.Proofs.Pipeline.Programs
import Strata.Proofs.Pipeline.Requests

/-!
# One build at a time

A workshop is a cache that compiles what it starts, on a device in any state, and keeps a record of what happened,
newest first. `standing` reads off the record which builds have an entry: those that started since the last clear
and have not failed. The entries of the cache are these, in the same order (`Traced.entries`), so a build is started
only for a key text without an entry, and what a detached build comes to changes no entry (`single_flight`).
-/

namespace Strata

def CacheEntry.serial : CacheEntry → Nat
  | building serial => serial
  | ready pipeline => pipeline.serial

namespace Cache

/-- What happened to a cache. -/
inductive Record
  | started (serial : Nat) (key : PipelineKey)
  /-- A request waits on a build, be it the one that it started. -/
  | joined (request serial : Nat)
  | ended (serial : Nat) (result : Except Failure Artifact)
  /-- A request is answered by the end of a build. -/
  | settled (request serial : Nat) (result : Except Failure Pipeline)
  | cleared
  | closed

/-- A request, on a device in some state; a clear, a close, or the end of a build. -/
inductive Event (ν α : Type)
  | request (key : PipelineKey) (device : Device ν α)
  | clear
  | close (closing : Closing)
  | finish (serial : Nat) (result : Except Failure Artifact)

/-- Requests are numbered in the order in which they are made. -/
structure Workshop where
  cache : Cache Nat
  asked : Nat := 0
  /-- Newest first. -/
  record : List Record := []

namespace Workshop

variable {ν α : Type}

def receive (w : Workshop) (key : PipelineKey) (device : Device ν α) : Reply × Cache Nat → Workshop
  | (.started serial, c) =>
    ⟨(c.compile device key).2.1, w.asked + 1, .joined w.asked serial :: .started serial key :: w.record⟩
  | (.joined, c) =>
    ⟨c, w.asked + 1, ( w.cache.entry? key.text).toList.map (fun e => .joined w.asked e.serial) ++ w.record⟩
  | (_, c) => ⟨c, w.asked + 1, w.record⟩

def finish (w : Workshop) (serial : Nat) (result : Except Failure Artifact) : Workshop :=
  if w.cache.inFlight.any (·.serial == serial) then
    { w with
      cache := (w.cache.finish serial result).2
      record := (w.cache.finish serial result).1.answers.map (fun a => .settled a.1 serial a.2) ++
        .ended serial result :: w.record }
  else w

def step (w : Workshop) : Event ν α → Workshop
  | .request key device => w.receive key device (w.cache.request key w.asked)
  | .clear => { w with cache := w.cache.clear, record := .cleared :: w.record }
  | .close closing => { w with cache := (w.cache.close closing).2, record := .closed :: w.record }
  | .finish serial result => w.finish serial result

def run (w : Workshop) (events : List (Event ν α)) : Workshop := events.foldl step w

end Workshop

/-! ## Reading the record -/

namespace Record

/-- The builds that were started, newest first. -/
def started? : Record → Option (Nat × PipelineKey)
  | started serial key => some (serial, key)
  | _ => none

/-- Builds that have an entry, oldest first: serial number and key text. -/
def standing : List Record → List (Nat × String)
  | [] => []
  | started serial key :: rest => standing rest ++ [(serial, key.text)]
  | ended serial (.error _) :: rest => (standing rest).filter (·.1 != serial)
  | cleared :: _ | closed :: _ => []
  | ended _ (.ok _) :: rest | joined .. :: rest | settled .. :: rest => standing rest

variable {s : Nat} {key : PipelineKey} {l later earlier : List Record}

/-- What has started and has neither failed nor been cleared away has an entry. -/
theorem standing_of_started (hclear : cleared ∉ later) (hclose : closed ∉ later)
    (hfail : ∀ failure, ended s (.error failure) ∉ later) :
    (s, key.text) ∈ standing (later ++ started s key :: earlier) := by
  induction later with
  | nil => exact List.mem_append_right _ (List.mem_singleton_self _)
  | cons r later ih =>
    have ih := ih (fun h => hclear (.tail _ h)) (fun h => hclose (.tail _ h)) fun f h => hfail f (.tail _ h)
    cases r with
    | started serial key => exact List.mem_append_left _ ih
    | joined request serial => exact ih
    | settled request serial result => exact ih
    | cleared => exact absurd (.head _) hclear
    | closed => exact absurd (.head _) hclose
    | ended serial result =>
      cases result with
      | ok artifact => exact ih
      | error failure =>
        refine List.mem_filter.mpr ⟨ih, bne_iff_ne.mpr ?_⟩
        rintro rfl
        exact hfail failure (.head _)

theorem not_standing_of_swept (hn : ((later ++ started s key :: earlier).filterMap started?).map (·.1) |>.Nodup)
    (hswept : cleared ∈ later ∨ closed ∈ later) : s ∉ (standing (later ++ started s key :: earlier)).map (·.1) := by
  induction later with
  | nil => exact absurd hswept (by simp)
  | cons r later ih =>
    have hrest (hr : r ≠ cleared ∧ r ≠ closed) : cleared ∈ later ∨ closed ∈ later :=
      hswept.imp (fun h => (List.mem_cons.mp h).resolve_left hr.1.symm) fun h =>
        (List.mem_cons.mp h).resolve_left hr.2.symm
    cases r with
    | started serial key' =>
      obtain ⟨hserial, hn⟩ := List.nodup_cons.mp hn
      have hne : s ≠ serial := by
        rintro rfl
        exact hserial (List.mem_map.mpr ⟨(s, key), List.mem_filterMap.mpr ⟨started s key, by simp, rfl⟩, rfl⟩)
      have ih := ih hn (hrest ⟨nofun, nofun⟩)
      rw [List.cons_append, standing, List.map_append, List.mem_append]
      exact fun h => h.elim ih fun h => hne (List.mem_singleton.mp h)
    | joined request serial => exact ih hn (hrest ⟨nofun, nofun⟩)
    | settled request serial result => exact ih hn (hrest ⟨nofun, nofun⟩)
    | cleared => exact List.not_mem_nil
    | closed => exact List.not_mem_nil
    | ended serial result =>
      have ih := ih hn (hrest ⟨nofun, nofun⟩)
      cases result with
      | ok artifact => exact ih
      | error failure => exact fun h => ih ((List.filter_sublist.map _).subset h)

/-- Records that say nothing about which builds have an entry, nor of a start. -/
def Aside : Record → Prop
  | joined .. | settled .. => True
  | _ => False

theorem standing_append (h : ∀ r ∈ l, r.Aside) (rest : List Record) : standing (l ++ rest) = standing rest := by
  induction l with
  | nil => rfl
  | cons r l ih =>
    have hr := h r (.head _)
    have ih := ih fun r hr => h r (.tail _ hr)
    cases r with
    | joined request serial => exact ih
    | settled request serial result => exact ih
    | started serial key => exact hr.elim
    | ended serial result => exact hr.elim
    | cleared => exact hr.elim
    | closed => exact hr.elim

theorem started_append (h : ∀ r ∈ l, r.started? = none) (rest : List Record) :
    (l ++ rest).filterMap started? = rest.filterMap started? := by
  rw [List.filterMap_append, List.filterMap_eq_nil_iff.mpr h, List.nil_append]

theorem Aside.not_started {r : Record} (h : r.Aside) : r.started? = none := by
  cases r with
  | joined request serial => rfl
  | settled request serial result => rfl
  | started serial key => exact h.elim
  | ended serial result => rfl
  | cleared => rfl
  | closed => rfl

/-- A start lies below records that are of no start. -/
theorem split_append (h : ∀ r ∈ l, r.started? = none) {rest : List Record}
    (heq : l ++ rest = later ++ started s key :: earlier) :
    ∃ later', rest = later' ++ started s key :: earlier := by
  induction l generalizing later with
  | nil => exact ⟨later, heq⟩
  | cons r l ih =>
    cases later with
    | nil =>
      have hr := h r (.head _)
      rw [List.cons_append, List.nil_append] at heq
      rw [(List.cons.inj heq).1] at hr
      cases hr
    | cons r' later => exact ih (fun r hr => h r (.tail _ hr)) (List.cons.inj heq).2

/-- Builds start once, each for a text without an entry while the cache is not closed, and end once; a request is
answered by the end of the build that it has joined. -/
structure Coherent (l : List Record) : Prop where
  starts : ((l.filterMap started?).map (·.1)).Nodup
  fresh : ∀ later s key earlier, l = later ++ started s key :: earlier →
    key.text ∉ (standing earlier).map (·.2) ∧ closed ∉ earlier
  begun : ∀ s r, ended s r ∈ l → s ∈ (l.filterMap started?).map (·.1)
  ends : ∀ s r r', ended s r ∈ l → ended s r' ∈ l → r = r'
  settled : ∀ v s r, settled v s r ∈ l → joined v s ∈ l ∧
    ∃ key result, (s, key) ∈ l.filterMap started? ∧ ended s result ∈ l ∧ r = result.map (⟨s, key, ·⟩)

namespace Coherent

variable {r : Record}

/-- Records that are of no start, no end and no answer may come in between. -/
theorem cons (h : Coherent l) (hstart : r.started? = none) (hend : ∀ s result, r ≠ ended s result)
    (hsettled : ∀ v s result, r ≠ Record.settled v s result) : Coherent (r :: l) := by
  have hstarted : (r :: l).filterMap started? = l.filterMap started? := List.filterMap_cons_none hstart
  have hended {s : Nat} {result : Except Failure Artifact} (hl : ended s result ∈ r :: l) : ended s result ∈ l :=
    (List.mem_cons.mp hl).resolve_left (hend _ _).symm
  refine ⟨by rw [hstarted]; exact h.starts, fun later s key earlier heq => ?_,
    fun s r hl => by rw [hstarted]; exact h.begun s r (hended hl),
    fun s r r' hl hl' => h.ends s r r' (hended hl) (hended hl'), fun v s r' hl => ?_⟩
  · obtain ⟨later', heq⟩ := split_append (l := [r]) (by simpa using hstart) heq
    exact h.fresh later' s key earlier heq
  · obtain ⟨hj, key, result, hs, he, hr⟩ :=
        h.settled v s r' ((List.mem_cons.mp hl).resolve_left (hsettled _ _ _).symm)
    exact ⟨.tail _ hj, key, result, by rw [hstarted]; exact hs, .tail _ he, hr⟩

theorem started (h : Coherent l) (hnew : s ∉ (l.filterMap started?).map (·.1))
    (htext : key.text ∉ (standing l).map (·.2)) (hopen : closed ∉ l) : Coherent (started s key :: l) := by
  refine ⟨List.nodup_cons.mpr ⟨hnew, h.starts⟩, fun later s' key' earlier heq => ?_, fun s' r hl => ?_,
    fun s' r r' hl hl' => ?_, fun v s' r hl => ?_⟩
  · cases later with
    | nil =>
      obtain ⟨hstart, rfl⟩ := List.cons.inj heq
      obtain ⟨-, rfl⟩ := Record.started.inj hstart
      exact ⟨htext, hopen⟩
    | cons r later => exact h.fresh later s' key' earlier (List.cons.inj heq).2
  · exact .tail _ (h.begun s' r ((List.mem_cons.mp hl).resolve_left nofun))
  · exact h.ends s' r r' ((List.mem_cons.mp hl).resolve_left nofun) ((List.mem_cons.mp hl').resolve_left nofun)
  · obtain ⟨hj, key', result, hs, he, hr⟩ := h.settled v s' r ((List.mem_cons.mp hl).resolve_left nofun)
    exact ⟨.tail _ hj, key', result, .tail _ hs, .tail _ he, hr⟩

theorem ended (h : Coherent l) (hs : s ∈ (l.filterMap started?).map (·.1)) (hnone : ∀ r, .ended s r ∉ l)
    (result : Except Failure Artifact) : Coherent (.ended s result :: l) := by
  refine ⟨h.starts, fun later s' key earlier heq => ?_, fun s' r hl => ?_,
    fun s' r r' hl hl' => ?_, fun v s' r hl => ?_⟩
  · obtain ⟨later', heq⟩ := split_append (l := [.ended s result]) (by simp [started?]) heq
    exact h.fresh later' s' key earlier heq
  · rcases List.mem_cons.mp hl with heq | hl
    · obtain ⟨rfl, -⟩ := Record.ended.inj heq
      exact hs
    · exact h.begun s' r hl
  · rcases List.mem_cons.mp hl with heq | hbefore
    · obtain ⟨rfl, rfl⟩ := Record.ended.inj heq
      exact ((List.mem_cons.mp hl').resolve_right (hnone r') |> Record.ended.inj).2.symm
    · rcases List.mem_cons.mp hl' with heq' | hbefore'
      · obtain ⟨rfl, -⟩ := Record.ended.inj heq'
        exact absurd hbefore (hnone r)
      · exact h.ends s' r r' hbefore hbefore'
  · obtain ⟨hj, key, result', hstart, he, hr⟩ := h.settled v s' r ((List.mem_cons.mp hl).resolve_left nofun)
    exact ⟨.tail _ hj, key, result', hstart, .tail _ he, hr⟩

theorem answered {result : Except Failure Artifact} (h : Coherent l) (hs : (s, key) ∈ l.filterMap started?)
    (he : .ended s result ∈ l) {answers : List (Nat × Except Failure Pipeline)}
    (ha : ∀ a ∈ answers, joined a.1 s ∈ l ∧ a.2 = result.map (⟨s, key, ·⟩)) :
    Coherent (answers.map (fun a => .settled a.1 s a.2) ++ l) := by
  obtain ⟨news, hnews⟩ : ∃ news, news = answers.map fun a => Record.settled a.1 s a.2 := ⟨_, rfl⟩
  rw [← hnews]
  have haside : ∀ r ∈ news, r.Aside := by
    intro r hr
    obtain ⟨a, -, rfl⟩ := List.mem_map.mp (hnews ▸ hr)
    trivial
  have hstarted : (news ++ l).filterMap started? = l.filterMap started? :=
    started_append (fun r hr => (haside r hr).not_started) _
  have hended {s' : Nat} {r : Except Failure Artifact} (hl : .ended s' r ∈ news ++ l) : .ended s' r ∈ l :=
    (List.mem_append.mp hl).resolve_left (haside (.ended s' r))
  refine ⟨by rw [hstarted]; exact h.starts, fun later s' key' earlier heq => ?_,
    fun s' r hl => by rw [hstarted]; exact h.begun s' r (hended hl),
    fun s' r r' hl hl' => h.ends s' r r' (hended hl) (hended hl'), fun v s' r hl => ?_⟩
  · obtain ⟨later', heq⟩ := split_append (fun r hr => (haside r hr).not_started) heq
    exact h.fresh later' s' key' earlier heq
  · rw [hstarted]
    rcases List.mem_append.mp hl with hl | hl
    · obtain ⟨a, hmem, heq⟩ := List.mem_map.mp (hnews ▸ hl)
      obtain ⟨rfl, rfl, rfl⟩ := Record.settled.inj heq
      obtain ⟨hj, hr⟩ := ha a hmem
      exact ⟨List.mem_append_right _ hj, key, result, hs, List.mem_append_right _ he, hr⟩
    · obtain ⟨hj, key', result', hstart, hend, hr⟩ := h.settled v s' r hl
      exact ⟨List.mem_append_right _ hj, key', result', hstart, List.mem_append_right _ hend, hr⟩

end Coherent

/-- A build has started and not ended, and who waits for it has joined it. -/
structure Flying (l : List Record) (b : Build Nat) : Prop where
  started : (b.serial, b.key) ∈ l.filterMap started?
  joined : ∀ v ∈ b.waiters, joined v b.serial ∈ l
  aloft : ∀ r, ended b.serial r ∉ l

namespace Flying

variable {b b₀ : Build Nat} {l' : List Record}

theorem mono (h : Flying l b) (hsub : l ⊆ l') (hend : ∀ r, ended b.serial r ∈ l' → ended b.serial r ∈ l) :
    Flying l' b where
  started := by
    obtain ⟨r, hr, heq⟩ := List.mem_filterMap.mp h.started
    exact List.mem_filterMap.mpr ⟨r, hsub hr, heq⟩
  joined v hv := hsub (h.joined v hv)
  aloft r hr := h.aloft r (hend r hr)

/-- Requests join a build, or give up. -/
theorem rejoin (h : Flying l b₀) (hs : b.serial = b₀.serial) (hk : b.key = b₀.key)
    (hw : ∀ v ∈ b.waiters, v ∈ b₀.waiters ∨ Record.joined v b₀.serial ∈ l) : Flying l b where
  started := by rw [hs, hk]; exact h.started
  joined v hv := by rw [hs]; exact (hw v hv).elim (h.joined v) id
  aloft r := by rw [hs]; exact h.aloft r

end Flying

end Record

/-! ## Compiling -/

section
variable {ν α : Type} {c c' : Cache Nat} {d d' : Device ν α}

theorem Sound.compiles (h : c.Sound) (hc : c.Compiles d c' d') : c'.Sound := by
  have hattached : c'.attached = c.attached := by rw [Cache.attached, Cache.attached, hc.entries]
  refine ⟨?_, ?_, ?_, ?_, ?_, ?_, ?_⟩
  · rw [hc.inFlight]
    exact h.serials
  · rw [hc.inFlight, hc.serials]
    exact h.below
  · rw [hc.inFlight, hc.epoch]
    exact h.old
  · rw [hc.inFlight, hc.epoch, hattached]
    exact h.attached
  · rw [hc.inFlight, hattached]
    exact h.flying
  · rw [hattached]
    exact h.distinct
  · rw [hc.closing, hc.entries]
    exact h.shut

theorem ensureLayout_builds (c : Cache Nat) (d : Device ν α) (kind : BindingKind) :
    (c.ensureLayout d kind).2.1.builds = c.builds := by
  unfold ensureLayout
  split
  · rfl
  · split <;> rfl

theorem ensureModule_builds (c : Cache Nat) (d : Device ν α) (kind : SourceKind) :
    (c.ensureModule d kind).2.1.builds = c.builds := by
  unfold ensureModule
  split
  · rfl
  · split <;> rfl

theorem compile_builds (c : Cache Nat) (d : Device ν α) (key : PipelineKey) :
    (c.compile d key).2.1.builds = c.builds + if (c.library.resolve key).isSome then 1 else 0 := by
  unfold compile
  split
  · rename_i hnone
    simp [hnone]
  · rename_i artifact hsome
    rw [hsome, Option.isSome_some, if_pos rfl]
    have hlayout := ensureLayout_builds { c with builds := c.builds + 1 } d artifact.program.bindings
    dsimp only
    split
    · rename_i heq
      rw [heq] at hlayout
      exact hlayout
    · rename_i c₁ d₁ heq
      rw [heq] at hlayout
      split
      · exact hlayout
      · rename_i d₂ _
        have hmodule := ensureModule_builds c₁ d₂ artifact.sourceKind
        split
        · rename_i heq
          rw [heq] at hmodule
          exact hmodule.trans hlayout
        · rename_i heq
          rw [heq] at hmodule
          split <;> exact hmodule.trans hlayout

end

/-! ## The record is kept -/

open Record

/-- The record tells which entries there are, who waits, and how builds have ended. -/
structure Traced (c : Cache Nat) (l : List Record) : Prop where
  sound : c.Sound
  entries : c.entries.map (fun e => (e.2.serial, e.1)) = standing l
  texts : (c.entries.map (·.1)).Nodup
  starts : ((l.filterMap started?).map (·.1)).Nodup
  below : ∀ x ∈ l.filterMap started?, x.1 < c.serials
  fresh : ∀ later s key earlier, l = later ++ .started s key :: earlier →
    key.text ∉ (standing earlier).map (·.2) ∧ .closed ∉ earlier
  shut : .closed ∈ l → c.closing ≠ none
  flights : ∀ b ∈ c.inFlight, (b.serial, b.key) ∈ l.filterMap started?
  waiters : ∀ b ∈ c.inFlight, ∀ v ∈ b.waiters, .joined v b.serial ∈ l
  aloft : ∀ b ∈ c.inFlight, ∀ r, .ended b.serial r ∉ l
  landed : ∀ e ∈ c.entries, ∀ p, e.2 = .ready p → ∃ r, .ended p.serial r ∈ l
  failed : ∀ s failure, .ended s (.error failure) ∈ l → ∀ e ∈ c.entries, e.2.serial ≠ s
  begun : ∀ s r, .ended s r ∈ l → s ∈ (l.filterMap started?).map (·.1)
  ends : ∀ s r r', .ended s r ∈ l → .ended s r' ∈ l → r = r'
  settled : ∀ v s r, .settled v s r ∈ l → .joined v s ∈ l ∧
    ∃ key result, (s, key) ∈ l.filterMap started? ∧ .ended s result ∈ l ∧ r = result.map (⟨s, key, ·⟩)
  builds : c.builds = (l.filterMap started?).countP fun x => (c.library.resolve x.2).isSome

namespace Traced

variable {c c' : Cache Nat} {l : List Record}

theorem start (library : Library) : Traced { library } [] where
  sound := ⟨List.nodup_nil, fun _ h => absurd h List.not_mem_nil, fun _ h => absurd h List.not_mem_nil,
    fun _ h => absurd h List.not_mem_nil, fun _ h => absurd h List.not_mem_nil, List.nodup_nil, fun _ => rfl⟩
  entries := rfl
  texts := List.nodup_nil
  starts := List.nodup_nil
  below _ h := absurd h List.not_mem_nil
  fresh later s key earlier h := absurd h (by simp)
  shut h := absurd h List.not_mem_nil
  flights _ h := absurd h List.not_mem_nil
  waiters _ h := absurd h List.not_mem_nil
  aloft _ h := absurd h List.not_mem_nil
  landed _ h := absurd h List.not_mem_nil
  failed _ _ h := absurd h List.not_mem_nil
  begun _ _ h := absurd h List.not_mem_nil
  ends _ _ _ h := absurd h List.not_mem_nil
  settled _ _ _ h := absurd h List.not_mem_nil
  builds := rfl

theorem coherent (h : Traced c l) : Coherent l := ⟨h.starts, h.fresh, h.begun, h.ends, h.settled⟩

theorem flying (h : Traced c l) {b : Build Nat} (hb : b ∈ c.inFlight) : Flying l b :=
  ⟨h.flights b hb, h.waiters b hb, h.aloft b hb⟩

/-- A request is written down that joins a build. -/
theorem join (h : Traced c l) (serial v : Nat) : Traced (c.join serial v) (.joined v serial :: l) := by
  have hcoherent : Coherent (.joined v serial :: l) := h.coherent.cons rfl (fun _ _ h => nomatch h) fun _ _ _ h =>
      nomatch h
  have hended {s : Nat} {r : Except Failure Artifact} (hl : .ended s r ∈ Record.joined v serial :: l) :
      .ended s r ∈ l :=
    (List.mem_cons.mp hl).resolve_left nofun
  have hflying (b : Build Nat) (hb : b ∈ (c.join serial v).inFlight) : Flying (.joined v serial :: l) b := by
    obtain ⟨b₀, hb₀, rfl⟩ := List.mem_map.mp hb
    have hbefore := (h.flying hb₀).mono (List.subset_cons_self (.joined v serial) l) fun _ => hended
    split
    · rename_i hs
      refine hbefore.rejoin rfl rfl fun u hu => (List.mem_append.mp hu).imp_right fun hu => ?_
      rw [List.mem_singleton.mp hu, hs]
      exact .head _
    · exact hbefore
  exact { hcoherent, h with
    sound := h.sound.mapBuilds (fun b => by split <;> rfl) fun b => by split <;> rfl
    shut := fun hl => h.shut ((List.mem_cons.mp hl).resolve_left nofun)
    flights := fun b hb => (hflying b hb).started
    waiters := fun b hb => (hflying b hb).joined
    aloft := fun b hb => (hflying b hb).aloft
    landed := fun e he p hp => (h.landed e he p hp).imp fun _ => .tail _
    failed := fun s f hl => h.failed s f (hended hl) }

/-- A build starts for a key text without an entry. -/
theorem launch {ν α : Type} (h : Traced c l) (ho : c.closing = none) {key : PipelineKey}
    (hnone : c.entry? key.text = none) (v : Nat) (device : Device ν α) :
    Traced ((c.request key v).2.compile device key).2.1 (.joined v c.serials :: .started c.serials key :: l) := by
  have hc := compile_compiles (c.request key v).2 device key
  have hbuilds := compile_builds (c.request key v).2 device key
  have hsound := (h.sound.request key v).compiles hc
  have hrequest : (c.request key v).2 = { c with
      serials := c.serials + 1
      entries := c.entries ++ [(key.text, .building c.serials)]
      inFlight := c.inFlight ++ [⟨c.serials, key, c.epoch, [v]⟩] } := by simp [Cache.request, ho, hnone]
  generalize ((c.request key v).2.compile device key).2.1 = c' at *
  generalize ((c.request key v).2.compile device key).2.2 = d' at *
  rw [hrequest] at hc hbuilds
  have hentries : c'.entries = c.entries ++ [(key.text, .building c.serials)] := hc.entries
  have hflying : c'.inFlight = c.inFlight ++ [⟨c.serials, key, c.epoch, [v]⟩] := hc.inFlight
  have htext : key.text ∉ c.entries.map (·.1) := by
    intro hmem
    obtain ⟨e, he, heq⟩ := List.mem_map.mp hmem
    exact absurd heq.symm (bne_iff_ne.mp (List.lookup_eq_none_iff.mp hnone e he))
  have hstanding : key.text ∉ (standing l).map (·.2) := by
    rw [← h.entries, List.map_map]
    exact htext
  have hnew : c.serials ∉ (l.filterMap started?).map (·.1) := by
    intro hmem
    obtain ⟨x, hx, heq⟩ := List.mem_map.mp hmem
    exact Nat.ne_of_lt (h.below x hx) heq
  have hcoherent : Coherent (.joined v c.serials :: .started c.serials key :: l) :=
    (h.coherent.started hnew hstanding fun hmem => h.shut hmem ho).cons rfl (fun _ _ h => nomatch h) fun _ _ _ h =>
      nomatch h
  -- a start and a join say nothing of ends
  have hended {s : Nat} {r : Except Failure Artifact}
      (hl : .ended s r ∈ Record.joined v c.serials :: .started c.serials key :: l) : .ended s r ∈ l :=
    (List.mem_cons.mp ((List.mem_cons.mp hl).resolve_left nofun)).resolve_left nofun
  have hflights (b : Build Nat) (hb : b ∈ c'.inFlight) :
      Flying (.joined v c.serials :: .started c.serials key :: l) b := by
    rw [hflying] at hb
    rcases List.mem_append.mp hb with hb | hb
    · exact (h.flying hb).mono (fun _ hr => .tail _ (.tail _ hr)) fun _ => hended
    · obtain rfl := List.mem_singleton.mp hb
      exact ⟨.head _, fun u hu => List.mem_singleton.mp hu ▸ .head _, fun r hr => hnew (h.begun _ r (hended hr))⟩
  refine { hcoherent with
    sound := hsound
    entries := ?_
    texts := ?_
    below := fun x hx => ?_
    shut := fun hl => ?_
    flights := fun b hb => (hflights b hb).started
    waiters := fun b hb => (hflights b hb).joined
    aloft := fun b hb => (hflights b hb).aloft
    landed := fun e he p hp => ?_
    failed := fun s f hl e he => ?_
    builds := ?_ }
  · rw [hentries, List.map_append, h.entries]
    rfl
  · rw [hentries, List.map_append]
    refine h.texts.append (List.nodup_singleton _) fun t ht ht' => htext ?_
    have heq : t = key.text := List.mem_singleton.mp ht'
    exact heq ▸ ht
  · rw [hc.serials]
    rcases List.mem_cons.mp hx with rfl | hx
    · exact Nat.lt_succ_self _
    · exact Nat.lt_succ_of_lt (h.below x hx)
  · exact absurd ho (h.shut ((List.mem_cons.mp ((List.mem_cons.mp hl).resolve_left nofun)).resolve_left nofun))
  · rw [hentries] at he
    rcases List.mem_append.mp he with he | he
    · exact (h.landed e he p hp).imp fun _ hmem => .tail _ (.tail _ hmem)
    · rw [List.mem_singleton] at he
      subst he
      cases hp
  · rw [hentries] at he
    rcases List.mem_append.mp he with he | he
    · exact h.failed s f (hended hl) e he
    · rw [List.mem_singleton] at he
      subst he
      rintro rfl
      exact hnew (h.begun _ _ (hended hl))
  · have hstarted : (Record.joined v c.serials :: .started c.serials key :: l).filterMap started? =
        (c.serials, key) :: l.filterMap started? := rfl
    rw [hbuilds, hstarted, List.countP_cons, hc.library, h.builds]

/-- All entries are dropped, and that is written down; builds in flight may lose who waits for them. -/
theorem sweep (h : Traced c l) {r : Record} (hr : r = .cleared ∨ r = .closed) (hs : c'.Sound) (he : c'.entries = [])
    (hc : r = .closed ∨ c.closing ≠ none → c'.closing ≠ none) (hserials : c'.serials = c.serials)
    (hbuilds : c'.builds = c.builds) (hlibrary : c'.library = c.library)
    (hflight : ∀ b ∈ c'.inFlight, ∃ b₀ ∈ c.inFlight, b.serial = b₀.serial ∧ b.key = b₀.key ∧
      b.waiters ⊆ b₀.waiters) :
    Traced c' (r :: l) := by
  have hnone : r.started? = none := by rcases hr with rfl | rfl <;> rfl
  have hstarted : (r :: l).filterMap started? = l.filterMap started? := List.filterMap_cons_none hnone
  have hkept (r' : Record) (h₁ : r' ≠ .cleared) (h₂ : r' ≠ .closed) : r ≠ r' := by
    rintro rfl
    exact hr.elim h₁ h₂
  have hcoherent : Coherent (r :: l) :=
    h.coherent.cons hnone (fun s r' => hkept (.ended s r') nofun nofun) fun v s r' =>
      hkept (.settled v s r') nofun nofun
  have hflying (b : Build Nat) (hb : b ∈ c'.inFlight) : Flying (r :: l) b := by
    obtain ⟨b₀, hb₀, hserial, hkey, hw⟩ := hflight b hb
    exact ((h.flying hb₀).rejoin hserial hkey fun v hv => .inl (hw hv)).mono (List.subset_cons_self ..) fun r' hl =>
      (List.mem_cons.mp hl).resolve_left (hkept (.ended b.serial r') nofun nofun).symm
  exact { hcoherent with
    sound := hs
    entries := by
      rw [he]
      rcases hr with rfl | rfl <;> rfl
    texts := by rw [he]; exact List.nodup_nil
    below := by rw [hstarted, hserials]; exact h.below
    shut := fun hl => hc ((List.mem_cons.mp hl).imp Eq.symm h.shut)
    flights := fun b hb => (hflying b hb).started
    waiters := fun b hb => (hflying b hb).joined
    aloft := fun b hb => (hflying b hb).aloft
    landed := fun e hmem => absurd hmem (by simp [he])
    failed := fun s f hl e hmem => absurd hmem (by simp [he])
    builds := by rw [hbuilds, hstarted, hlibrary]; exact h.builds }

/-- A build leaves. Its entry, if it has one, stays and is now ready, or is dropped. -/
structure Leaves (c : Cache Nat) (s : Nat) (result : Except Failure Artifact) (c' : Cache Nat) : Prop where
  sound : c'.Sound
  inFlight : c'.inFlight = c.inFlight.filter (·.serial != s)
  serials : c'.serials = c.serials
  closing : c'.closing = c.closing
  library : c'.library = c.library
  builds : c'.builds = c.builds
  texts : (c'.entries.map (·.1)).Sublist (c.entries.map (·.1))
  entries : ∀ e ∈ c'.entries, (∃ e₀ ∈ c.entries, e₀.2.serial = e.2.serial) ∧ ∀ p, e.2 = .ready p →
    e ∈ c.entries ∨ p.serial = s
  succeeds : ∀ a, result = .ok a →
    c'.entries.map (fun e => (e.2.serial, e.1)) = c.entries.map fun e => (e.2.serial, e.1)
  fails : ∀ f, result = .error f → c'.entries.map (fun e => (e.2.serial, e.1)) =
    (c.entries.map fun e => (e.2.serial, e.1)).filter (·.1 != s)

/-- The end of a build is written down, with the requests that it answers. -/
theorem land (h : Traced c l) {s : Nat} {b : Build Nat} (hb : b ∈ c.inFlight) (hs : b.serial = s)
    {result : Except Failure Artifact} (hc : Leaves c s result c') {answers : List (Nat × Except Failure Pipeline)}
    (ha : ∀ a ∈ answers, a.1 ∈ b.waiters ∧ a.2 = result.map (⟨s, b.key, ·⟩)) :
    Traced c' (answers.map (fun a => .settled a.1 s a.2) ++ .ended s result :: l) := by
  have hflown := h.flying hb
  subst hs
  have hbegun : b.serial ∈ (l.filterMap started?).map (·.1) := List.mem_map_of_mem hflown.started
  have hcoherent : Coherent (answers.map (fun a => .settled a.1 b.serial a.2) ++ .ended b.serial result :: l) :=
    (h.coherent.ended hbegun hflown.aloft result).answered hflown.started (.head _) fun a hmem =>
      ⟨.tail _ (hflown.joined _ (ha a hmem).1), (ha a hmem).2⟩
  have haside : ∀ r ∈ answers.map fun a => Record.settled a.1 b.serial a.2, r.Aside := by
    intro r hr
    obtain ⟨a, -, rfl⟩ := List.mem_map.mp hr
    trivial
  -- from here on the answers matter only as records that are aside
  generalize answers.map (fun a => Record.settled a.1 b.serial a.2) = news at *
  have hstarted : (news ++ .ended b.serial result :: l).filterMap started? = l.filterMap started? :=
    started_append (fun r hr => (haside r hr).not_started) _
  have hmem {r : Record} (hr : r ∈ news ++ .ended b.serial result :: l) (hside : ¬r.Aside) :
      r = .ended b.serial result ∨ r ∈ l :=
    (List.mem_append.mp hr).elim (fun hr => absurd (haside r hr) hside) List.mem_cons.mp
  have hold {r : Record} (hr : r ∈ l) : r ∈ news ++ .ended b.serial result :: l :=
    List.mem_append_right _ (.tail _ hr)
  have hflying (b' : Build Nat) (hb' : b' ∈ c'.inFlight) : Flying (news ++ .ended b.serial result :: l) b' := by
    rw [hc.inFlight] at hb'
    obtain ⟨hb', hne⟩ := List.mem_filter.mp hb'
    refine (h.flying hb').mono (fun _ => hold) fun r hr => (hmem hr nofun).resolve_left fun heq => ?_
    exact bne_iff_ne.mp hne (Record.ended.inj heq).1
  refine { hcoherent with
    sound := hc.sound
    entries := ?_
    texts := h.texts.sublist hc.texts
    below := by rw [hstarted, hc.serials]; exact h.below
    shut := fun hl => by rw [hc.closing]; exact h.shut ((hmem hl nofun).resolve_left nofun)
    flights := fun b' hb' => (hflying b' hb').started
    waiters := fun b' hb' => (hflying b' hb').joined
    aloft := fun b' hb' => (hflying b' hb').aloft
    landed := fun e he p hp => ?_
    failed := fun s f hl e he => ?_
    builds := by rw [hc.builds, hstarted, hc.library]; exact h.builds }
  · rw [standing_append haside]
    cases result with
    | ok a =>
      rw [hc.succeeds a rfl, h.entries]
      rfl
    | error f =>
      rw [hc.fails f rfl, h.entries]
      rfl
  · rcases (hc.entries e he).2 p hp with he | heq
    · exact (h.landed e he p hp).imp fun _ => hold
    · exact ⟨result, heq ▸ List.mem_append_right _ (.head _)⟩
  · obtain ⟨⟨e₀, he₀, hserial⟩, -⟩ := hc.entries e he
    rcases hmem hl nofun with heq | hl
    · obtain ⟨rfl, rfl⟩ := Record.ended.inj heq
      have hkept := List.mem_map_of_mem (f := fun e : String × CacheEntry => (e.2.serial, e.1)) he
      rw [hc.fails f rfl] at hkept
      exact bne_iff_ne.mp (List.mem_filter.mp hkept).2
    · rw [← hserial]
      exact h.failed s f hl e₀ he₀

theorem promote_texts (c : Cache Nat) (s : Nat) (p : Pipeline) :
    (c.promote s p).entries.map (·.1) = c.entries.map (·.1) := by
  unfold promote
  rw [List.map_map]
  refine List.map_congr_left fun e _ => ?_
  dsimp only [Function.comp]
  split <;> rfl

theorem promote_keys (c : Cache Nat) (p : Pipeline) :
    (c.promote p.serial p).entries.map (fun e => (e.2.serial, e.1)) = c.entries.map fun e => (e.2.serial, e.1) := by
  unfold promote
  rw [List.map_map]
  refine List.map_congr_left fun e _ => ?_
  dsimp only [Function.comp]
  split
  · rename_i heq
    rw [heq]
    rfl
  · rfl

def without (c : Cache Nat) (s : Nat) : Cache Nat := { c with inFlight := c.inFlight.filter (·.serial != s) }

theorem leaves_detached {s : Nat} {result : Except Failure Artifact} (hs : (without c s).Sound)
    (hf : ∀ f, result = .error f → c.entries = []) : Leaves c s result (without c s) :=
  ⟨hs, rfl, rfl, rfl, rfl, rfl, List.Sublist.refl _, fun e he => ⟨⟨e, he, rfl⟩, fun _ _ => .inl he⟩, fun _ _ => rfl,
    fun f hr => by simp [without, hf f hr]⟩

theorem leaves_ready {s : Nat} {p : Pipeline} (hp : p.serial = s) (artifact : Artifact)
    (hs : ((without c s).promote s p).Sound) : Leaves c s (.ok artifact) ((without c s).promote s p) := by
  subst hp
  refine ⟨hs, rfl, rfl, rfl, rfl, rfl, ?_, fun e he => ?_, fun _ _ => ?_, ?_⟩
  · rw [promote_texts]
    exact List.Sublist.refl _
  · obtain ⟨e₀, he₀, rfl⟩ := List.mem_map.mp he
    split
    · rename_i heq
      refine ⟨⟨e₀, he₀, by rw [heq]; rfl⟩, fun p' hp => .inr ?_⟩
      rw [← CacheEntry.ready.inj hp]
    · exact ⟨⟨e₀, he₀, rfl⟩, fun p hp => .inl he₀⟩
  · exact promote_keys (without c p.serial) p
  · intro failure hf
    cases hf

/-- A ready entry is of a build that has ended, so not of one in flight. -/
theorem building_iff (h : Traced c l) {b : Build Nat} (hb : b ∈ c.inFlight) {e : String × CacheEntry}
    (he : e ∈ c.entries) : e.2 = .building b.serial ↔ e.2.serial = b.serial := by
  obtain ⟨t, entry⟩ := e
  cases entry with
  | building s => simp [CacheEntry.serial]
  | ready p =>
    obtain ⟨r, hr⟩ := h.landed _ he p rfl
    refine ⟨nofun, fun hp => ?_⟩
    have hp : p.serial = b.serial := hp
    exact absurd (hp ▸ hr) (h.aloft b hb r)

theorem leaves_failed (h : Traced c l) {b : Build Nat} (hb : b ∈ c.inFlight) (failure : Failure)
    (hs : ((without c b.serial).forget b.serial).Sound) :
    Leaves c b.serial (.error failure) ((without c b.serial).forget b.serial) := by
  refine ⟨hs, rfl, rfl, rfl, rfl, rfl, List.filter_sublist.map _, fun e he => ?_, ?_, fun _ _ => ?_⟩
  · have he := (List.mem_filter.mp he).1
    exact ⟨⟨e, he, rfl⟩, fun _ _ => .inl he⟩
  · intro artifact hok
    cases hok
  · show (c.entries.filter fun e => e.2 ≠ .building b.serial).map _ = _
    rw [List.filter_map]
    refine congrArg _ (List.filter_congr fun e he => ?_)
    rw [Bool.eq_iff_iff, decide_eq_true_iff, Ne, h.building_iff hb he]
    exact bne_iff_ne.symm

theorem finish (h : Traced c l) (s : Nat) (result : Except Failure Artifact) {b : Build Nat}
    (hb : c.inFlight.find? (·.serial == s) = some b) :
    Traced (c.finish s result).2
      ((c.finish s result).1.answers.map (fun a => .settled a.1 s a.2) ++ .ended s result :: l) := by
  have hmem := List.mem_of_find?_eq_some hb
  have hserial : b.serial = s := by simpa using List.find?_some hb
  have hsound := h.sound.finish s result
  have hanswers (r : Except Failure Pipeline) (hr : r = result.map (⟨s, b.key, ·⟩)) :
      ∀ a ∈ b.waiters.map (·, r), a.1 ∈ b.waiters ∧ a.2 = result.map (⟨s, b.key, ·⟩) := by
    intro a ha
    obtain ⟨v, hv, rfl⟩ := List.mem_map.mp ha
    exact ⟨hv, hr⟩
  unfold Cache.finish at hsound ⊢
  simp only [hb] at hsound ⊢
  split
  · rename_i hclosed
    simp only [hclosed, if_true] at hsound
    have hshut : c.entries = [] := h.sound.shut fun hn => by simp [hn] at hclosed
    exact h.land hmem hserial (leaves_detached hsound fun _ _ => hshut) fun a ha => absurd ha List.not_mem_nil
  · rename_i hopen
    simp only [hopen] at hsound
    cases result with
    | ok artifact =>
      dsimp only at hsound ⊢
      split
      · rename_i hepoch
        rw [if_pos hepoch] at hsound
        exact h.land hmem hserial (leaves_ready (p := ⟨s, b.key, artifact⟩) rfl artifact hsound) (hanswers _ rfl)
      · rename_i hepoch
        rw [if_neg hepoch] at hsound
        have hleaves : Leaves c s (.ok artifact) (without c s) := leaves_detached hsound fun f hf => by cases hf
        exact h.land hmem hserial hleaves (hanswers _ rfl)
    | error failure =>
      subst hserial
      exact h.land hmem rfl (h.leaves_failed hmem failure hsound) (hanswers _ rfl)

theorem step {ν α : Type} {w : Workshop} (h : Traced w.cache w.record) (e : Event ν α) :
    Traced (w.step e).cache (w.step e).record := by
  cases e with
  | request key device =>
    show Traced (w.receive key device (w.cache.request key w.asked)).cache
      (w.receive key device (w.cache.request key w.asked)).record
    cases hclosing : w.cache.closing with
    | some closing =>
      have hrequest : w.cache.request key w.asked = (.refused closing.failure, w.cache) := by
        simp [Cache.request, hclosing]
      rw [hrequest]
      exact h
    | none =>
      cases hentry : w.cache.entry? key.text with
      | none =>
        -- a request starts a build only where the cache is open and has no entry
        have hlaunch := h.launch hclosing hentry w.asked device
        have hrequest : w.cache.request key w.asked =
            (.started w.cache.serials, (w.cache.request key w.asked).2) := by
          simp [Cache.request, hclosing, hentry]
        rw [hrequest]
        exact hlaunch
      | some entry =>
        cases entry with
        | ready p =>
          have hrequest : w.cache.request key w.asked = (.ready p, w.cache) := by
            simp [Cache.request, hclosing, hentry]
          rw [hrequest]
          exact h
        | building serial =>
          have hrequest : w.cache.request key w.asked = (.joined, w.cache.join serial w.asked) := by
            simp [Cache.request, hclosing, hentry]
          rw [hrequest]
          unfold Workshop.receive
          rw [hentry]
          exact h.join serial w.asked
  | clear =>
    exact h.sweep (.inl rfl) h.sound.clear rfl (fun hc => hc.resolve_left nofun) rfl rfl rfl
      fun b hb => ⟨b, hb, rfl, rfl, List.Subset.refl _⟩
  | close closing =>
    refine h.sweep (.inr rfl) (h.sound.close closing) rfl (fun _ => Option.some_ne_none closing) rfl rfl rfl
      fun b hb => ?_
    obtain ⟨b₀, hb₀, rfl⟩ := List.mem_map.mp hb
    refine ⟨b₀, hb₀, ?_⟩
    split
    · exact ⟨rfl, rfl, List.nil_subset _⟩
    · exact ⟨rfl, rfl, List.Subset.refl _⟩
  | finish serial result =>
    show Traced (w.finish serial result).cache (w.finish serial result).record
    unfold Workshop.finish
    split
    · rename_i hany
      obtain ⟨b, hb⟩ := Option.isSome_iff_exists.mp (List.find?_isSome.mpr (List.any_eq_true.mp hany))
      exact h.finish serial result hb
    · exact h

theorem run {ν α : Type} {w : Workshop} (h : Traced w.cache w.record) (events : List (Event ν α)) :
    Traced (w.run events).cache (w.run events).record := by
  induction events generalizing w with
  | nil => exact h
  | cons e events ih => exact ih (h.step e)

end Traced

/-- The end of a build without an entry changes no entry. -/
theorem finish_entries {c : Cache Nat} {s : Nat} (hs : ∀ e ∈ c.entries, e.2.serial ≠ s)
    (result : Except Failure Artifact) : (c.finish s result).2.entries = c.entries := by
  have hnone (e : String × CacheEntry) (he : e ∈ c.entries) : e.2 ≠ .building s := fun heq =>
    hs e he (by rw [heq]; rfl)
  unfold Cache.finish
  split
  · rfl
  · dsimp only
    split
    · rfl
    · split
      · dsimp only
        split
        · exact (List.map_congr_left fun e he => if_neg (hnone e he)).trans (List.map_id _)
        · rfl
      · exact List.filter_eq_self.mpr fun e he => by simpa using hnone e he

theorem library_step {ν α : Type} (w : Workshop) (e : Event ν α) : (w.step e).cache.library = w.cache.library := by
  cases e with
  | request key device =>
    have hcompile := (compile_compiles (w.cache.request key w.asked).2 device key).library
    have hrequest : (w.cache.request key w.asked).2.library = w.cache.library := by
      unfold Cache.request
      split
      · rfl
      · split <;> rfl
    show (w.receive key device (w.cache.request key w.asked)).cache.library = w.cache.library
    generalize w.cache.request key w.asked = r at *
    obtain ⟨reply, c⟩ := r
    cases reply with
    | started serial => exact hcompile.trans hrequest
    | joined => exact hrequest
    | ready p => exact hrequest
    | refused failure => exact hrequest
  | clear => rfl
  | close closing => rfl
  | finish serial result =>
    show (w.finish serial result).cache.library = w.cache.library
    unfold Workshop.finish
    split
    · show (w.cache.finish serial result).2.library = w.cache.library
      unfold Cache.finish
      split
      · rfl
      · dsimp only
        split
        · rfl
        · split
          · dsimp only
            split <;> rfl
          · rfl
    · rfl

theorem library_run {ν α : Type} (w : Workshop) (events : List (Event ν α)) :
    (w.run events).cache.library = w.cache.library := by
  induction events generalizing w with
  | nil => rfl
  | cons e events ih => exact (ih (w.step e)).trans (library_step w e)

theorem entry_of_failed {c : Cache Nat} {l : List Record} (h : Traced c l) {text : String} {s : Nat}
    (hs : c.entry? text = some (.building s)) (failure : Failure) :
    Cache.entry? (c.finish s (.error failure)).2 text = none := by
  obtain ⟨l₁, l₂, heq, -⟩ := List.lookup_eq_some_iff.mp hs
  have hmem : (text, CacheEntry.building s) ∈ c.entries := by rw [heq]; simp
  have hopen : c.closing = none := by
    by_contra hne
    rw [h.sound.shut hne] at hmem
    exact List.not_mem_nil hmem
  obtain ⟨b, hb, hserial⟩ := List.mem_map.mp (h.sound.flying s (attached_of_entry hs))
  obtain ⟨b', hb'⟩ := Option.isSome_iff_exists.mp
    (List.find?_isSome (p := (·.serial == s)) |>.mpr ⟨b, hb, beq_iff_eq.mpr hserial⟩)
  have hentries : (c.finish s (.error failure)).2.entries = c.entries.filter fun e => e.2 ≠ .building s := by
    unfold Cache.finish
    rw [hb']
    simp [hopen, forget]
  unfold Cache.entry?
  rw [hentries, List.lookup_eq_none_iff]
  intro e he
  obtain ⟨he, hne⟩ := List.mem_filter.mp he
  refine bne_iff_ne.mpr fun htext => ?_
  -- Two entries of one text are the same entry.
  have hsame : e = (text, .building s) := List.inj_on_of_nodup_map h.texts he hmem htext.symm
  exact of_decide_eq_true hne (by rw [hsame])

/-- Builds are started one at a time for each key text, unless the last one failed or was cleared away; those who
joined a build are answered alike when it ends; a failed build leaves no entry; a build that was in flight when the
cache was cleared or closed has no entry and changes none when it ends; and the cache counts the builds of keys that
its library serves. -/
theorem single_flight {ν α : Type} (library : Library) (events : List (Event ν α)) :
    let w := Workshop.run { cache := { library } } events
    (w.cache.entries.map (·.1)).Nodup ∧
      (∀ later between earlier s s' key key',
        w.record = later ++ .started s' key' :: (between ++ .started s key :: earlier) → key'.text = key.text →
        .cleared ∈ between ∨ ∃ failure, .ended s (.error failure) ∈ between) ∧
      (∀ v v' s r r', .settled v s r ∈ w.record → .settled v' s r' ∈ w.record →
        .joined v s ∈ w.record ∧ .joined v' s ∈ w.record ∧ r = r') ∧
      (∀ s failure, .ended s (.error failure) ∈ w.record → ∀ e ∈ w.cache.entries, e.2.serial ≠ s) ∧
      (∀ text s failure, w.cache.entry? text = some (.building s) →
        Cache.entry? (w.cache.finish s (.error failure)).2 text = none) ∧
      (∀ later s key earlier, w.record = later ++ .started s key :: earlier → .cleared ∈ later ∨ .closed ∈ later →
        (∀ e ∈ w.cache.entries, e.2.serial ≠ s) ∧
          ∀ result, (w.cache.finish s result).2.entries = w.cache.entries) ∧
      w.cache.builds = (w.record.filterMap started?).countP fun x => (library.resolve x.2).isSome := by
  intro w
  have h : Traced w.cache w.record := (Traced.start library).run events
  have hlibrary : w.cache.library = library := library_run _ events
  refine ⟨h.texts, fun later between earlier s s' key key' heq htext => ?_, fun v v' s r r' hr hr' => ?_, h.failed,
    fun text s failure hs => entry_of_failed h hs failure,
      fun later s key earlier heq hswept => ?_, hlibrary ▸ h.builds⟩
  · obtain ⟨hfresh, hclosed⟩ := h.fresh later s' key' _ heq
    by_contra hnot
    obtain ⟨hclear, hfail⟩ := not_or.mp hnot
    have hstanding := @standing_of_started s key _ earlier hclear
      (fun hmem => hclosed (List.mem_append_left _ hmem)) fun failure hmem => hfail ⟨failure, hmem⟩
    exact hfresh (htext ▸ List.mem_map_of_mem hstanding)
  · obtain ⟨hj, key, result, hstart, hend, rfl⟩ := h.settled v s r hr
    obtain ⟨hj', key', result', hstart', hend', rfl⟩ := h.settled v' s r' hr'
    have hkey : (s, key) = (s, key') := List.inj_on_of_nodup_map h.starts hstart hstart' rfl
    rw [h.ends s result result' hend hend', (Prod.mk.inj hkey).2]
    exact ⟨hj, hj', rfl⟩
  · have hgone : ∀ e ∈ w.cache.entries, e.2.serial ≠ s := by
      intro e he hs
      have hnot := not_standing_of_swept (heq ▸ h.starts) hswept
      rw [← heq, ← h.entries] at hnot
      exact hnot (List.mem_map.mpr ⟨_, List.mem_map_of_mem he, hs⟩)
    exact ⟨hgone, finish_entries hgone⟩

/-- Two builds of one key overlap across a clear; the older fails after the newer has started. -/
def overlapping : List (Event Int Unit) :=
  let key : PipelineKey := ⟨"screen", "srgb", "rgba8unorm"⟩
  let device : Device Int Unit := { limits := .standard }
  [.request key device, .clear, .request key device, .request key device, .finish 0 (.error (.of .deviceLost)),
    .finish 1 (.ok ⟨"Blend screen/srgb/rgba8unorm", .blend .screen .srgb .unorm8⟩)]

/-- The two requests after the clear share a pipeline, and the older build does not change what has an entry. -/
theorem single_flight_overlapping :
    let w := Workshop.run { cache := {} } overlapping
    (∃ p, .settled 1 1 (.ok p) ∈ w.record ∧ .settled 2 1 (.ok p) ∈ w.record ∧
      ∀ v r, .settled v 1 r ∈ w.record → r = .ok p) ∧
      .ended 0 (.error (.of .deviceLost)) ∈ w.record ∧ w.cache.builds = 2 ∧
      ∀ e ∈ w.cache.entries, e.2.serial ≠ 0 := by
  intro w
  obtain ⟨-, -, hsettled, hfailed, -⟩ := single_flight .full overlapping
  have hfirst : .settled 1 1 (.ok ⟨1, ⟨"screen", "srgb", "rgba8unorm"⟩, ⟨"Blend screen/srgb/rgba8unorm",
    .blend .screen .srgb .unorm8⟩⟩) ∈ w.record := .head _
  have hsecond : .settled 2 1 (.ok ⟨1, ⟨"screen", "srgb", "rgba8unorm"⟩, ⟨"Blend screen/srgb/rgba8unorm",
    .blend .screen .srgb .unorm8⟩⟩) ∈ w.record := .tail _ (.head _)
  have hended : .ended 0 (.error (.of .deviceLost)) ∈ w.record := .tail _ (.tail _ (.tail _ (.tail _ (.head _))))
  exact ⟨⟨_, hfirst, hsecond, fun v r hr => (hsettled v 1 1 r _ hr hfirst).2.2⟩, hended, rfl, hfailed 0 _ hended⟩

end Cache

end Strata
