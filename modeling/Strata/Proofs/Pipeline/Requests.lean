import Mathlib.Data.List.Induction
import Mathlib.Data.List.Nodup
import Strata.Pipeline.Cache

/-!
# Requests to the pipeline cache

Requests are numbered in the order in which they are made, and a desk keeps the answers that were
given. `Desk.tally` counts a request among the answers and among those who wait. It is one for every
request that was made, until a build ends after the cache was closed: the build then answers nobody.
Closing refuses all who wait on a build that has an entry, so the only requests that are never
answered are those whose build was detached by a clear and is still in flight when the cache is closed
(`requests_answered`).
-/

namespace Strata.Cache

/-- What happens to a cache: a request, a clear, a close, or the end of a build. -/
inductive Step
  | request (key : PipelineKey)
  | clear
  | close (closing : Closing)
  | finish (serial : Nat) (result : Except Failure Artifact)

/-- A cache, the requests made so far, and the answers given. -/
structure Desk where
  cache : Cache Nat
  asked : Nat := 0
  answers : List (Nat × Except Failure Pipeline) := []

def now? : Reply → Option (Except Failure Pipeline)
  | .refused failure => some (.error failure)
  | .ready pipeline => some (.ok pipeline)
  | .joined | .started _ => none

namespace Desk

def step (d : Desk) : Step → Desk
  | .request key =>
    ⟨(d.cache.request key d.asked).2, d.asked + 1,
      d.answers ++ (now? (d.cache.request key d.asked).1).toList.map (d.asked, ·)⟩
  | .clear => { d with cache := d.cache.clear }
  | .close closing =>
    ⟨(d.cache.close closing).2, d.asked, d.answers ++ (d.cache.close closing).1.map (·, .error closing.failure)⟩
  | .finish serial result =>
    ⟨(d.cache.finish serial result).2, d.asked, d.answers ++ (d.cache.finish serial result).1.answers⟩

def run (d : Desk) (steps : List Step) : Desk := steps.foldl step d

theorem run_append (d : Desk) (steps steps' : List Step) : d.run (steps ++ steps') = (d.run steps).run steps' :=
  List.foldl_append

theorem run_cons (d : Desk) (s : Step) (steps : List Step) : d.run (s :: steps) = (d.step s).run steps := rfl

def Waits (d : Desk) (w : Nat) : Prop := ∃ b ∈ d.cache.inFlight, w ∈ b.waiters

def Answered (d : Desk) (w : Nat) : Prop := w ∈ d.answers.map (·.1)

/-- How often a request is waiting or has been answered. -/
def tally (d : Desk) (w : Nat) : Nat :=
  (d.answers.map (·.1)).count w + (d.cache.inFlight.flatMap (·.waiters)).count w

theorem waits_iff {d : Desk} {w : Nat} : d.Waits w ↔ 0 < (d.cache.inFlight.flatMap (·.waiters)).count w := by
  rw [List.count_pos_iff, List.mem_flatMap]; rfl

theorem answered_iff {d : Desk} {w : Nat} : d.Answered w ↔ 0 < (d.answers.map (·.1)).count w := by
  rw [List.count_pos_iff]; rfl

end Desk

/-! ## Waiters of some builds -/

section
variable {W : Type} {l : List (Build W)}

/-- A request that joins a build waits once more, if there is just one build of that serial number. -/
theorem waiters_join (hn : (l.map (·.serial)).Nodup) {s : Nat} (hs : s ∈ l.map (·.serial)) (w : W) :
    ((l.map fun b => if b.serial = s then { b with waiters := b.waiters ++ [w] } else b).flatMap (·.waiters)).Perm
      (l.flatMap (·.waiters) ++ [w]) := by
  induction l with
  | nil => cases hs
  | cons b l ih =>
    obtain ⟨hb, hn⟩ := List.nodup_cons.mp hn
    rw [List.map_cons, List.flatMap_cons, List.flatMap_cons, List.append_assoc]
    by_cases he : b.serial = s
    · subst he
      have hrest : (l.map fun c => if c.serial = b.serial then { c with waiters := c.waiters ++ [w] } else c) =
          l := by
        refine (List.map_congr_left fun c hc => if_neg ?_).trans (List.map_id l)
        exact fun h => hb (List.mem_map.mpr ⟨c, hc, h⟩)
      rw [hrest, if_pos rfl, List.append_assoc]
      exact List.perm_append_comm.append_left _
    · rw [if_neg he]
      rcases List.mem_cons.mp hs with h | h
      · exact absurd h.symm he
      · exact (ih hn h).append_left _

theorem serials_join (c : Cache W) (s : Nat) (w : W) :
    (c.join s w).inFlight.map (·.serial) = c.inFlight.map (·.serial) := by
  unfold Cache.join
  rw [List.map_map]
  refine List.map_congr_left fun b _ => ?_
  dsimp only [Function.comp]
  split <;> rfl

theorem perm_of_find (hn : (l.map (·.serial)).Nodup) {s : Nat} {b : Build W}
    (hb : l.find? (·.serial == s) = some b) : l.Perm (b :: l.filter (·.serial != s)) := by
  induction l with
  | nil => cases hb
  | cons c l ih =>
    obtain ⟨hc, hn⟩ := List.nodup_cons.mp hn
    rw [List.filter_cons]
    rw [List.find?_cons] at hb
    by_cases he : c.serial = s
    · subst he
      simp only [beq_self_eq_true, Option.some.injEq] at hb
      subst hb
      have hrest : l.filter (·.serial != c.serial) = l := by
        refine List.filter_eq_self.mpr fun b hb => ?_
        simp only [bne_iff_ne, ne_eq]
        exact fun h => hc (List.mem_map.mpr ⟨b, hb, h⟩)
      simp [hrest]
    · simp only [beq_eq_false_iff_ne.mpr he] at hb
      simp only [bne_iff_ne, ne_eq, he, not_false_eq_true, if_true]
      exact ((ih hn hb).cons c).trans (.swap b c _)

end

variable {l : List (Build Nat)}

theorem count_join (hn : (l.map (·.serial)).Nodup) {s : Nat} (hs : s ∈ l.map (·.serial)) (w v : Nat) :
    ((l.map fun b => if b.serial = s then { b with waiters := b.waiters ++ [v] } else b).flatMap
        (·.waiters)).count w =
      (l.flatMap (·.waiters)).count w + if w = v then 1 else 0 := by
  rw [(waiters_join hn hs v).count_eq, List.count_append, List.count_singleton]
  simp only [beq_iff_eq, eq_comm (a := v)]

/-- The waiters of a build and those of the others are all that wait. -/
theorem count_finish (hn : (l.map (·.serial)).Nodup) {s : Nat} {b : Build Nat}
    (hb : l.find? (·.serial == s) = some b) (w : Nat) :
    (l.flatMap (·.waiters)).count w =
      b.waiters.count w + ((l.filter (·.serial != s)).flatMap (·.waiters)).count w := by
  rw [((perm_of_find hn hb).flatMap_right _).count_eq, List.flatMap_cons, List.count_append]

/-- Builds of some serial numbers lose their waiters. -/
def silence (attached : List Nat) (b : Build Nat) : Build Nat :=
  if b.serial ∈ attached then { b with waiters := [] } else b

theorem count_silence_cons {s : Nat} {rest : List Nat} (hs : s ∉ rest) (w : Nat) :
    ((l.filter (·.serial == s)).flatMap (·.waiters)).count w +
      ((l.map (silence (s :: rest))).flatMap (·.waiters)).count w =
      ((l.map (silence rest)).flatMap (·.waiters)).count w := by
  induction l with
  | nil => rfl
  | cons b l ih =>
    rw [List.map_cons, List.map_cons, List.flatMap_cons, List.flatMap_cons, List.count_append, List.count_append,
      List.filter_cons, ← ih]
    by_cases he : b.serial = s
    · have h₁ : silence (s :: rest) b = { b with waiters := [] } := by simp [silence, he]
      have h₂ : silence rest b = b := by simp [silence, he, hs]
      rw [h₁, h₂, if_pos (beq_iff_eq.mpr he), List.flatMap_cons, List.count_append, List.count_nil]
      omega
    · have h : silence (s :: rest) b = silence rest b := by simp [silence, he]
      rw [h, if_neg fun h => he (beq_iff_eq.mp h)]
      omega

theorem count_close {attached : List Nat} (hn : attached.Nodup) (w : Nat) :
    (attached.flatMap fun s => (l.filter (·.serial == s)).flatMap (·.waiters)).count w +
      ((l.map (silence attached)).flatMap (·.waiters)).count w = (l.flatMap (·.waiters)).count w := by
  induction attached with
  | nil =>
    have : l.map (silence []) = l := by
      refine (List.map_congr_left fun b _ => ?_).trans (List.map_id l)
      exact if_neg List.not_mem_nil
    rw [this]
    simp
  | cons s rest ih =>
    obtain ⟨hs, hn⟩ := List.nodup_cons.mp hn
    rw [List.flatMap_cons, List.count_append, ← ih hn, ← count_silence_cons hs]
    omega

/-! ## The invariant -/

section
variable {W : Type}

/-- The builds in flight that have an entry. -/
def attached (c : Cache W) : List Nat := c.entries.filterMap fun e => match e.2 with
  | .building serial => some serial
  | .ready _ => none

theorem mem_attached {c : Cache W} {s : Nat} : s ∈ c.attached ↔ ∃ id, (id, CacheEntry.building s) ∈ c.entries := by
  unfold attached
  rw [List.mem_filterMap]
  constructor
  · rintro ⟨⟨id, entry⟩, he, h⟩
    cases entry with
    | building s' => cases h; exact ⟨id, he⟩
    | ready p => cases h
  · rintro ⟨id, he⟩
    exact ⟨_, he, rfl⟩

theorem attached_promote (c : Cache W) (s : Nat) (p : Pipeline) :
    (c.promote s p).attached = c.attached.filter (· != s) := by
  unfold attached promote
  induction c.entries with
  | nil => rfl
  | cons e l ih =>
    obtain ⟨id, entry⟩ := e
    simp only [List.map_cons, List.filterMap_cons] at ih ⊢
    cases entry with
    | ready q => simpa using ih
    | building s' =>
      by_cases h : s' = s
      · simpa [h] using ih
      · simpa [h] using ih

theorem attached_forget (c : Cache W) (s : Nat) : (c.forget s).attached = c.attached.filter (· != s) := by
  unfold attached forget
  induction c.entries with
  | nil => rfl
  | cons e l ih =>
    obtain ⟨id, entry⟩ := e
    simp only [List.filter_cons, List.filterMap_cons] at ih ⊢
    cases entry with
    | ready q => simpa using ih
    | building s' =>
      by_cases h : s' = s
      · simpa [h] using ih
      · simpa [h] using ih

end

/-- Builds in flight have serial numbers of their own. Those that started since the last clear are the
ones that have an entry. -/
structure Sound (c : Cache Nat) : Prop where
  serials : (c.inFlight.map (·.serial)).Nodup
  below : ∀ b ∈ c.inFlight, b.serial < c.serials
  old : ∀ b ∈ c.inFlight, b.epoch ≤ c.epoch
  attached : ∀ b ∈ c.inFlight, b.serial ∈ c.attached ↔ b.epoch = c.epoch
  flying : ∀ s ∈ c.attached, s ∈ c.inFlight.map (·.serial)
  distinct : c.attached.Nodup
  shut : c.closing ≠ none → c.entries = []

theorem attached_of_entry {c : Cache Nat} {id : String} {s : Nat} (h : c.entry? id = some (.building s)) :
    s ∈ c.attached := by
  obtain ⟨l₁, l₂, hl, -⟩ := List.lookup_eq_some_iff.mp h
  exact mem_attached.mpr ⟨id, by rw [hl]; exact List.mem_append_right _ (List.mem_cons_self ..)⟩

/-- Builds that keep their serial number and their epoch. -/
theorem Sound.mapBuilds {c : Cache Nat} (hc : c.Sound) {f : Build Nat → Build Nat}
    (hs : ∀ b, (f b).serial = b.serial) (he : ∀ b, (f b).epoch = b.epoch) :
    Sound { c with inFlight := c.inFlight.map f } where
  serials := by simpa [List.map_map, Function.comp_def, hs] using hc.serials
  below b hb := by
    obtain ⟨a, ha, rfl⟩ := List.mem_map.mp hb
    rw [hs]; exact hc.below a ha
  old b hb := by
    obtain ⟨a, ha, rfl⟩ := List.mem_map.mp hb
    rw [he]; exact hc.old a ha
  attached b hb := by
    obtain ⟨a, ha, rfl⟩ := List.mem_map.mp hb
    rw [hs, he]; exact hc.attached a ha
  flying s h := by simpa [List.map_map, Function.comp_def, hs] using hc.flying s h
  distinct := hc.distinct
  shut := hc.shut

theorem Sound.clear {c : Cache Nat} (hc : c.Sound) : c.clear.Sound where
  serials := hc.serials
  below := hc.below
  old b hb := Nat.le_succ_of_le (hc.old b hb)
  attached b hb := by
    have h := hc.old b hb
    refine ⟨fun h => absurd h List.not_mem_nil, fun h => ?_⟩
    simp only [Cache.clear] at h
    omega
  flying _ h := absurd h List.not_mem_nil
  distinct := List.nodup_nil
  shut _ := rfl

theorem Sound.request {c : Cache Nat} (hc : c.Sound) (key : PipelineKey) (w : Nat) : (c.request key w).2.Sound := by
  unfold Cache.request
  split
  · exact hc
  · rename_i ho
    split
    · exact hc
    · refine hc.mapBuilds (fun b => ?_) fun b => ?_ <;> split <;> rfl
    · -- serial numbers in use lie below the next one
      have hfresh : c.serials ∉ c.inFlight.map (·.serial) := by
        intro h
        obtain ⟨b, hb, he⟩ := List.mem_map.mp h
        exact Nat.lt_irrefl _ (he ▸ hc.below b hb)
      have hatt : Cache.attached { c with
          serials := c.serials + 1
          entries := c.entries ++ [(key.text, .building c.serials)]
          inFlight := c.inFlight ++ [⟨c.serials, key, c.epoch, [w]⟩] } = c.attached ++ [c.serials] := by
        simp [Cache.attached]
      refine ⟨?_, fun b hb => ?_, fun b hb => ?_, fun b hb => ?_, fun s hs => ?_, ?_, fun h => absurd ho h⟩
      · rw [List.map_append]
        refine List.nodup_append.mpr ⟨hc.serials, by simp, fun x hx y hy => ?_⟩
        rw [List.map_singleton, List.mem_singleton] at hy
        rintro rfl
        rw [hy] at hx
        exact hfresh hx
      · rcases List.mem_append.mp hb with hb | hb
        · exact Nat.lt_succ_of_lt (hc.below b hb)
        · rw [List.mem_singleton] at hb; subst hb; exact Nat.lt_succ_self _
      · rcases List.mem_append.mp hb with hb | hb
        · exact hc.old b hb
        · rw [List.mem_singleton] at hb; subst hb; exact Nat.le_refl _
      · rw [hatt, List.mem_append, List.mem_singleton]
        rcases List.mem_append.mp hb with hb | hb
        · rw [hc.attached b hb]
          have hne : b.serial ≠ c.serials := Nat.ne_of_lt (hc.below b hb)
          simp [hne]
        · rw [List.mem_singleton] at hb; subst hb; simp
      · rw [hatt, List.mem_append, List.mem_singleton] at hs
        rw [List.map_append, List.mem_append]
        rcases hs with hs | rfl
        · exact .inl (hc.flying s hs)
        · exact .inr (by simp)
      · rw [hatt]
        refine List.nodup_append.mpr ⟨hc.distinct, by simp, fun x hx y hy => ?_⟩
        rw [List.mem_singleton] at hy
        exact fun e => hfresh (hc.flying _ (hy ▸ e ▸ hx))

theorem Sound.close {c : Cache Nat} (hc : c.Sound) (closing : Closing) : (c.close closing).2.Sound := by
  have h := hc.clear.mapBuilds (f := silence c.attached) (fun b => by unfold silence; split <;> rfl)
    fun b => by unfold silence; split <;> rfl
  exact { h with shut := fun _ => rfl }

/-- A build leaves, and its entry, if it has one, is no longer that of a build. -/
theorem Sound.land {c c' : Cache Nat} (hc : c.Sound) (s : Nat)
    (hf : c'.inFlight = c.inFlight.filter (·.serial != s)) (hs : c'.serials = c.serials) (he : c'.epoch = c.epoch)
    (ha : c'.attached = c.attached.filter (· != s)) (hsh : c'.closing ≠ none → c'.entries = []) : c'.Sound where
  serials := by
    rw [hf]
    exact hc.serials.sublist (List.Sublist.map _ List.filter_sublist)
  below b hb := by
    rw [hf] at hb
    rw [hs]; exact hc.below b (List.mem_filter.mp hb).1
  old b hb := by
    rw [hf] at hb
    rw [he]; exact hc.old b (List.mem_filter.mp hb).1
  attached b hb := by
    rw [hf] at hb
    obtain ⟨hb, hne⟩ := List.mem_filter.mp hb
    rw [ha, he, List.mem_filter, hc.attached b hb]
    simp only [hne, and_true]
  flying t ht := by
    rw [ha] at ht
    obtain ⟨ht, hne⟩ := List.mem_filter.mp ht
    obtain ⟨b, hb, rfl⟩ := List.mem_map.mp (hc.flying t ht)
    rw [hf]
    exact List.mem_map_of_mem (List.mem_filter.mpr ⟨hb, hne⟩)
  distinct := by
    rw [ha]
    exact hc.distinct.sublist List.filter_sublist
  shut := hsh

theorem Sound.finish {c : Cache Nat} (hc : c.Sound) (s : Nat) (result : Except Failure Artifact) :
    (c.finish s result).2.Sound := by
  unfold Cache.finish
  split
  · exact hc
  · rename_i build hb
    have hmem := List.mem_of_find?_eq_some hb
    have hserial : build.serial = s := by simpa using List.find?_some hb
    dsimp only
    split
    · rename_i hcl
      have hentries : c.entries = [] := hc.shut fun h => by simp [h] at hcl
      refine hc.land s rfl rfl rfl ?_ fun _ => hentries
      simp [Cache.attached, hentries]
    · rename_i hcl
      have hopen : c.closing = none := by simpa using hcl
      split
      · dsimp only
        split
        · exact hc.land s rfl rfl rfl (attached_promote _ s _) fun h => absurd hopen h
        · rename_i hne
          refine hc.land s rfl rfl rfl ?_ fun h => absurd hopen h
          have hn : s ∉ c.attached := fun h => hne ((hc.attached build hmem).mp (hserial ▸ h))
          refine (List.filter_eq_self.mpr fun t ht => ?_).symm
          simp only [bne_iff_ne, ne_eq]
          exact fun h => hn (h ▸ ht)
      · exact hc.land s rfl rfl rfl (attached_forget _ s) fun h => absurd hopen h

theorem Desk.sound_step {d : Desk} (hd : d.cache.Sound) (s : Step) : (d.step s).cache.Sound := by
  cases s with
  | request key => exact hd.request key d.asked
  | clear => exact hd.clear
  | close closing => exact hd.close closing
  | finish serial result => exact hd.finish serial result

theorem Desk.sound_run {d : Desk} (hd : d.cache.Sound) (steps : List Step) : (d.run steps).cache.Sound := by
  induction steps generalizing d with
  | nil => exact hd
  | cons s steps ih => exact ih (sound_step hd s)

/-! ## Every request is counted once -/

namespace Desk

variable {d : Desk}

def asks : Step → Nat
  | .request _ => 1
  | _ => 0

theorem asks_cases (s : Step) : asks s = 0 ∨ asks s = 1 := by
  cases s <;> simp [asks]

theorem asked_step (d : Desk) (s : Step) : (d.step s).asked = d.asked + asks s := by
  cases s <;> rfl

theorem asked_le_run (d : Desk) (steps : List Step) : d.asked ≤ (d.run steps).asked := by
  induction steps generalizing d with
  | nil => exact Nat.le_refl _
  | cons s steps ih => exact Nat.le_trans (by rw [asked_step]; exact Nat.le_add_right ..) (ih (d.step s))

/-- While a cache is open, a step answers who waits or lets who asks wait; closing it drops nobody. -/
theorem tally_step (hd : d.cache.Sound) (ho : d.cache.closing = none) (s : Step) (w : Nat) :
    (d.step s).tally w = d.tally w + if w = d.asked then asks s else 0 := by
  unfold tally
  cases s with
  | request key =>
    unfold step Cache.request
    rw [ho]
    dsimp only [asks]
    split
    · simp only [now?, Option.toList, List.map_cons, List.map_nil, List.map_append, List.count_append,
        List.count_singleton, beq_iff_eq, eq_comm (a := d.asked)]
      omega
    · rename_i serial he
      rw [join, count_join hd.serials (hd.flying _ (attached_of_entry he))]
      simp only [now?, Option.toList, List.map_nil, List.append_nil]
      omega
    · simp only [now?, Option.toList, List.map_nil, List.append_nil, List.flatMap_append, List.count_append,
        List.flatMap_cons, List.flatMap_nil, List.count_singleton, beq_iff_eq, eq_comm (a := d.asked)]
      omega
  | clear =>
    unfold step
    simp [Cache.clear, asks]
  | close closing =>
    have h := count_close (l := d.cache.inFlight) hd.distinct w
    -- a close moves those who wait into the answers, where they count as before
    have hmap (ws : List Nat) : (ws.map fun w => (w, (Except.error closing.failure : Except Failure Pipeline))).map
        (·.1) = ws := by
      rw [List.map_map]; exact List.map_id _
    simp only [asks, ite_self, Nat.add_zero]
    unfold step
    rw [List.map_append, List.count_append, hmap, ← h, ← Nat.add_assoc]
    rfl
  | finish serial result =>
    unfold step Cache.finish
    simp only [asks, ite_self, Nat.add_zero]
    split
    · simp
    · rename_i build hb
      have h := count_finish hd.serials hb w
      have hmap (r : Except Failure Pipeline) : (build.waiters.map (·, r)).map (·.1) = build.waiters := by
        rw [List.map_map]; exact List.map_id _
      rw [if_neg (by simp [ho])]
      split
      · rw [List.map_append, List.count_append, hmap, h, ← Nat.add_assoc]
        split <;> rfl
      · rw [List.map_append, List.count_append, hmap, h, ← Nat.add_assoc]
        rfl

/-- Every request that was made is waiting or has been answered, once. -/
def Full (d : Desk) : Prop := ∀ w, d.tally w = if w < d.asked then 1 else 0

theorem Full.step (hf : d.Full) (hd : d.cache.Sound) (ho : d.cache.closing = none) (s : Step) :
    (d.step s).Full := by
  intro w
  rw [tally_step hd ho, hf w, asked_step]
  rcases asks_cases s with ha | ha <;> rw [ha]
  · rw [ite_self]
    rfl
  · rcases Nat.lt_trichotomy w d.asked with h | h | h
    · rw [if_pos h, if_neg (by omega), if_pos (by omega)]
    · rw [if_neg (by omega), if_pos h, if_pos (by omega)]
    · rw [if_neg (by omega), if_neg (by omega), if_neg (by omega)]

theorem closing_step_of_ne (d : Desk) {s : Step} (hs : ∀ closing, s ≠ .close closing) :
    (d.step s).cache.closing = d.cache.closing := by
  cases s with
  | request key =>
    unfold Desk.step Cache.request
    dsimp only
    split
    · rfl
    · split <;> rfl
  | clear => rfl
  | close closing => exact absurd rfl (hs closing)
  | finish serial result =>
    dsimp only [Desk.step, Cache.finish]
    split
    · rfl
    · split
      · rfl
      · split
        · dsimp only
          split <;> rfl
        · rfl

theorem closing_step {s : Step} (hc : d.cache.closing ≠ none) : (d.step s).cache.closing ≠ none := by
  cases s with
  | close closing => exact Option.some_ne_none _
  | _ => rw [closing_step_of_ne d fun _ h => by cases h]; exact hc

theorem closing_run (hc : d.cache.closing ≠ none) (steps : List Step) : (d.run steps).cache.closing ≠ none := by
  induction steps generalizing d with
  | nil => exact hc
  | cons s steps ih => exact ih (closing_step hc)

theorem full_run (hd : d.cache.Sound) (hf : d.Full) (steps : List Step) (ho : (d.run steps).cache.closing = none) :
    (d.run steps).Full := by
  induction steps generalizing d with
  | nil => exact hf
  | cons s steps ih =>
    have ho' : d.cache.closing = none := Classical.byContradiction fun hc => closing_run hc (s :: steps) ho
    exact ih (sound_step hd s) (hf.step hd ho' s) ho

/-! ## After the close -/

theorem answers_step (hd : d.cache.Sound) (hc : d.cache.closing ≠ none) (s : Step) (w : Nat) :
    ((d.step s).answers.map (·.1)).count w = (d.answers.map (·.1)).count w + if w = d.asked then asks s else 0 := by
  obtain ⟨closing, hcl⟩ := Option.ne_none_iff_exists'.mp hc
  cases s with
  | request key =>
    unfold step Cache.request
    rw [hcl]
    simp only [asks, now?, Option.toList, List.map_cons, List.map_nil, List.map_append, List.count_append,
      List.count_singleton, beq_iff_eq, eq_comm (a := d.asked)]
  | clear => simp [step, asks]
  | close closing =>
    have hentries := hd.shut hc
    simp [step, Cache.close, hentries, asks]
  | finish serial result =>
    dsimp only [step, Cache.finish]
    split
    · simp [asks]
    · simp [hcl, asks]

theorem answers_run (hd : d.cache.Sound) (hc : d.cache.closing ≠ none) (steps : List Step) (w : Nat) :
    ((d.run steps).answers.map (·.1)).count w =
      (d.answers.map (·.1)).count w + if d.asked ≤ w ∧ w < (d.run steps).asked then 1 else 0 := by
  induction steps generalizing d with
  | nil => rw [if_neg (by show ¬ (_ ∧ w < d.asked); omega)]; rfl
  | cons s steps ih =>
    have hle := asked_le_run (d.step s) steps
    rw [asked_step] at hle
    rw [run_cons, ih (sound_step hd s) (closing_step hc), answers_step hd hc, asked_step, Nat.add_assoc]
    congr 1
    rcases asks_cases s with ha | ha <;> rw [ha] at hle ⊢
    · rw [ite_self, Nat.zero_add]
      rfl
    · rcases Nat.lt_trichotomy w d.asked with h | h | h
      · rw [if_neg (by omega), if_neg (by omega), if_neg (by omega)]
      · rw [if_pos h, if_neg (by omega), if_pos (by omega)]
      · rw [if_neg (by omega), Nat.zero_add]
        exact ite_congr (propext (by omega)) (fun _ => rfl) fun _ => rfl

/-! ## Builds that were detached -/

theorem epoch_finish {W : Type} (c : Cache W) (serial : Nat) (result : Except Failure Artifact) :
    (c.finish serial result).2.epoch = c.epoch ∧ (c.finish serial result).2.inFlight ⊆ c.inFlight := by
  have hsub := List.filter_sublist (p := (·.serial != serial)) (l := c.inFlight) |>.subset
  unfold finish
  split
  · exact ⟨rfl, List.Subset.refl _⟩
  · dsimp only
    split
    · exact ⟨rfl, hsub⟩
    · split
      · dsimp only
        split
        · exact ⟨rfl, hsub⟩
        · exact ⟨rfl, hsub⟩
      · exact ⟨rfl, hsub⟩

/-- Who waits after a step has just asked, or waited before on the same build. A close leaves only those
on builds that are older than the last clear. -/
theorem waiter_step (hd : d.cache.Sound) (s : Step) {b' : Build Nat}
    (hb' : b' ∈ (d.step s).cache.inFlight) {w : Nat} (hw : w ∈ b'.waiters) :
    (w = d.asked ∧ asks s = 1 ∧ b'.epoch = (d.step s).cache.epoch) ∨
      ∃ b ∈ d.cache.inFlight, w ∈ b.waiters ∧ b'.epoch = b.epoch ∧
        (b.epoch < (d.step s).cache.epoch ↔ b.epoch < d.cache.epoch ∨ s = .clear) := by
  cases s with
  | request key =>
    dsimp only [step] at hb' ⊢
    unfold Cache.request at hb' ⊢
    split at hb'
    · exact .inr ⟨b', hb', hw, rfl, by simp⟩
    · split at hb'
      · exact .inr ⟨b', hb', hw, rfl, by simp⟩
      · rename_i serial he
        obtain ⟨b, hb, rfl⟩ := List.mem_map.mp hb'
        by_cases hs : b.serial = serial
        · rw [if_pos hs] at hw ⊢
          rcases List.mem_append.mp hw with hw | hw
          · exact .inr ⟨b, hb, hw, rfl, by simp [join]⟩
          · rw [List.mem_singleton] at hw
            exact .inl ⟨hw, rfl, (hd.attached b hb).mp (hs ▸ attached_of_entry he)⟩
        · rw [if_neg hs] at hw ⊢
          exact .inr ⟨b, hb, hw, rfl, by simp [join]⟩
      · rcases List.mem_append.mp hb' with hb | hb
        · exact .inr ⟨b', hb, hw, rfl, by simp⟩
        · rw [List.mem_singleton] at hb
          subst hb
          rw [List.mem_singleton] at hw
          exact .inl ⟨hw, rfl, rfl⟩
  | clear => exact .inr ⟨b', hb', hw, rfl, by simp [step, Cache.clear, Nat.lt_succ_of_le (hd.old b' hb')]⟩
  | close closing =>
    change b' ∈ d.cache.inFlight.map (silence d.cache.attached) at hb'
    obtain ⟨b, hb, rfl⟩ := List.mem_map.mp hb'
    have hold := hd.old b hb
    -- a close silences the builds that have an entry, and leaves the older ones
    unfold silence at hw ⊢
    by_cases hs : b.serial ∈ d.cache.attached
    · rw [if_pos hs] at hw
      cases hw
    · rw [if_neg hs] at hw ⊢
      refine .inr ⟨b, hb, hw, rfl, fun _ => .inl ?_, fun _ => Nat.lt_succ_of_le hold⟩
      exact Nat.lt_of_le_of_ne hold fun h => hs ((hd.attached b hb).mpr h)
  | finish serial result =>
    obtain ⟨he, hsub⟩ := epoch_finish d.cache serial result
    exact .inr ⟨b', hsub hb', hw, rfl, by simp [step, he]⟩

theorem waits_lt (hd : d.cache.Sound) (hw : ∀ w, d.Waits w → w < d.asked) (steps : List Step) {w : Nat}
    (h : (d.run steps).Waits w) : w < (d.run steps).asked := by
  induction steps generalizing d with
  | nil => exact hw w h
  | cons s steps ih =>
    refine ih (sound_step hd s) (fun v hv => ?_) h
    obtain ⟨b', hb', hv⟩ := hv
    rw [asked_step]
    rcases waiter_step hd s hb' hv with ⟨rfl, ha, -⟩ | ⟨b, hb, hv, -⟩
    · omega
    · exact Nat.lt_of_lt_of_le (hw v ⟨b, hb, hv⟩) (Nat.le_add_right ..)

/-- Whether a request was waiting when the cache was cleared, in a run of some steps. -/
def Swept (start : Desk) (steps : List Step) (w : Nat) : Prop :=
  ∃ before after, steps = before ++ .clear :: after ∧ (start.run before).Waits w

theorem swept_concat {start : Desk} {steps : List Step} {s : Step} {w : Nat} :
    start.Swept (steps ++ [s]) w ↔ start.Swept steps w ∨ s = .clear ∧ (start.run steps).Waits w := by
  constructor
  · rintro ⟨before, after, he, hw⟩
    rcases List.eq_nil_or_concat after with rfl | ⟨after, s', rfl⟩
    · obtain ⟨rfl, hs⟩ := List.append_inj' he rfl
      cases hs
      exact .inr ⟨rfl, hw⟩
    · rw [List.concat_eq_append, ← List.cons_append, ← List.append_assoc] at he
      exact .inl ⟨before, after, (List.append_inj' he rfl).1, hw⟩
  · rintro (⟨before, after, rfl, hw⟩ | ⟨rfl, hw⟩)
    · exact ⟨before, after ++ [s], by simp, hw⟩
    · exact ⟨steps, [], rfl, hw⟩

/-- The requests that wait on a build older than the last clear were waiting at some clear. -/
theorem detached_iff {start : Desk} (hs : start.cache.Sound) (hempty : start.cache.inFlight = [])
    (steps : List Step) {b : Build Nat} (hb : b ∈ (start.run steps).cache.inFlight) {w : Nat} (hw : w ∈ b.waiters) :
    b.epoch < (start.run steps).cache.epoch ↔ start.Swept steps w := by
  have hnone : ∀ w, start.Waits w → w < start.asked := by
    rintro w ⟨b, hb, -⟩
    rw [hempty] at hb
    cases hb
  induction steps using List.reverseRecOn generalizing b with
  | nil =>
    change b ∈ start.cache.inFlight at hb
    rw [hempty] at hb
    cases hb
  | append_singleton steps s ih =>
    rw [run_append] at hb ⊢
    rw [swept_concat]
    have hd := sound_run hs steps
    rcases waiter_step hd s hb hw with ⟨rfl, ha, he⟩ | ⟨c, hc, hwc, he, hlt⟩
    · -- A request that is only now made was waiting at no clear.
      refine ⟨fun h => absurd he (Nat.ne_of_lt h), ?_⟩
      rintro (⟨before, after, rfl, h⟩ | ⟨rfl, -⟩)
      · have hlt := waits_lt hs hnone before h
        have hle := asked_le_run (start.run before) (.clear :: after)
        rw [← run_append] at hle
        omega
      · cases ha
    · have hwaits : (start.run steps).Waits w := ⟨c, hc, hwc⟩
      rw [he, and_iff_left hwaits]
      exact hlt.trans (or_congr_left (ih hc hwc))

/-- A close leaves those waiting whose build is older than the last clear. -/
theorem waits_close (hd : d.cache.Sound) (closing : Closing) (w : Nat) :
    (d.step (.close closing)).Waits w ↔ ∃ b ∈ d.cache.inFlight, w ∈ b.waiters ∧ b.epoch < d.cache.epoch := by
  constructor
  · rintro ⟨b', hb', hw⟩
    rcases waiter_step hd _ hb' hw with ⟨-, ha, -⟩ | ⟨b, hb, hw, -, hlt⟩
    · cases ha
    · have hold : b.epoch < (d.step (.close closing)).cache.epoch := Nat.lt_succ_of_le (hd.old b hb)
      rcases hlt.mp hold with h | h
      · exact ⟨b, hb, hw, h⟩
      · cases h
  · rintro ⟨b, hb, hw, hlt⟩
    have hs : b.serial ∉ d.cache.attached := fun h => Nat.ne_of_lt hlt ((hd.attached b hb).mp h)
    refine ⟨silence d.cache.attached b, List.mem_map_of_mem hb, ?_⟩
    unfold silence
    rw [if_neg hs]
    exact hw

/-- A cache that was open and is closed was closed by a step. -/
theorem first_close (ho : d.cache.closing = none) {steps : List Step} (hc : (d.run steps).cache.closing ≠ none) :
    ∃ before closing after, steps = before ++ .close closing :: after ∧ (d.run before).cache.closing = none := by
  induction steps generalizing d with
  | nil => exact absurd ho hc
  | cons s steps ih =>
    by_cases hs : ∃ closing, s = .close closing
    · obtain ⟨closing, rfl⟩ := hs
      exact ⟨[], closing, steps, rfl, ho⟩
    · have ho' : (d.step s).cache.closing = none := by
        rw [closing_step_of_ne d fun closing h => hs ⟨closing, h⟩]
        exact ho
      obtain ⟨before, closing, after, rfl, h⟩ := ih ho' hc
      exact ⟨s :: before, closing, after, rfl, h⟩

end Desk

open Desk

/-- However a new cache is used: no request is answered twice, and none that was not made. While the
cache is open, a request is unanswered as long as it waits on a build in flight. From the first close
on, the requests that are never answered are those that were waiting when the cache was cleared and
were still waiting when it was closed. -/
theorem requests_answered (library : Library) (steps : List Step) :
    let start : Desk := { cache := { library } }
    let d := start.run steps
    (d.answers.map (·.1)).Nodup ∧ (∀ w, d.Answered w → w < d.asked) ∧
    (d.cache.closing = none → ∀ w < d.asked, ¬ d.Answered w ↔ d.Waits w) ∧
    ∀ before closing after, steps = before ++ .close closing :: after → (start.run before).cache.closing = none →
      ∀ w < d.asked, ¬ d.Answered w ↔ start.Swept before w ∧ (start.run before).Waits w := by
  intro start d
  have hstart : start.cache.Sound :=
    ⟨List.nodup_nil, fun b hb => absurd hb List.not_mem_nil, fun b hb => absurd hb List.not_mem_nil,
      fun b hb => absurd hb List.not_mem_nil, fun s hs => absurd hs List.not_mem_nil, List.nodup_nil, fun _ => rfl⟩
  have hfull : start.Full := fun w => by rw [if_neg (Nat.not_lt_zero w)]; rfl
  -- The state right after the first close, and what has been answered since.
  have closed {before : List Step} {closing : Closing} {after : List Step}
      (hs : steps = before ++ .close closing :: after) (ho : (start.run before).cache.closing = none) :
      ((start.run before).step (.close closing)).Full ∧
      ((start.run before).step (.close closing)).asked ≤ d.asked ∧
      ∀ w, (d.answers.map (·.1)).count w =
        (((start.run before).step (.close closing)).answers.map (·.1)).count w +
          if ((start.run before).step (.close closing)).asked ≤ w ∧ w < d.asked then 1 else 0 := by
    have hd := sound_run hstart before
    have hrun : d = ((start.run before).step (.close closing)).run after := by
      show start.run steps = _
      rw [hs, run_append, run_cons]
    have hclosed : ((start.run before).step (.close closing)).cache.closing ≠ none := Option.some_ne_none closing
    refine ⟨(full_run hstart hfull before ho).step hd ho _, ?_, fun w => ?_⟩
    · rw [hrun]; exact asked_le_run _ _
    · rw [hrun]; exact answers_run (sound_step hd _) hclosed after w
  have once (w : Nat) : (d.answers.map (·.1)).count w ≤ if w < d.asked then 1 else 0 := by
    by_cases ho : d.cache.closing = none
    · have h := full_run hstart hfull steps ho w
      rw [← h]
      exact Nat.le_add_right ..
    · obtain ⟨before, closing, after, hs, hb⟩ := first_close (d := start) rfl ho
      obtain ⟨hf, hle, hcount⟩ := closed hs hb
      have h := hf w
      unfold tally at h
      rw [hcount]
      by_cases hw : w < ((start.run before).step (.close closing)).asked
      · rw [if_pos hw] at h
        rw [if_neg (by omega), if_pos (by omega)]
        omega
      · rw [if_neg hw] at h
        by_cases hw' : w < d.asked
        · rw [if_pos (by omega), if_pos hw']
          omega
        · rw [if_neg (by omega), if_neg hw']
          omega
  refine ⟨List.nodup_iff_count_le_one.mpr fun w => ?_, fun w hw => ?_, fun ho w hw => ?_,
    fun before closing after hs ho w hw => ?_⟩
  · have h := once w
    split at h <;> omega
  · rw [answered_iff] at hw
    have h := once w
    split at h
    · assumption
    · omega
  · have h := full_run hstart hfull steps ho w
    rw [if_pos hw] at h
    rw [answered_iff, waits_iff]
    change (d.answers.map (·.1)).count w + (d.cache.inFlight.flatMap (·.waiters)).count w = 1 at h
    omega
  · obtain ⟨hf, hle, hcount⟩ := closed hs ho
    have hd := sound_run hstart before
    have hlt : (start.run before).Waits w → w < (start.run before).asked :=
      waits_lt hstart (by rintro v ⟨b, hb, -⟩; cases hb) before
    have hlost : ((start.run before).step (.close closing)).Waits w ↔
        start.Swept before w ∧ (start.run before).Waits w := by
      rw [waits_close hd]
      constructor
      · rintro ⟨b, hb, hwb, he⟩
        exact ⟨(detached_iff hstart rfl before hb hwb).mp he, b, hb, hwb⟩
      · rintro ⟨hswept, b, hb, hwb⟩
        exact ⟨b, hb, hwb, (detached_iff hstart rfl before hb hwb).mpr hswept⟩
    have h := hf w
    unfold tally at h
    rw [← hlost, answered_iff, waits_iff, hcount]
    by_cases hw' : w < ((start.run before).step (.close closing)).asked
    · rw [if_pos hw'] at h
      rw [if_neg (by omega)]
      omega
    · rw [if_neg hw'] at h
      rw [if_pos (by omega)]
      omega

/-- A request whose build is cleared away and ends only after the close is never answered, though no
build is in flight any more. -/
theorem cleared_request_lost :
    ¬ ∀ steps : List Step, let d := Desk.run { cache := {} } steps
      d.cache.closing ≠ none → d.cache.inFlight = [] → ∀ w < d.asked, d.Answered w := by
  intro h
  have h := h [.request ⟨"screen", "srgb", "rgba8unorm"⟩, .clear, .close ⟨.deviceLost, "lost"⟩,
    .finish 0 (.ok ⟨"Blend screen/srgb/rgba8unorm", .blend .screen .srgb .unorm8⟩)]
  have h := h (by decide) (by decide) 0 (by decide)
  unfold Answered at h
  revert h
  decide

/-- Of two requests, both made before a clear, the one whose build ends in time is answered. -/
theorem requests_answered_cleared :
    let start : Desk := { cache := {} }
    let before : List Step :=
      [.request ⟨"screen", "srgb", "rgba8unorm"⟩, .request ⟨"multiply", "srgb", "rgba8unorm"⟩,
      .clear, .finish 1 (.error (.of (.closed .internal "refused")))]
    let d := start.run (before ++ [.close ⟨.deviceLost, "lost"⟩])
    (start.run before).cache.closing = none ∧ d.Answered 1 ∧ ¬ d.Answered 0 ∧
      start.Swept before 0 ∧ (start.run before).Waits 0 := by
  intro start before d
  obtain ⟨-, -, -, h⟩ := requests_answered .full (before ++ [.close ⟨.deviceLost, "lost"⟩])
  have h₀ := h before _ [] rfl rfl 0 (by decide)
  have hlost : ¬ d.Answered 0 := by unfold Answered; decide
  exact ⟨rfl, by unfold Answered; decide, hlost, h₀.mp hlost⟩

end Strata.Cache
